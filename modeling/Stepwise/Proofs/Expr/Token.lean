/-
# Tokens of written text

What the parts of a written text are split into.  A word ends where the text after it breaks, so
the tokens of a text are those of its parts, one after the other.

* `Text.of_isBlank` : white space belongs to no word;
* `Token.Breaks` : no number and no name goes on across the start of a text;
* `Token.Munched`, `Token.scan_munched` : a number that is as long as possible is one token;
* `Token.Spells` : a text has given tokens wherever a break follows it;
* `Token.spells_display` : the text shown for a double.
-/
import Stepwise.Expr.Token
import Stepwise.Proofs.Decimal.Numeral

namespace Stepwise

namespace Text

/-! ## White space -/

/-- Classes have no character in common if their ranges lie apart. -/
theorem Ranges.has_eq_false_of_apart {first second : Ranges}
    (h : (first.all fun a => second.all fun b => Nat.blt a.2 b.1 || Nat.blt b.2 a.1) = true)
    {c : Char} (hc : first.has c = true) : second.has c = false := by
  rw [has, List.any_eq_true] at hc
  obtain ⟨a, ha, hbounds⟩ := hc
  rw [has, List.any_eq_false]
  intro b hb
  have hapart := List.all_eq_true.mp (List.all_eq_true.mp h a ha) b hb
  simp only [Bool.or_eq_true, Nat.blt_eq] at hapart
  simp only [Bool.and_eq_true, decide_eq_true_eq] at hbounds ⊢
  omega

/-- White space belongs to no word. -/
theorem of_isBlank {c : Char} (h : isBlank c = true) :
    isDigit c = false ∧ isLetter c = false ∧ c ≠ '.' := by
  have hletters : letterRanges.has c = false := Ranges.has_eq_false_of_apart (by decide +kernel) h
  have hall : ∀ range ∈ blankRanges, ∀ k ≤ range.2 - range.1,
      isDigit (Char.ofNat (range.1 + k)) = false ∧ (Char.ofNat (range.1 + k)).isAlpha = false ∧
        Char.ofNat (range.1 + k) ≠ '.' := by
    decide +kernel
  rw [isBlank, Ranges.has, List.any_eq_true] at h
  obtain ⟨range, hrange, hbounds⟩ := h
  simp only [Bool.and_eq_true, decide_eq_true_eq] at hbounds
  have hc := hall range hrange (c.toNat - range.1) (by omega)
  rw [Nat.add_sub_cancel' hbounds.1, Char.ofNat_toNat] at hc
  obtain ⟨hdigit, halpha, hpoint⟩ := hc
  refine ⟨hdigit, ?_, hpoint⟩
  rw [isLetter, halpha, hletters, ite_self]

/-- What a word can consist of is no white space. -/
theorem isBlank_eq_false {c : Char} (h : isDigit c = true ∨ isLetter c = true ∨ c = '.') :
    isBlank c = false := by
  by_contra hblank
  obtain ⟨hdigit, hletter, hpoint⟩ := of_isBlank (Bool.not_eq_false _ ▸ hblank)
  rcases h with h | h | h
  · rw [hdigit] at h
    cases h
  · rw [hletter] at h
    cases h
  · exact hpoint h

end Text

namespace Token

/-! ## Classes of characters -/

theorem isLetter_of_isDigit {c : Char} (h : c.isDigit = true) : Text.isLetter c = false := by
  obtain ⟨hlower, hupper⟩ := toNat_of_isDigit h
  have hascii : ∀ n, 48 ≤ n → n ≤ 57 → Text.isLetter (Char.ofNat n) = false := by
    intro n h₁ h₂
    interval_cases n <;> decide
  rw [← Char.ofNat_toNat c]
  exact hascii _ hlower hupper

/-! ## Scanning -/

/-- A word ends where it cannot be continued. -/
theorem scan_of_not_extends {word : Partial} {rest : List Char}
    (h : ∀ c ∈ rest.head?, word.extend? c = none) :
    scan word rest = (scan .none rest).map word.close := by
  cases rest with
  | nil => rfl
  | cons c rest =>
    have hc := h c (by simp)
    have hnone : Partial.none.extend? c = none := rfl
    rw [scan, hc, scan, hnone]
    cases begin? c rest with
    | none => rfl
    | some next =>
      obtain ⟨tokens, next⟩ := next
      cases hscan : scan next rest with
      | error f => simp [bind, Except.bind, Except.map, hscan]
      | ok rest => simp [bind, Except.bind, pure, Except.pure, Except.map, hscan, Partial.close]

theorem scan_whole_append {s : List Char} (h : ∀ c ∈ s, Text.isDigit c = true)
    (reversed rest : List Char) :
    scan (.whole reversed) (s ++ rest) = scan (.whole (s.reverse ++ reversed)) rest := by
  induction s generalizing reversed with
  | nil => rfl
  | cons c s ih =>
    rw [List.cons_append, scan, Partial.extend?, if_pos (h c (by simp)), List.reverse_cons,
      List.append_assoc]
    exact ih (fun d hd => h d (List.mem_cons_of_mem _ hd)) _

theorem scan_fraction_append {s : List Char} (h : ∀ c ∈ s, Text.isDigit c = true)
    (reversed rest : List Char) :
    scan (.fraction reversed) (s ++ rest) = scan (.fraction (s.reverse ++ reversed)) rest := by
  induction s generalizing reversed with
  | nil => rfl
  | cons c s ih =>
    rw [List.cons_append, scan, Partial.extend?, if_pos (h c (by simp)), List.reverse_cons,
      List.append_assoc]
    exact ih (fun d hd => h d (List.mem_cons_of_mem _ hd)) _

theorem scan_name_append {s : List Char} (h : ∀ c ∈ s, Text.isLetter c = true)
    (reversed rest : List Char) :
    scan (.name reversed) (s ++ rest) = scan (.name (s.reverse ++ reversed)) rest := by
  induction s generalizing reversed with
  | nil => rfl
  | cons c s ih =>
    rw [List.cons_append, scan, Partial.extend?, if_pos (h c (by simp)), List.reverse_cons,
      List.append_assoc]
    exact ih (fun d hd => h d (List.mem_cons_of_mem _ hd)) _

/-- What a character begins, if it completes no token. -/
theorem scan_begin {c : Char} {rest : List Char} {word : Partial}
    (h : begin? c rest = some ([], word)) : scan .none (c :: rest) = scan word rest := by
  have hnone : Partial.none.extend? c = none := rfl
  rw [scan]
  simp only [hnone, h]
  cases scan word rest <;> rfl

/-- A number starts at its first digit. -/
theorem scan_digit {c : Char} (h : Text.isDigit c = true) (rest : List Char) :
    scan .none (c :: rest) = scan (.whole [c]) rest :=
  scan_begin (by simp [begin?, Text.isBlank_eq_false (.inl h), h])

/-- A text starts with a number that is as long as possible, and the rest follows. -/
inductive Munched : List Char → List Char → Prop where
  | whole {c : Char} {digits rest : List Char} (hdigits : ∀ d ∈ c :: digits, Text.isDigit d = true)
      (hrest : ∀ d ∈ rest.head?, Text.isDigit d = false ∧ d ≠ '.') : Munched (c :: digits) rest
  | point {c : Char} {digits fraction rest : List Char}
      (hdigits : ∀ d ∈ c :: digits, Text.isDigit d = true)
      (hfraction : ∀ d ∈ fraction, Text.isDigit d = true)
      (hrest : ∀ d ∈ rest.head?, Text.isDigit d = false) :
      Munched (c :: digits ++ '.' :: fraction) rest
  | fraction {c : Char} {digits rest : List Char}
      (hdigits : ∀ d ∈ c :: digits, Text.isDigit d = true)
      (hrest : ∀ d ∈ rest.head?, Text.isDigit d = false) : Munched ('.' :: c :: digits) rest

/-- A number is one token, where it cannot be continued. -/
theorem scan_munched {text rest : List Char} (h : Munched text rest) :
    scan .none (text ++ rest) = (scan .none rest).map (.number text :: ·) := by
  cases h with
  | @whole c digits _ hdigits hrest =>
    rw [List.cons_append, scan_digit (hdigits c (by simp)),
      scan_whole_append fun d hd => hdigits d (List.mem_cons_of_mem _ hd), scan_of_not_extends]
    · congr 1
      funext tokens
      simp [Partial.close]
    · intro d hd
      obtain ⟨hdigit, hpoint⟩ := hrest d hd
      simp [Partial.extend?, hdigit, hpoint]
  | @point c digits fraction _ hdigits hfraction hrest =>
    have hpoint : (Partial.whole (digits.reverse ++ [c])).extend? '.' =
        some (.fraction ('.' :: (digits.reverse ++ [c]))) := by
      rw [Partial.extend?, if_neg (by decide), if_pos rfl]
    rw [List.append_assoc, List.cons_append, scan_digit (hdigits c (by simp)),
      scan_whole_append fun d hd => hdigits d (List.mem_cons_of_mem _ hd), List.cons_append, scan,
      hpoint]
    simp only []
    rw [scan_fraction_append hfraction, scan_of_not_extends]
    · congr 1
      funext tokens
      simp [Partial.close]
    · intro d hd
      simp [Partial.extend?, hrest d hd]
  | @fraction c digits _ hdigits hrest =>
    have hdigit : startsWithDigit (c :: digits ++ rest) = true := hdigits c (by simp)
    have hpoint : begin? '.' (c :: digits ++ rest) = some ([], .fraction ['.']) := by
      rw [begin?, if_neg (by decide), if_neg (by decide), hdigit]
      rfl
    rw [List.cons_append, scan_begin hpoint, scan_fraction_append hdigits, scan_of_not_extends]
    · congr 1
      funext tokens
      simp [Partial.close]
    · intro d hd
      simp [Partial.extend?, hrest d hd]

/-- A written numeral is a number as long as possible, where it cannot be continued. -/
theorem Munched.of_written {s : List Char} (h : Numeral.Written s) {rest : List Char}
    (hrest : ∀ c ∈ rest.head?, Text.isDigit c = false ∧ c ≠ '.') : Munched s rest := by
  have hdigits {t : List Char} (ht : Numeral.Digits t) : ∀ d ∈ t, Text.isDigit d = true :=
    fun d hd => Text.isDigit_of_isDigit (ht.2 d hd)
  cases h with
  | whole hs =>
    obtain ⟨c, s, rfl⟩ := List.exists_cons_of_ne_nil hs.1
    exact .whole (hdigits hs) hrest
  | point hwhole hfraction =>
    obtain ⟨c, s, rfl⟩ := List.exists_cons_of_ne_nil hwhole.1
    exact .point (hdigits hwhole) (hdigits hfraction) fun d hd => (hrest d hd).1

/-- A written numeral is one token, where it cannot be continued. -/
theorem scan_written {s : List Char} (h : Numeral.Written s) {rest : List Char}
    (hrest : ∀ c ∈ rest.head?, Text.isDigit c = false ∧ c ≠ '.') :
    scan .none (s ++ rest) = (scan .none rest).map (.number s :: ·) :=
  scan_munched (.of_written h hrest)

/-- Letters are one name, where no letter follows. -/
theorem scan_letters {c : Char} {s : List Char} (hdigit : Text.isDigit c = false)
    (h : ∀ d ∈ c :: s, Text.isLetter d = true) {rest : List Char}
    (hrest : ∀ d ∈ rest.head?, Text.isLetter d = false) :
    scan .none (c :: s ++ rest) = (scan .none rest).map (.name (c :: s) :: ·) := by
  have hletter : Text.isLetter c = true := h c (by simp)
  have hpoint : c ≠ '.' := by
    rintro rfl
    exact absurd hletter (by decide)
  have hbegin : begin? c (s ++ rest) = some ([], .name [c]) := by
    simp [begin?, Text.isBlank_eq_false (.inr (.inl hletter)), hdigit, hpoint, hletter]
  rw [List.cons_append, scan_begin hbegin,
    scan_name_append fun d hd => h d (List.mem_cons_of_mem _ hd), scan_of_not_extends]
  · congr 1
    funext tokens
    simp [Partial.close]
  · intro d hd
    simp [Partial.extend?, hrest d hd]

/-- A symbol is a token of its own. -/
theorem scan_symbol {c : Char} {token : Token} (hsymbol : ofSymbol? c = some token)
    (hblank : Text.isBlank c = false) (hdigit : Text.isDigit c = false) (hpoint : c ≠ '.')
    (hletter : Text.isLetter c = false) (rest : List Char) :
    scan .none (c :: rest) = (scan .none rest).map (token :: ·) := by
  have hnone : Partial.none.extend? c = none := rfl
  have hbegin : begin? c rest = some ([token], .none) := by
    simp [begin?, hblank, hdigit, hpoint, hletter, hsymbol]
  rw [scan]
  simp only [hnone, hbegin]
  cases scan .none rest <;> rfl

/-! ## Spelled tokens -/

/-- No number and no name goes on across the start of the text. -/
def Breaks (rest : List Char) : Prop :=
  ∀ c ∈ rest.head?, Text.isDigit c = false ∧ c ≠ '.' ∧ Text.isLetter c = false

theorem breaks_nil : Breaks [] := by
  simp [Breaks]

/-- Blanks and symbols break a text. -/
theorem breaks_cons {c : Char} (hc : c ∈ [' ', '(', ')', '%', '+', '-', '*', '/', '^'])
    (rest : List Char) : Breaks (c :: rest) := by
  have hall : ([' ', '(', ')', '%', '+', '-', '*', '/', '^'].all fun d =>
      !Text.isDigit d && d != '.' && !Text.isLetter d) = true := by decide
  intro d hd
  obtain rfl : c = d := by simpa using hd
  simpa [and_assoc] using List.all_eq_true.mp hall c hc

/-- The text has the tokens wherever a break follows it. -/
def Spells (s : List Char) (tokens : List Token) : Prop :=
  ∀ rest, Breaks rest → scan .none (s ++ rest) = (scan .none rest).map (tokens ++ ·)

namespace Spells

variable {s t : List Char} {front rest : List Token}

theorem nil : Spells [] [] := by
  intro rest _
  cases h : scan .none rest <;> simp [h, Except.map]

/-- A text has the tokens that it spells. -/
theorem ofChars (h : Spells s front) : ofChars s = .ok front := by
  have hs := h [] breaks_nil
  rw [List.append_nil] at hs
  rw [Token.ofChars, hs]
  simp [scan, Partial.close, Except.map]

/-- Texts with a break between them. -/
theorem append (hs : Spells s front) (ht : Spells t rest)
    (hbreak : ∀ after, Breaks after → Breaks (t ++ after)) : Spells (s ++ t) (front ++ rest) := by
  intro after hafter
  rw [List.append_assoc, hs _ (hbreak after hafter), ht _ hafter]
  cases scan .none after <;> simp [Except.map]

/-- A blank before a text does not count. -/
theorem blank (ht : Spells t rest) : Spells (' ' :: t) rest := by
  intro after hafter
  have hnone : Partial.none.extend? ' ' = none := rfl
  have hbegin : begin? ' ' (t ++ after) = some ([], .none) := by
    rw [begin?, if_pos (by decide)]
  rw [List.cons_append, scan]
  simp only [hnone, hbegin]
  rw [ht after hafter]
  cases scan .none after <;> rfl

/-- A symbol is a token of its own. -/
theorem symbol {c : Char} {token : Token} (hsymbol : ofSymbol? c = some token)
    (hblank : Text.isBlank c = false) (hdigit : Text.isDigit c = false) (hpoint : c ≠ '.')
    (hletter : Text.isLetter c = false) (ht : Spells t rest) : Spells (c :: t) (token :: rest) := by
  intro after hafter
  rw [List.cons_append, scan_symbol hsymbol hblank hdigit hpoint hletter, ht after hafter]
  cases scan .none after <;> rfl

theorem operator (op : Operator) (ht : Spells t rest) :
    Spells (op.symbol :: t) (.operator op :: rest) := by
  cases op <;> exact symbol rfl (by decide) (by decide) (by decide) (by decide) ht

theorem opening (ht : Spells t rest) : Spells ('(' :: t) (.opening :: rest) :=
  symbol rfl (by decide) (by decide) (by decide) (by decide) ht

theorem closing (ht : Spells t rest) : Spells (')' :: t) (.closing :: rest) :=
  symbol rfl (by decide) (by decide) (by decide) (by decide) ht

theorem percent (ht : Spells t rest) : Spells ('%' :: t) (.percent :: rest) :=
  symbol rfl (by decide) (by decide) (by decide) (by decide) ht

theorem number (h : Numeral.Written s) : Spells s [.number s] :=
  fun _ hafter => scan_written h fun c hc => ⟨(hafter c hc).1, (hafter c hc).2.1⟩

theorem letters {c : Char} (hdigit : Text.isDigit c = false)
    (h : (c :: s).all Text.isLetter = true) : Spells (c :: s) [.name (c :: s)] :=
  fun _ hafter => scan_letters hdigit (List.all_eq_true.mp h) fun d hd => (hafter d hd).2.2

theorem function (f : FunctionName) : Spells f.name.toList [.name f.name.toList] := by
  cases f <;> exact letters (by decide) (by decide)

theorem constant (c : ConstantName) : Spells c.name.toList [.name c.name.toList] := by
  cases c <;> exact letters (by decide) (by decide)

end Spells

/-! ## Texts of doubles -/

/-- The tokens of the sign that a double is shown with. -/
def signTokens (x : Double) : List Token := if x.shownSign = [] then [] else [.operator .sub]

theorem Spells.sign (x : Double) {t : List Char} {rest : List Token} (ht : Spells t rest) :
    Spells (x.shownSign ++ t) (signTokens x ++ rest) := by
  have hsign : x.shownSign = [] ∨ x.shownSign = ['-'] := by
    cases x with
    | nan => exact .inl rfl
    | infinity negative | finite negative m e h =>
      simp only [Double.shownSign]
      split <;> simp
  rcases hsign with hsign | hsign
  · simpa [signTokens, hsign] using ht
  · rw [signTokens, hsign, if_neg (by simp)]
    exact ht.operator .sub

/-- A number with an exponent is read as a number, the name `e`, an operator and a number. -/
theorem Spells.scientific {s digits : List Char} {c : Char} (h : Numeral.Written s)
    (hc : c = '+' ∨ c = '-') (hdigits : Numeral.Digits digits) :
    ∃ op, Spells (s ++ 'e' :: c :: digits)
      [.number s, .name ['e'], .operator op, .number digits] := by
  obtain ⟨op, rfl⟩ : ∃ op : Operator, c = op.symbol := by
    rcases hc with rfl | rfl
    · exact ⟨.add, rfl⟩
    · exact ⟨.sub, rfl⟩
  have hoperator : Spells (op.symbol :: digits) [.operator op, .number digits] :=
    .operator op (.number (.whole hdigits))
  have hname : Spells (['e'] ++ op.symbol :: digits) [.name ['e'], .operator op, .number digits] :=
    (Spells.constant .e).append hoperator fun after _ => by
      cases op <;> exact breaks_cons (by simp [Operator.symbol]) _
  refine ⟨op, fun after hafter => ?_⟩
  rw [List.append_assoc]
  have hletter : ∀ d ∈ ('e' :: op.symbol :: digits ++ after).head?,
      Text.isDigit d = false ∧ d ≠ '.' := by
    intro d hd
    obtain rfl : 'e' = d := by simpa using hd
    decide
  rw [scan_written h hletter, show 'e' :: op.symbol :: digits = ['e'] ++ op.symbol :: digits
    from rfl, hname after hafter]
  cases scan .none after <;> rfl

/-- The number of names among tokens. -/
def names (tokens : List Token) : Nat :=
  tokens.countP fun
    | .name _ => true
    | _ => false

theorem names_append (front rest : List Token) : names (front ++ rest) = names front + names rest :=
  List.countP_append

theorem names_signTokens (x : Double) : names (signTokens x) = 0 := by
  rw [signTokens]
  split <;> rfl

end Token

/-- The number is shown without letters: positionally, and neither infinite nor undefined. -/
def Double.Plain (x : Double) : Prop := ∀ c ∈ x.display, Text.isLetter c = false

instance (x : Double) : Decidable x.Plain := inferInstanceAs (Decidable (∀ c ∈ x.display, _))

namespace Token

theorem isLetter_of_mem_written {s : List Char} (h : Numeral.Written s) :
    ∀ c ∈ s, Text.isLetter c = false := by
  intro c hc
  rcases h.isDigit_or_point hc with hdigit | rfl
  · exact isLetter_of_isDigit hdigit
  · decide

theorem isLetter_of_mem_shownSign {x : Double} : ∀ c ∈ x.shownSign, Text.isLetter c = false := by
  intro c hc
  obtain rfl : c = '-' := by
    cases x with
    | nan => cases hc
    | infinity negative | finite negative m e h =>
      simp only [Double.shownSign] at hc
      split at hc
      · simpa using hc
      · cases hc
  decide

/-- **The tokens of the text shown for a double**: a sign and a number that reads back if it is
shown plainly, and otherwise a name among them. -/
theorem spells_display (x : Double) :
    ∃ tokens, Spells x.display tokens ∧
      ((x.Plain ∧ x.isFinite = true ∧
        ∃ s, tokens = signTokens x ++ [.number s] ∧ Numeral.unsignedValue s = x.abs) ∨
      (¬ x.Plain ∧ names tokens = 1)) := by
  have hnotPlain {c : Char} (hc : c ∈ x.display) (hletter : Text.isLetter c = true) :
      ¬ x.Plain := by
    intro hplain
    rw [hplain c hc] at hletter
    cases hletter
  have hform := x.displays_display
  generalize htext : x.display = text at hform hnotPlain
  cases hform with
  | plain hfinite hwritten hvalue =>
    refine ⟨_, (Spells.number hwritten).sign x, .inl ⟨?_, hfinite, _, rfl, hvalue⟩⟩
    intro c hc
    rw [htext] at hc
    rcases List.mem_append.mp hc with hc | hc
    · exact isLetter_of_mem_shownSign c hc
    · exact isLetter_of_mem_written hwritten c hc
  | @scientific d hfinite hvalue =>
    obtain ⟨s, c, digits, hchars, hwritten, hc, hdigits⟩ := d.scientificChars_eq
    rw [hchars] at hnotPlain ⊢
    obtain ⟨op, hspells⟩ := Spells.scientific hwritten hc hdigits
    refine ⟨_, hspells.sign x, .inr ⟨hnotPlain (c := 'e') (by simp) (by decide), ?_⟩⟩
    rw [names_append, names_signTokens]
    rfl
  | infinite =>
    have hspells : Spells ['i', 'n', 'f'] [.name ['i', 'n', 'f']] :=
      .letters (by decide) (by decide)
    refine ⟨_, hspells.sign x, .inr ⟨hnotPlain (c := 'i') (by simp) (by decide), ?_⟩⟩
    rw [names_append, names_signTokens]
    rfl
  | undefined =>
    have hspells : Spells ['n', 'a', 'n'] [.name ['n', 'a', 'n']] :=
      .letters (by decide) (by decide)
    exact ⟨_, hspells, .inr ⟨hnotPlain (c := 'n') (by simp) (by decide), rfl⟩⟩

end Token

end Stepwise
