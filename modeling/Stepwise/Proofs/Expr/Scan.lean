/-
# Scanned texts

What is true of every text that can be split into tokens: its tokens are its characters without the
white space, and its numbers can be read.

* `Token.scan_cons` : one step of the scanning;
* `Token.flatMap_chars_of_ofChars` : nothing but white space is lost;
* `Numeral.Scanned` : the texts of numbers among tokens;
* `Token.scanned_of_ofChars` : numbers are read with or without a point.
-/
import Stepwise.Proofs.Decimal.ReadBack
import Stepwise.Proofs.Derivation.Value
import Stepwise.Proofs.Expr.Token

namespace Stepwise

namespace Token

/-! ## One step -/

/-- The characters of the word that is being read. -/
def Partial.chars : Partial → List Char
  | .none => []
  | .whole reversed | .fraction reversed | .name reversed => reversed.reverse

theorem Partial.flatMap_chars_close (word : Partial) (tokens : List Token) :
    (word.close tokens).flatMap Token.chars = word.chars ++ tokens.flatMap Token.chars := by
  cases word <;> simp [close, chars, Token.chars]

/-- **One step of the scanning**: the word goes on, or it ends and something begins. -/
theorem scan_cons {word : Partial} {c : Char} {s : List Char} {tokens : List Token}
    (h : scan word (c :: s) = .ok tokens) :
    (∃ longer, word.extend? c = some longer ∧ scan longer s = .ok tokens) ∨
      (word.extend? c = none ∧ ∃ done next rest, begin? c s = some (done, next) ∧
        scan next s = .ok rest ∧ tokens = word.close (done ++ rest)) := by
  rw [scan] at h
  cases hextend : word.extend? c with
  | some longer =>
    rw [hextend] at h
    exact .inl ⟨longer, rfl, h⟩
  | none =>
    rw [hextend] at h
    cases hbegin : begin? c s with
    | none =>
      rw [hbegin] at h
      cases h
    | some begun =>
      obtain ⟨done, next⟩ := begun
      rw [hbegin] at h
      obtain ⟨rest, hrest, htokens⟩ := bind_eq_ok.mp h
      cases htokens
      exact .inr ⟨rfl, done, next, rest, rfl, hrest, rfl⟩

/-- What a character begins where no word goes on. -/
inductive Begins (c : Char) (after : List Char) : List Token → Partial → Prop where
  | blank (h : Text.isBlank c = true) : Begins c after [] .none
  | digit (hblank : Text.isBlank c = false) (h : Text.isDigit c = true) :
      Begins c after [] (.whole [c])
  | point (hblank : Text.isBlank c = false) (h : c = '.') (hdigit : startsWithDigit after = true) :
      Begins c after [] (.fraction [c])
  | letter (hblank : Text.isBlank c = false) (h : Text.isLetter c = true) :
      Begins c after [] (.name [c])
  | symbol {token : Token} (hblank : Text.isBlank c = false) (h : ofSymbol? c = some token) :
      Begins c after [token] .none

theorem begins_of_begin? {c : Char} {after : List Char} {done : List Token} {next : Partial}
    (h : begin? c after = some (done, next)) : Begins c after done next := by
  unfold begin? at h
  split at h
  · next hblank =>
    cases h
    exact .blank hblank
  · next hblank =>
    rw [Bool.not_eq_true] at hblank
    split at h
    · next hdigit =>
      cases h
      exact .digit hblank hdigit
    · split at h
      · next hpoint =>
        simp only [Bool.and_eq_true, decide_eq_true_eq] at hpoint
        cases h
        exact .point hblank hpoint.1 hpoint.2
      · split at h
        · next hletter =>
          cases h
          exact .letter hblank hletter
        · obtain ⟨token, htoken, heq⟩ := Option.map_eq_some_iff.mp h
          cases heq
          exact .symbol hblank htoken

theorem chars_of_ofSymbol? {c : Char} {token : Token} (h : ofSymbol? c = some token) :
    token.chars = [c] := by
  unfold ofSymbol? at h
  split at h
  · cases h
    rfl
  · cases h
    rfl
  · cases h
    rfl
  · obtain ⟨op, hop, rfl⟩ := Option.map_eq_some_iff.mp h
    have hsymbol := List.find?_some hop
    rw [chars, ← eq_of_beq hsymbol]

/-! ## Characters -/

theorem isBlank_of_extend? {word longer : Partial} {c : Char} (h : word.extend? c = some longer) :
    Text.isBlank c = false ∧ longer.chars = word.chars ++ [c] := by
  cases word with
  | none => cases h
  | whole reversed =>
    rw [Partial.extend?] at h
    split at h
    · next hdigit =>
      cases h
      exact ⟨Text.isBlank_eq_false (.inl hdigit), List.reverse_cons⟩
    · split at h
      · next hpoint =>
        cases h
        exact ⟨Text.isBlank_eq_false (.inr (.inr hpoint)), List.reverse_cons⟩
      · cases h
  | fraction reversed =>
    rw [Partial.extend?] at h
    split at h
    · next hdigit =>
      cases h
      exact ⟨Text.isBlank_eq_false (.inl hdigit), List.reverse_cons⟩
    · cases h
  | name reversed =>
    rw [Partial.extend?] at h
    split at h
    · next hletter =>
      cases h
      exact ⟨Text.isBlank_eq_false (.inr (.inl hletter)), List.reverse_cons⟩
    · cases h

theorem Begins.chars_eq {c : Char} {after : List Char} {done : List Token} {next : Partial}
    (h : Begins c after done next) :
    done.flatMap Token.chars ++ next.chars = Text.removeBlanks [c] := by
  cases h with
  | blank h => simp [Text.removeBlanks, h, Partial.chars]
  | digit hblank h | point hblank h hdigit | letter hblank h =>
    simp [Text.removeBlanks, hblank, Partial.chars]
  | symbol hblank h =>
    simp [Text.removeBlanks, hblank, chars_of_ofSymbol? h, Partial.chars]

/-- Scanning goes through all characters but the white space. -/
theorem flatMap_chars_of_scan {word : Partial} {s : List Char} {tokens : List Token}
    (h : scan word s = .ok tokens) :
    tokens.flatMap Token.chars = word.chars ++ Text.removeBlanks s := by
  induction s generalizing word tokens with
  | nil =>
    cases h
    rw [Partial.flatMap_chars_close]
    rfl
  | cons c s ih =>
    rcases scan_cons h with ⟨longer, hextend, hscan⟩ | ⟨-, done, next, rest, hbegin, hscan, rfl⟩
    · obtain ⟨hblank, hchars⟩ := isBlank_of_extend? hextend
      rw [ih hscan, hchars, List.append_assoc]
      simp [Text.removeBlanks, hblank]
    · have hbegins := (begins_of_begin? hbegin).chars_eq
      rw [Partial.flatMap_chars_close, List.flatMap_append, ih hscan,
        ← List.append_assoc (done.flatMap _), hbegins]
      simp [Text.removeBlanks, ← List.filter_append]

/-- **The tokens of a text are its characters without the white space.** -/
theorem flatMap_chars_of_ofChars {s : List Char} {tokens : List Token}
    (h : ofChars s = .ok tokens) : tokens.flatMap Token.chars = Text.removeBlanks s :=
  flatMap_chars_of_scan h

end Token

/-! ## Numbers -/

namespace Numeral

/-- A run of characters ends where a text is put together, if the second part does not go on with
it. -/
theorem takeWhile_append_of_head {p : Char → Bool} {rest : List Char}
    (h : ∀ c ∈ rest.head?, p c = false) (s : List Char) :
    (s ++ rest).takeWhile p = s.takeWhile p ∧ (s ++ rest).dropWhile p = s.dropWhile p ++ rest := by
  induction s with
  | nil =>
    cases rest with
    | nil => exact ⟨rfl, rfl⟩
    | cons c rest =>
      have hc := h c (by simp)
      simp [hc]
  | cons c s ih =>
    rw [List.cons_append]
    by_cases hc : p c = true
    · rw [List.takeWhile_cons_of_pos hc, List.takeWhile_cons_of_pos hc, ih.1,
        List.dropWhile_cons_of_pos hc, List.dropWhile_cons_of_pos hc]
      exact ⟨rfl, ih.2⟩
    · rw [List.takeWhile_cons_of_neg hc, List.takeWhile_cons_of_neg hc,
        List.dropWhile_cons_of_neg hc, List.dropWhile_cons_of_neg hc]
      exact ⟨rfl, rfl⟩

/-- What follows a numeral and does not go on with it is left over. -/
theorem readUnsigned?_append {s left rest : List Char} {u : Unsigned}
    (h : readUnsigned? s = some (u, left))
    (hrest : ∀ c ∈ rest.head?, Text.isDigit c = false ∧ c ≠ '.') :
    readUnsigned? (s ++ rest) = some (u, left ++ rest) := by
  have hdigit : ∀ c ∈ rest.head?, Text.isDigit c = false := fun c hc => (hrest c hc).1
  obtain ⟨htake, hdrop⟩ := takeWhile_append_of_head hdigit s
  simp only [readUnsigned?] at h ⊢
  rw [htake, hdrop]
  cases hafter : s.dropWhile Text.isDigit with
  | nil =>
    rw [hafter] at h
    cases hwhole : s.takeWhile Text.isDigit with
    | nil =>
      rw [hwhole] at h
      cases h
    | cons c whole =>
      rw [hwhole] at h
      cases h
      cases rest with
      | nil => rfl
      | cons d rest =>
        have hpoint : d ≠ '.' := (hrest d (by simp)).2
        simp [hpoint]
  | cons d after =>
    rw [hafter] at h
    obtain ⟨htake', hdrop'⟩ := takeWhile_append_of_head hdigit after
    by_cases hpoint : d = '.'
    · subst hpoint
      cases hwhole : s.takeWhile Text.isDigit with
      | nil =>
        rw [hwhole] at h
        simp only [List.cons_append, htake', hdrop'] at h ⊢
        split at h
        · cases h
        · next hne =>
          cases h
          rw [if_neg hne]
      | cons c whole =>
        rw [hwhole] at h
        cases h
        simp only [List.cons_append, htake', hdrop']
    · cases hwhole : s.takeWhile Text.isDigit with
      | nil =>
        rw [hwhole] at h
        simp [hpoint] at h
      | cons c whole =>
        rw [hwhole] at h
        simp [hpoint] at h ⊢
        obtain ⟨rfl, rfl⟩ := h
        exact ⟨rfl, rfl⟩

/-- The texts of numbers among tokens: from the first digit on there are digits and points. -/
inductive Scanned : List Char → Prop where
  | whole {c : Char} {s : List Char} (hc : Text.isDigit c = true)
      (hs : ∀ d ∈ s, Text.isDigit d = true ∨ d = '.') : Scanned (c :: s)
  | fraction {c : Char} {s : List Char} (hc : Text.isDigit c = true)
      (hs : ∀ d ∈ s, Text.isDigit d = true ∨ d = '.') : Scanned ('.' :: c :: s)

namespace Scanned

variable {s : List Char}

theorem mem (h : Scanned s) : ∀ d ∈ s, Text.isDigit d = true ∨ d = '.' := by
  intro d hd
  cases h with
  | whole hc hs =>
    rcases List.mem_cons.mp hd with rfl | hd
    · exact .inl hc
    · exact hs d hd
  | fraction hc hs =>
    rcases List.mem_cons.mp hd with rfl | hd
    · exact .inr rfl
    · rcases List.mem_cons.mp hd with rfl | hd
      · exact .inl hc
      · exact hs d hd

theorem concat (h : Scanned s) {d : Char} (hd : Text.isDigit d = true ∨ d = '.') :
    Scanned (s ++ [d]) := by
  have hmore {t : List Char} (ht : ∀ e ∈ t, Text.isDigit e = true ∨ e = '.') :
      ∀ e ∈ t ++ [d], Text.isDigit e = true ∨ e = '.' := by
    intro e he
    rcases List.mem_append.mp he with he | he
    · exact ht e he
    · obtain rfl := List.mem_singleton.mp he
      exact hd
  cases h with
  | whole hc hs => exact .whole hc (hmore hs)
  | fraction hc hs => exact .fraction hc (hmore hs)

/-- A number among tokens has digits to read. -/
theorem exists_readUnsigned? (h : Scanned s) : ∃ u rest, readUnsigned? s = some (u, rest) ∧
    ∀ c ∈ rest, Text.isDigit c = true ∨ c = '.' := by
  have hdrop (t : List Char) : ∀ c ∈ t.dropWhile Text.isDigit, c ∈ t :=
    fun c hc => (List.dropWhile_sublist _).mem hc
  cases h with
  | @whole c s hc hs =>
    have htake : (c :: s).takeWhile Text.isDigit = c :: s.takeWhile Text.isDigit := by simp [hc]
    have hrest : (c :: s).dropWhile Text.isDigit = s.dropWhile Text.isDigit := by simp [hc]
    simp only [readUnsigned?, htake, hrest]
    cases hpoint : s.dropWhile Text.isDigit with
    | nil => exact ⟨_, _, rfl, by simp⟩
    | cons d r =>
      have hmem : ∀ e ∈ d :: r, Text.isDigit e = true ∨ e = '.' := by
        intro e he
        rw [← hpoint] at he
        exact hs e (hdrop s e he)
      by_cases hd : d = '.'
      · subst hd
        exact ⟨_, _, rfl, fun e he => hmem e (List.mem_cons_of_mem _ (hdrop r e he))⟩
      · refine ⟨⟨c :: s.takeWhile Text.isDigit, []⟩, d :: r, ?_, hmem⟩
        split
        · next hnil _ => cases hnil
        · next hnil _ => cases hnil
        · next heq _ => exact absurd (List.cons.inj heq).1 hd
        · rfl
  | @fraction c s hc hs =>
    have htake : ('.' :: c :: s).takeWhile Text.isDigit = [] := rfl
    have hrest : ('.' :: c :: s).dropWhile Text.isDigit = '.' :: c :: s := rfl
    have hnonempty : ((c :: s).takeWhile Text.isDigit).isEmpty = false := by simp [hc]
    simp only [readUnsigned?, htake, hrest, hnonempty]
    refine ⟨_, _, rfl, fun e he => ?_⟩
    rcases List.mem_cons.mp (hdrop _ e he) with rfl | he
    · exact .inl hc
    · exact hs e he

theorem start (h : Scanned s) : ∃ c t, s = c :: t ∧ (Text.isDigit c = true ∨ c = '.') := by
  cases h with
  | whole hc hs => exact ⟨_, _, rfl, .inl hc⟩
  | fraction hc hs => exact ⟨_, _, rfl, .inr rfl⟩

/-- No operator and no `x` stands in a number among tokens. -/
theorem notMem (h : Scanned s) {c : Char} (hc : c ∈ ['+', '-', '*', '^', 'x']) : c ∉ s := by
  have hall : (['+', '-', '*', '^', 'x'].all fun d => !Text.isDigit d && d != '.') = true := by
    decide
  have hnot : Text.isDigit c = false ∧ c ≠ '.' := by
    simpa using List.all_eq_true.mp hall c hc
  intro hmem
  rcases h.mem c hmem with hdigit | hpoint
  · rw [hnot.1] at hdigit
    cases hdigit
  · exact hnot.2 hpoint

theorem noSign (h : Scanned s) : NoSign s := by
  intro d hd
  have hmem : d ∈ s := List.mem_of_mem_head? hd
  constructor
  · rintro rfl
    exact h.notMem (by simp) hmem
  · rintro rfl
    exact h.notMem (by simp) hmem

/-- A number among tokens is read as far as it makes sense, whatever follows it. -/
theorem readSigned?_append (h : Scanned s) {rest : List Char} (hrest : Ends rest) :
    ∃ left, readSigned? (s ++ rest) = some (unsignedValue s, left) := by
  obtain ⟨u, left, hread, hleft⟩ := h.exists_readUnsigned?
  -- The text may have points left over, but no letter of an exponent.
  have hexponent : readExponent? (left ++ rest) = none := by
    cases left with
    | nil => exact readExponent?_of_ends hrest
    | cons c left =>
      rw [List.cons_append, readExponent?, if_neg]
      have hc := hleft c (by simp)
      rintro (rfl | rfl)
      · exact absurd hc (by decide)
      · exact absurd hc (by decide)
  have hsign : NoSign (s ++ rest) := by
    obtain ⟨c, t, rfl, -⟩ := h.start
    exact h.noSign
  have hwhole := readUnsigned?_append hread fun c hc => ⟨(hrest c hc).1, (hrest c hc).2.1⟩
  refine ⟨left ++ rest, ?_⟩
  rw [readSigned?_of_readUnsigned? hsign hwhole hexponent, unsignedValue, hread]

theorem trimStart_append (h : Scanned s) (rest : List Char) :
    Text.trimStart (s ++ rest) = s ++ rest := by
  obtain ⟨c, t, rfl, hc⟩ := h.start
  have hblank : Text.isBlank c = false := Text.isBlank_eq_false (hc.imp_right .inr)
  rw [Text.trimStart, List.cons_append, List.dropWhile_cons_of_neg (by simp [hblank])]

/-- The lenient reading of a number among tokens, after a minus if there is one. -/
theorem prefixValue_signed (h : Scanned s) (minus : Bool) {rest : List Char} (hrest : Ends rest) :
    prefixValue ((if minus then ['-'] else []) ++ s ++ rest) =
      if minus then -unsignedValue s else unsignedValue s := by
  obtain ⟨left, hread⟩ := h.readSigned?_append hrest
  cases minus with
  | false =>
    show prefixValue (s ++ rest) = unsignedValue s
    rw [prefixValue, h.trimStart_append, hread]
  | true =>
    show prefixValue ('-' :: (s ++ rest)) = -unsignedValue s
    have htrim : Text.trimStart ('-' :: (s ++ rest)) = '-' :: (s ++ rest) := rfl
    have hsign : NoSign (s ++ rest) := by
      obtain ⟨c, t, rfl, -⟩ := h.start
      exact h.noSign
    rw [prefixValue, htrim, readSigned?_minus hsign, hread]
    rfl

end Scanned

end Numeral

namespace Token

open Numeral (Scanned)

/-- A number that is being read has the text of one, or it is a point before a digit. -/
def Partial.Numeric (after : List Char) : Partial → Prop
  | .none | .name _ => True
  | .whole reversed => Scanned reversed.reverse
  | .fraction reversed =>
    Scanned reversed.reverse ∨ reversed = ['.'] ∧ startsWithDigit after = true

theorem Partial.Numeric.extend? {word longer : Partial} {c : Char} {s : List Char}
    (h : word.Numeric (c :: s)) (hextend : word.extend? c = some longer) : longer.Numeric s := by
  cases word with
  | none => cases hextend
  | whole reversed =>
    rw [Partial.extend?] at hextend
    split at hextend
    · next hdigit =>
      cases hextend
      rw [Numeric, List.reverse_cons]
      exact Scanned.concat h (.inl hdigit)
    · split at hextend
      · next hpoint =>
        cases hextend
        rw [Numeric, List.reverse_cons]
        exact .inl (Scanned.concat h (.inr hpoint))
      · cases hextend
  | fraction reversed =>
    rw [Partial.extend?] at hextend
    split at hextend
    · next hdigit =>
      cases hextend
      rw [Numeric, List.reverse_cons]
      rcases h with h | ⟨rfl, -⟩
      · exact .inl (h.concat (.inl hdigit))
      · exact .inl (.fraction hdigit (by simp))
    · cases hextend
  | name reversed =>
    rw [Partial.extend?] at hextend
    split at hextend
    · cases hextend
      trivial
    · cases hextend

theorem Begins.numeric {c : Char} {after : List Char} {done : List Token} {next : Partial}
    (h : Begins c after done next) : next.Numeric after ∧ ∀ t, .number t ∉ done := by
  cases h with
  | blank h => exact ⟨trivial, by simp⟩
  | digit hblank h => exact ⟨.whole h (by simp), by simp⟩
  | point hblank h hdigit =>
    subst h
    exact ⟨.inr ⟨rfl, hdigit⟩, by simp⟩
  | letter hblank h => exact ⟨trivial, by simp⟩
  | symbol hblank h =>
    refine ⟨trivial, fun t ht => ?_⟩
    obtain rfl := List.mem_singleton.mp ht
    unfold ofSymbol? at h
    split at h
    · cases h
    · cases h
    · cases h
    · obtain ⟨op, -, heq⟩ := Option.map_eq_some_iff.mp h
      cases heq

theorem Partial.Numeric.close {word : Partial} {s : List Char} {rest : List Token}
    (h : word.Numeric s) (hend : ∀ c ∈ s.head?, word.extend? c = Option.none)
    (hrest : ∀ t, .number t ∈ rest → Scanned t) : ∀ t, .number t ∈ word.close rest → Scanned t := by
  intro t ht
  cases word with
  | none => exact hrest t ht
  | whole reversed =>
    rcases List.mem_cons.mp ht with heq | ht
    · cases heq
      exact h
    · exact hrest t ht
  | fraction reversed =>
    rcases List.mem_cons.mp ht with heq | ht
    · cases heq
      rcases h with h | ⟨rfl, hdigit⟩
      · exact h
      · -- A lone point cannot have ended before the digit that follows it.
        cases s with
        | nil => cases hdigit
        | cons c s =>
          have hnone := hend c (by simp)
          rw [Partial.extend?, if_pos (show Text.isDigit c = true from hdigit)] at hnone
          cases hnone
    · exact hrest t ht
  | name reversed =>
    rcases List.mem_cons.mp ht with heq | ht
    · cases heq
    · exact hrest t ht

theorem scanned_of_scan {word : Partial} {s : List Char} {tokens : List Token}
    (hword : word.Numeric s) (h : scan word s = .ok tokens) :
    ∀ t, .number t ∈ tokens → Scanned t := by
  induction s generalizing word tokens with
  | nil =>
    cases h
    exact hword.close (by simp) (by simp)
  | cons c s ih =>
    rcases scan_cons h with ⟨longer, hextend, hscan⟩ |
      ⟨hextend, done, next, rest, hbegin, hscan, rfl⟩
    · exact ih (hword.extend? hextend) hscan
    · obtain ⟨hnext, hdone⟩ := (begins_of_begin? hbegin).numeric
      refine hword.close (by simpa using hextend) fun t ht => ?_
      rcases List.mem_append.mp ht with ht | ht
      · exact absurd ht (hdone t)
      · exact ih hnext hscan t ht

/-- **The numbers among the tokens of a text can be read.** -/
theorem scanned_of_ofChars {s : List Char} {tokens : List Token} (h : ofChars s = .ok tokens) :
    ∀ t, .number t ∈ tokens → Scanned t :=
  scanned_of_scan (show Partial.none.Numeric s from trivial) h

end Token

end Stepwise
