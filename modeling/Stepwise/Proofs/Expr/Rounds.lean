/-
# Scanning in rounds

A text is scanned in rounds.  Each takes a blank or a token off its start, a number or a name as
long as possible, and leaves less of the text than there was; so there are at most as many rounds as
characters.  The tokens have all characters of the text but the white space, and their texts with
single blanks between them are split into the same tokens again.

* `Token.round`, `Token.rounds` : one round, and rounds until the text is used up;
* `Token.ofChars_cons` : scanning is a round and the scanning of the rest;
* `Token.Solid` : the tokens that are words of their own, as all are that scanning yields;
* `Token.ofChars_respaced` : what is kept, and how long it takes, for all texts.
-/
import Mathlib.Data.List.TakeWhile
import Stepwise.Proofs.Expr.Scan

namespace Stepwise

namespace Token

/-! ## Rounds -/

/-- The number that a text starts with, as long as possible, and the rest. -/
def numberText? (s : List Char) : Option (List Char × List Char) :=
  match s.takeWhile Text.isDigit, s.dropWhile Text.isDigit with
  | [], '.' :: after =>
    if startsWithDigit after then
      some ('.' :: after.takeWhile Text.isDigit, after.dropWhile Text.isDigit)
    else none
  | [], _ => none
  | whole, '.' :: after =>
    some (whole ++ '.' :: after.takeWhile Text.isDigit, after.dropWhile Text.isDigit)
  | whole, after => some (whole, after)

/-- One round at a character and the text after it: the token taken off, or none for a blank, and
the rest. -/
def round (c : Char) (s : List Char) : Except Failure (List Token × List Char) :=
  if Text.isBlank c then .ok ([], s)
  else
    match numberText? (c :: s) with
    | some (text, rest) => .ok ([.number text], rest)
    | none =>
      if Text.isLetter c then
        .ok ([.name (c :: s.takeWhile Text.isLetter)], s.dropWhile Text.isLetter)
      else
        match ofSymbol? c with
        | some token => .ok ([token], s)
        | none => .error .invalidExpression

/-- The outcome of a text that is used up, or refused, within a number of rounds. -/
def rounds : ℕ → List Char → Option (Except Failure (List Token))
  | _, [] => some (.ok [])
  | 0, _ :: _ => none
  | n + 1, c :: s =>
    match round c s with
    | .ok (done, rest) => (rounds n rest).map fun outcome => outcome.map (done ++ ·)
    | .error f => some (.error f)

/-! ## Longest words -/

/-- What is left after a longest run does not go on with it. -/
theorem eq_false_of_mem_head?_dropWhile {p : Char → Bool} {s : List Char} :
    ∀ d ∈ (s.dropWhile p).head?, p d = false := by
  intro d hd
  have hnot := List.head?_dropWhile_not p s
  rw [Option.mem_def.mp hd] at hnot
  exact hnot

/-- A number that starts with a digit is taken off as long as possible. -/
theorem munched_of_digit {c : Char} {s text rest : List Char} (hc : Text.isDigit c = true)
    (h : numberText? (c :: s) = some (text, rest)) : c :: s = text ++ rest ∧ Munched text rest := by
  have hdigits : ∀ d ∈ c :: s.takeWhile Text.isDigit, Text.isDigit d = true := by
    intro d hd
    rcases List.mem_cons.mp hd with rfl | hd
    · exact hc
    · exact List.mem_takeWhile_imp hd
  have hsplit : s.takeWhile Text.isDigit ++ s.dropWhile Text.isDigit = s :=
    List.takeWhile_append_dropWhile
  have hend := eq_false_of_mem_head?_dropWhile (p := Text.isDigit) (s := s)
  rw [numberText?, List.takeWhile_cons_of_pos hc, List.dropWhile_cons_of_pos hc] at h
  cases hafter : s.dropWhile Text.isDigit with
  | nil =>
    rw [hafter] at h hsplit
    cases h
    exact ⟨by rw [List.cons_append, hsplit], .whole hdigits (by simp)⟩
  | cons d after =>
    rw [hafter] at h hsplit hend
    by_cases hpoint : d = '.'
    · subst hpoint
      cases h
      refine ⟨?_, .point hdigits (fun d hd => List.mem_takeWhile_imp hd)
        eq_false_of_mem_head?_dropWhile⟩
      rw [List.append_assoc, List.cons_append, List.cons_append, List.takeWhile_append_dropWhile,
        hsplit]
    · have hnumber : some (c :: s.takeWhile Text.isDigit, d :: after) = some (text, rest) := by
        simpa [hpoint] using h
      cases hnumber
      refine ⟨by rw [List.cons_append, hsplit], .whole hdigits fun e he => ⟨hend e he, ?_⟩⟩
      obtain rfl : d = e := by simpa using he
      exact hpoint

/-- A number taken off a text is as long as possible. -/
theorem munched_of_numberText? {s text rest : List Char} (h : numberText? s = some (text, rest)) :
    s = text ++ rest ∧ Munched text rest := by
  cases s with
  | nil => cases h
  | cons c s =>
    by_cases hc : Text.isDigit c = true
    · exact munched_of_digit hc h
    · rw [numberText?, List.takeWhile_cons_of_neg hc, List.dropWhile_cons_of_neg hc] at h
      by_cases hpoint : c = '.'
      · subst hpoint
        simp only [] at h
        split at h
        · next hstart =>
          cases h
          obtain ⟨d, s, rfl⟩ : ∃ d t, s = d :: t := by
            cases s with
            | nil => cases hstart
            | cons d t => exact ⟨d, t, rfl⟩
          have hall : ∀ e ∈ (d :: s).takeWhile Text.isDigit, Text.isDigit e = true :=
            fun e he => List.mem_takeWhile_imp he
          have hd : Text.isDigit d = true := hstart
          refine ⟨by rw [List.cons_append, List.takeWhile_append_dropWhile], ?_⟩
          rw [List.takeWhile_cons_of_pos hd] at hall ⊢
          exact .fraction hall eq_false_of_mem_head?_dropWhile
        · cases h
      · simp [hpoint] at h

/-- Where no number starts, there is neither a digit nor a point before one. -/
theorem not_digit_of_numberText? {c : Char} {s : List Char} (h : numberText? (c :: s) = none) :
    Text.isDigit c = false ∧ (c = '.' && startsWithDigit s) = false := by
  by_cases hc : Text.isDigit c = true
  · rw [numberText?, List.takeWhile_cons_of_pos hc] at h
    split at h <;> simp_all
  · refine ⟨by simpa using hc, ?_⟩
    rw [numberText?, List.takeWhile_cons_of_neg hc, List.dropWhile_cons_of_neg hc] at h
    by_cases hpoint : c = '.'
    · subst hpoint
      simpa using h
    · simp [hpoint]

/-! ## Solid tokens -/

/-- What may follow a number that is read alone may follow it anywhere. -/
theorem Munched.follow {text rest after : List Char} (h : Munched text rest)
    (hafter : ∀ d ∈ after.head?, Text.isDigit d = false ∧ d ≠ '.') : Munched text after := by
  cases h with
  | whole hdigits _ => exact .whole hdigits hafter
  | point hdigits hfraction _ => exact .point hdigits hfraction fun d hd => (hafter d hd).1
  | fraction hdigits _ => exact .fraction hdigits fun d hd => (hafter d hd).1

/-- Nothing but digits and a point stands in a number. -/
theorem Munched.isDigit_or_point {text rest : List Char} (h : Munched text rest) :
    ∀ c ∈ text, Text.isDigit c = true ∨ c = '.' := by
  intro d hd
  cases h with
  | whole hdigits _ => exact .inl (hdigits d hd)
  | point hdigits hfraction _ =>
    rcases List.mem_append.mp hd with hd | hd
    · exact .inl (hdigits d hd)
    · exact (List.mem_cons.mp hd).symm.imp_left (hfraction d)
  | fraction hdigits _ => exact (List.mem_cons.mp hd).symm.imp_left (hdigits d)

/-- The tokens whose texts are words: a number as long as possible, a name of letters, or a
symbol. -/
inductive Solid : Token → Prop where
  | number {text : List Char} (h : Munched text []) : Solid (.number text)
  | name {c : Char} {s : List Char} (hdigit : Text.isDigit c = false)
      (h : ∀ d ∈ c :: s, Text.isLetter d = true) : Solid (.name (c :: s))
  | operator (op : Operator) : Solid (.operator op)
  | opening : Solid .opening
  | closing : Solid .closing
  | percent : Solid .percent

theorem solid_of_ofSymbol? {c : Char} {token : Token} (h : ofSymbol? c = some token) :
    Solid token := by
  unfold ofSymbol? at h
  split at h
  · cases h
    exact .opening
  · cases h
    exact .closing
  · cases h
    exact .percent
  · obtain ⟨op, -, rfl⟩ := Option.map_eq_some_iff.mp h
    exact .operator op

namespace Solid

variable {t : Token}

theorem chars_ne_nil (h : Solid t) : t.chars ≠ [] := by
  cases h with
  | number h => cases h <;> simp [chars]
  | name _ _ => simp [chars]
  | operator op => simp [chars]
  | opening | closing | percent => simp [chars]

/-- **A solid token is read from its text wherever a break follows.** -/
theorem spells (h : Solid t) : Spells t.chars [t] := by
  cases h with
  | number h =>
    intro rest hrest
    exact scan_munched (h.follow fun d hd => ⟨(hrest d hd).1, (hrest d hd).2.1⟩)
  | name hdigit h => exact .letters hdigit (List.all_eq_true.mpr h)
  | operator op => exact .operator op .nil
  | opening => exact .opening .nil
  | closing => exact .closing .nil
  | percent => exact .percent .nil

end Solid

/-! ## Scanning is rounds -/

/-- What one round takes off: a blank, or the text of a solid token that the scanning yields. -/
theorem of_round {c : Char} {s rest : List Char} {done : List Token}
    (h : round c s = .ok (done, rest)) :
    (Text.isBlank c = true ∧ done = [] ∧ rest = s) ∨
      ∃ t, Solid t ∧ done = [t] ∧ c :: s = t.chars ++ rest ∧
        scan .none (c :: s) = (scan .none rest).map (t :: ·) := by
  unfold round at h
  split at h
  · next hblank =>
    cases h
    exact .inl ⟨hblank, rfl, rfl⟩
  · next hblank =>
    rw [Bool.not_eq_true] at hblank
    refine .inr ?_
    split at h
    · next text rest hnumber =>
      cases h
      obtain ⟨hsplit, hmunched⟩ := munched_of_numberText? hnumber
      refine ⟨.number text, .number (hmunched.follow (by simp)), rfl, hsplit, ?_⟩
      rw [hsplit, scan_munched hmunched]
    · next hnumber =>
      obtain ⟨hdigit, hpoint⟩ := not_digit_of_numberText? hnumber
      split at h
      · next hletter =>
        cases h
        have hall : ∀ d ∈ c :: s.takeWhile Text.isLetter, Text.isLetter d = true := by
          intro d hd
          rcases List.mem_cons.mp hd with rfl | hd
          · exact hletter
          · exact List.mem_takeWhile_imp hd
        have hsplit : c :: s = c :: s.takeWhile Text.isLetter ++ s.dropWhile Text.isLetter := by
          rw [List.cons_append, List.takeWhile_append_dropWhile]
        refine ⟨.name (c :: s.takeWhile Text.isLetter), .name hdigit hall, rfl, hsplit, ?_⟩
        rw [← scan_letters hdigit hall eq_false_of_mem_head?_dropWhile, ← hsplit]
      · next hletter =>
        split at h
        · next token htoken =>
          cases h
          have hbegin : begin? c s = some ([token], .none) := by
            simp [begin?, hblank, hdigit, hpoint, hletter, htoken]
          have hnone : Partial.none.extend? c = none := rfl
          refine ⟨token, solid_of_ofSymbol? htoken, rfl, by rw [chars_of_ofSymbol? htoken]; rfl, ?_⟩
          rw [scan]
          simp only [hnone, hbegin]
          cases scan .none s <;> rfl
        · cases h

/-- A text whose first round is refused is refused. -/
theorem scan_of_round_error {c : Char} {s : List Char} {f : Failure} (h : round c s = .error f) :
    scan .none (c :: s) = .error f := by
  unfold round at h
  split at h
  · cases h
  · next hblank =>
    split at h
    · cases h
    · next hnumber =>
      obtain ⟨hdigit, hpoint⟩ := not_digit_of_numberText? hnumber
      split at h
      · cases h
      · next hletter =>
        split at h
        · cases h
        · next hsymbol =>
          cases h
          have hbegin : begin? c s = none := by
            simp [begin?, hblank, hdigit, hpoint, hletter, hsymbol]
          have hnone : Partial.none.extend? c = none := rfl
          rw [scan]
          simp only [hnone, hbegin]

/-- **Scanning is one round and the scanning of the rest.** -/
theorem ofChars_cons (c : Char) (s : List Char) :
    ofChars (c :: s) = (do
      let (done, rest) ← round c s
      let more ← ofChars rest
      pure (done ++ more)) := by
  rw [ofChars]
  cases hround : round c s with
  | error f => exact scan_of_round_error hround
  | ok taken =>
    obtain ⟨done, rest⟩ := taken
    show _ = ofChars rest >>= fun more => pure (done ++ more)
    rcases of_round hround with ⟨hblank, rfl, rfl⟩ | ⟨t, -, rfl, -, hscan⟩
    · have hbegin : begin? c rest = some ([], .none) := by simp [begin?, hblank]
      rw [scan_begin hbegin, ofChars]
      cases scan .none rest <;> rfl
    · rw [hscan, ofChars]
      cases scan .none rest <;> rfl

/-- **A round leaves less of the text.** -/
theorem length_lt_of_round {c : Char} {s rest : List Char} {done : List Token}
    (h : round c s = .ok (done, rest)) : rest.length < (c :: s).length := by
  rcases of_round h with ⟨-, -, rfl⟩ | ⟨t, hsolid, -, hsplit, -⟩
  · exact Nat.lt_succ_self _
  · have hlength := congrArg List.length hsplit
    have hpos := List.length_pos_iff.mpr hsolid.chars_ne_nil
    rw [List.length_append] at hlength
    omega

/-- A text is done with in as many rounds as it has characters, and then it has been scanned. -/
theorem rounds_eq {n : ℕ} {s : List Char} (h : s.length ≤ n) : rounds n s = some (ofChars s) := by
  induction n generalizing s with
  | zero =>
    obtain rfl := List.length_eq_zero_iff.mp (Nat.le_zero.mp h)
    rfl
  | succ n ih =>
    cases s with
    | nil => rfl
    | cons c s =>
      rw [rounds, ofChars_cons]
      cases hround : round c s with
      | error f => rfl
      | ok taken =>
        obtain ⟨done, rest⟩ := taken
        have hrest : rounds n rest = some (ofChars rest) := by
          have hlt := length_lt_of_round hround
          exact ih (by omega)
        show (rounds n rest).map _ = some (ofChars rest >>= fun more => pure (done ++ more))
        rw [hrest]
        cases ofChars rest <;> rfl

/-- **All tokens of a text are solid.** -/
theorem solid_of_ofChars {s : List Char} {tokens : List Token} (h : ofChars s = .ok tokens) :
    ∀ t ∈ tokens, Solid t := by
  induction hn : s.length using Nat.strong_induction_on generalizing s tokens with
  | _ n ih =>
    subst hn
    cases s with
    | nil =>
      cases h
      intro t ht
      cases ht
    | cons c s =>
      rw [ofChars_cons] at h
      obtain ⟨⟨done, rest⟩, hround, h⟩ := bind_eq_ok.mp h
      obtain ⟨more, hmore, htokens⟩ := bind_eq_ok.mp h
      cases htokens
      intro t ht
      rcases List.mem_append.mp ht with ht | ht
      · rcases of_round hround with ⟨-, rfl, -⟩ | ⟨u, hsolid, rfl, -⟩
        · cases ht
        · obtain rfl := List.mem_singleton.mp ht
          exact hsolid
      · exact ih _ (length_lt_of_round hround) hmore rfl t ht

/-! ## Blanks between tokens -/

/-- The texts of tokens with single blanks between them. -/
def spaced (tokens : List Token) : List Char := [' '].intercalate (tokens.map chars)

/-- Solid tokens are read from their texts with blanks between them. -/
theorem spells_spaced {tokens : List Token} (h : ∀ t ∈ tokens, Solid t) :
    Spells (spaced tokens) tokens := by
  induction tokens with
  | nil => exact .nil
  | cons t tokens ih =>
    have ht : Spells t.chars [t] := (h t (by simp)).spells
    cases tokens with
    | nil => simpa [spaced] using ht
    | cons u tokens =>
      have hrest := ih fun v hv => h v (List.mem_cons_of_mem _ hv)
      have hspaced : spaced (t :: u :: tokens) = t.chars ++ ' ' :: spaced (u :: tokens) := by
        simp [spaced, List.intercalate]
      rw [hspaced]
      exact ht.append hrest.blank fun after _ => breaks_cons (by simp) _

/-- **Tokens lose nothing and stay the same.**  The tokens of a text have all its characters but the
white space, none of them is empty, and their texts with single blanks between them have the same
tokens.  Every round of the scanning leaves less of the text, so that it ends on every text, within
as many rounds as there are characters. -/
theorem ofChars_respaced (s : List Char) :
    (∀ tokens, ofChars s = .ok tokens →
      tokens.flatMap chars = Text.removeBlanks s ∧ (∀ t ∈ tokens, t.chars ≠ []) ∧
        ofChars (spaced tokens) = .ok tokens) ∧
    (∀ c after done rest, s = c :: after → round c after = .ok (done, rest) →
      rest.length < s.length) ∧
    rounds s.length s = some (ofChars s) := by
  refine ⟨fun tokens h => ⟨flatMap_chars_of_ofChars h, fun t ht => ?_, ?_⟩, ?_, rounds_eq le_rfl⟩
  · exact (solid_of_ofChars h t ht).chars_ne_nil
  · exact (spells_spaced (solid_of_ofChars h)).ofChars
  · rintro c after done rest rfl hround
    exact length_lt_of_round hround

/-- Two numbers that touch, a name at a digit of another script, and a number that ends in a
point. -/
theorem ofChars_respaced_adjacent :
    let tokens := [.number "1.2".toList, .number ".3".toList, .name "pi".toList,
      .number "٤".toList, .opening, .number "5.".toList]
    ofChars "1.2.3pi٤ (5.".toList = .ok tokens ∧
      tokens.flatMap chars = Text.removeBlanks "1.2.3pi٤ (5.".toList ∧
      ofChars "1.2 .3 pi ٤ ( 5.".toList = .ok tokens ∧
      round '1' ".2.3".toList = .ok ([.number "1.2".toList], ".3".toList) ∧
      ".3".toList.length < "1.2.3".toList.length := by
  intro tokens
  have hread : ofChars "1.2.3pi٤ (5.".toList = .ok tokens := eq_ok_of_toOption (by decide +kernel)
  have hround : round '1' ".2.3".toList = .ok ([.number "1.2".toList], ".3".toList) :=
    eq_ok_of_toOption (by decide +kernel)
  obtain ⟨hchars, -, hspaced⟩ := (ofChars_respaced _).1 tokens hread
  exact ⟨hread, hchars, hspaced, hround, (ofChars_respaced "1.2.3".toList).2.1 _ _ _ _ rfl hround⟩

end Token

end Stepwise
