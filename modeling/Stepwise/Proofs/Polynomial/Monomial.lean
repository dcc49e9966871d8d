/-
# Written polynomials

A polynomial is written as a signed sum of numbers and powers of `x`.  A power of `x` may have a
number in front of it, with a multiplication sign or without, and an exponent, which is a number
as well.

* `Polynomial.Monomial` : what stands after the signs of a term;
* `Polynomial.Monomial.term`, `Signed.term` : the coefficient and the power of a term;
* `Polynomial.readTerm?_text` : the term that is read from its text;
* `Polynomial.readTerms_eq` : the terms that are read from a sum.
-/
import Stepwise.Proofs.Double.Defined
import Stepwise.Proofs.Polynomial.Signed

namespace Stepwise

namespace Polynomial

/-! ## Monomials -/

/-- A number in front of `x`, with a multiplication sign after it or without. -/
structure Multiplier where
  numeral : List Char
  starred : Bool

/-- The tokens of a number in front of `x`. -/
def Multiplier.tokens (m : Multiplier) : List Token :=
  .number m.numeral :: if m.starred then [.operator .mul] else []

/-- The tokens of an exponent; none if it is left out. -/
def exponentTokens : Option (List Char) → List Token
  | none => []
  | some numeral => [.operator .pow, .number numeral]

/-- A number, or a power of `x`. -/
inductive Monomial where
  | constant (numeral : List Char)
  | power (multiplier : Option Multiplier) (exponent : Option (List Char))

namespace Monomial

/-- The tokens of a monomial. -/
def tokens : Monomial → List Token
  | constant numeral => [.number numeral]
  | power multiplier exponent =>
    multiplier.elim [] Multiplier.tokens ++ .name ['x'] :: exponentTokens exponent

/-- The coefficient and the power of a monomial; what is left out is one. -/
def term : Monomial → Term
  | constant numeral => ⟨Numeral.unsignedValue numeral, 0⟩
  | power multiplier exponent =>
    ⟨multiplier.elim 1 fun m => Numeral.unsignedValue m.numeral,
      exponent.elim 1 Numeral.unsignedValue⟩

/-- A token of a monomial is a numeral, `x`, a multiplication sign or a power sign. -/
theorem mem_tokens {m : Monomial} {token : Token} (h : token ∈ m.tokens) :
    (∃ n, token = .number n) ∨ token ∈ [.name ['x'], .operator .mul, .operator .pow] := by
  cases m with
  | constant numeral => exact .inl ⟨numeral, List.mem_singleton.mp h⟩
  | power multiplier exponent =>
    rcases List.mem_append.mp h with hfront | hback
    · cases multiplier with
      | none => cases hfront
      | some m =>
        rcases List.mem_cons.mp hfront with rfl | hstar
        · exact .inl ⟨_, rfl⟩
        · split at hstar
          · simp_all
          · cases hstar
    · rcases List.mem_cons.mp hback with rfl | hexponent
      · simp
      · cases exponent with
        | none => cases hexponent
        | some numeral =>
          rcases List.mem_pair.mp hexponent with rfl | rfl
          · simp
          · exact .inl ⟨_, rfl⟩

/-- No sign stands in a monomial that can be read. -/
theorem solid {m : Monomial} (h : Readable m.tokens) : Solid m.tokens := by
  refine Solid.of_tokens ?_ fun token htoken => ?_
  · cases m with
    | constant numeral => simp [tokens]
    | power multiplier exponent => simp [tokens]
  · rcases mem_tokens htoken with ⟨n, rfl⟩ | hother
    · exact .inl ⟨n, rfl, h n htoken⟩
    · exact .inr hother

/-- The only name in a monomial is `x`. -/
theorem eq_of_name_mem {m : Monomial} {n : List Char} (h : .name n ∈ m.tokens) : n = ['x'] := by
  rcases mem_tokens h with ⟨k, hk⟩ | hother
  · cases hk
  · simpa using hother

end Monomial

end Polynomial

/-! ## Terms -/

/-- The coefficient, with its sign, and the power of a term. -/
def Signed.term (t : Signed Polynomial.Monomial) : Term :=
  ⟨if t.minus then -t.body.term.coefficient else t.body.term.coefficient, t.body.term.power⟩

namespace Polynomial

variable {t : Signed Monomial}

/-- The sign in front of a term. -/
def signChars (minus : Bool) : List Char := if minus then ['-'] else []

theorem text_constant (pluses : Nat) (minus : Bool) (numeral : List Char) :
    (Signed.mk pluses minus (.constant numeral)).text Monomial.tokens =
      signChars minus ++ numeral := by
  simp [Signed.text, Monomial.tokens, Token.chars, signChars]

theorem text_power (pluses : Nat) (minus : Bool) (multiplier : Option Multiplier)
    (exponent : Option (List Char)) :
    (Signed.mk pluses minus (.power multiplier exponent)).text Monomial.tokens =
      signChars minus ++ (multiplier.elim [] Multiplier.tokens).flatMap Token.chars ++
        'x' :: (exponentTokens exponent).flatMap Token.chars := by
  simp [Signed.text, Monomial.tokens, Token.chars, signChars]

/-- Nothing but a minus stands in a sign. -/
theorem eq_of_mem_signChars {minus : Bool} {c : Char} (h : c ∈ signChars minus) : c = '-' := by
  cases minus with
  | false => cases h
  | true => exact List.mem_singleton.mp h

/-- `x` does not stand in a number. -/
theorem notMem_constant {numeral : List Char} (h : Numeral.Scanned numeral) (minus : Bool) :
    'x' ∉ signChars minus ++ numeral := by
  intro hmem
  rcases List.mem_append.mp hmem with hsign | hnumeral
  · exact absurd (eq_of_mem_signChars hsign) (by decide)
  · exact h.notMem (by simp) hnumeral

/-- `x` does not stand in what comes before it. -/
theorem notMem_front {multiplier : Option Multiplier} {exponent : Option (List Char)}
    (h : Readable (Monomial.power multiplier exponent).tokens) (minus : Bool) :
    'x' ∉ signChars minus ++ (multiplier.elim [] Multiplier.tokens).flatMap Token.chars := by
  intro hmem
  rcases List.mem_append.mp hmem with hsign | hfront
  · exact absurd (eq_of_mem_signChars hsign) (by decide)
  · cases multiplier with
    | none => cases hfront
    | some m =>
      obtain ⟨token, htoken, hmem⟩ := List.mem_flatMap.mp hfront
      rcases List.mem_cons.mp htoken with rfl | hstar
      · have hn := h m.numeral (by simp [Monomial.tokens, Multiplier.tokens])
        exact hn.notMem (by simp) hmem
      · split at hstar
        · obtain rfl := List.mem_singleton.mp hstar
          exact absurd hmem (by decide)
        · cases hstar

/-- A constant is read with its sign, and it is a number. -/
theorem prefixValue_constant {numeral : List Char} (h : Numeral.Scanned numeral) (minus : Bool) :
    Numeral.prefixValue (signChars minus ++ numeral) =
        (if minus then -Numeral.unsignedValue numeral else Numeral.unsignedValue numeral) ∧
      (Numeral.prefixValue (signChars minus ++ numeral)).isNaN = false := by
  have hvalue := h.prefixValue_signed minus Numeral.ends_nil
  rw [List.append_nil] at hvalue
  have hdefined := Numeral.isNaN_unsignedValue numeral
  refine ⟨hvalue, ?_⟩
  rw [signChars, hvalue]
  cases minus with
  | false => exact hdefined
  | true =>
    show (-Numeral.unsignedValue numeral).isNaN = false
    rwa [Double.isNaN_neg]

/-- The number in front of `x` with its sign; one if it is left out. -/
theorem factorValue_front {multiplier : Option Multiplier} {exponent : Option (List Char)}
    (h : Readable (Monomial.power multiplier exponent).tokens) (minus : Bool) :
    factorValue (signChars minus ++ (multiplier.elim [] Multiplier.tokens).flatMap Token.chars) =
      if minus then -(Monomial.power multiplier exponent).term.coefficient
      else (Monomial.power multiplier exponent).term.coefficient := by
  cases multiplier with
  | none => cases minus <;> rfl
  | some m =>
    obtain ⟨numeral, starred⟩ := m
    have hn := h numeral (by simp [Monomial.tokens, Multiplier.tokens])
    have hstar : Numeral.Ends (if starred then ['*'] else []) := by
      cases starred with
      | false => exact Numeral.ends_nil
      | true =>
        intro c hc
        obtain rfl : '*' = c := by simpa using hc
        decide
    have hchars : (Multiplier.tokens ⟨numeral, starred⟩).flatMap Token.chars =
        numeral ++ (if starred then ['*'] else []) := by
      cases starred <;> simp [Multiplier.tokens, Token.chars, Operator.symbol]
    show factorValue (_ ++ (Multiplier.tokens ⟨numeral, starred⟩).flatMap Token.chars) = _
    rw [hchars, ← List.append_assoc]
    exact factorValue_signed hn minus hstar

/-- The exponent after `x`; one if it is left out. -/
theorem powerValue_back {multiplier : Option Multiplier} {exponent : Option (List Char)}
    (h : Readable (Monomial.power multiplier exponent).tokens) :
    powerValue ((exponentTokens exponent).flatMap Token.chars) =
      (Monomial.power multiplier exponent).term.power := by
  cases exponent with
  | none => rfl
  | some numeral =>
    have hn := h numeral (by simp [Monomial.tokens, exponentTokens])
    have hvalue := hn.prefixValue_signed false Numeral.ends_nil
    simpa [exponentTokens, Token.chars, Operator.symbol, powerValue, Monomial.term] using hvalue

/-- **The term that is read from its text.** -/
theorem readTerm?_text (h : Readable t.body.tokens) :
    readTerm? (t.text Monomial.tokens) = some t.term := by
  obtain ⟨pluses, minus, m⟩ := t
  cases m with
  | constant numeral =>
    have hn : Numeral.Scanned numeral := h numeral (by simp [Monomial.tokens])
    obtain ⟨hvalue, hnumber⟩ := prefixValue_constant hn minus
    have hletter : (signChars minus ++ numeral).contains 'x' = false := by
      rw [List.contains_eq_mem, decide_eq_false_iff_not]
      exact notMem_constant hn minus
    rw [text_constant, readTerm?, hletter, if_neg Bool.false_ne_true]
    simp only [hnumber, Bool.false_eq_true, if_false]
    rw [hvalue]
    rfl
  | power multiplier exponent =>
    rw [text_power, readTerm?, if_pos (by simp), Text.partitionAt_append (notMem_front h minus)]
    simp only [factorValue_front h minus, powerValue_back h]
    rfl

/-! ## Sums -/

variable {sum : SignedSum Monomial} {s : List Char}

/-- **The terms that are read from a sum.** -/
theorem readTerms_eq (hs : Token.ofChars s = .ok (sum.tokens Monomial.tokens)) :
    readTerms s = sum.terms.map Signed.term := by
  have hreadable := SignedSum.readable hs
  rw [readTerms, SignedSum.termTexts_eq hs fun t ht => Monomial.solid (hreadable t ht),
    List.filterMap_map]
  have hread : ∀ t ∈ sum.terms,
      (readTerm? ∘ Signed.text Monomial.tokens) t = some t.term := fun t ht =>
    readTerm?_text (hreadable t ht)
  rw [List.filterMap_congr hread, List.filterMap_eq_map']

end Polynomial

end Stepwise
