/-
# Coefficients of written polynomials

What is read from a side whose terms go up to the third power.  The reader of coefficients looks for
`x^3`, `x^2` and `x` in the text of a term, so that it knows the powers that are written in this way
and no others.

* `Polynomial.Monomial.degree?` : the power of a term that the reader knows;
* `Polynomial.addTerm_text` : what a term adds to the coefficients;
* `Polynomial.sumAt_eq` : the value of a side by its coefficients.
-/
import Stepwise.Proofs.Equation.Sums
import Stepwise.Proofs.Polynomial.Sample

namespace Stepwise

namespace Polynomial

/-! ## Degrees -/

/-- The power of a term, if the reader of coefficients knows it.  Without a number in front, `x^1`
is not known. -/
def Monomial.degree? : Monomial → Option (Fin 4)
  | constant _ => some 0
  | power multiplier exponent =>
    if exponent = none then some 1
    else if exponent = some ['1'] ∧ multiplier.isSome = true then some 1
    else if exponent = some ['2'] then some 2
    else if exponent = some ['3'] then some 3
    else none

/-- The ways to write a power that is known. -/
theorem Monomial.exponent_of_degree? {multiplier : Option Multiplier}
    {exponent : Option (List Char)} {n : Fin 4}
    (h : (power multiplier exponent).degree? = some n) :
    (exponent = none ∧ n = 1) ∨ (exponent = some ['1'] ∧ multiplier.isSome = true ∧ n = 1) ∨
      (exponent = some ['2'] ∧ n = 2) ∨ (exponent = some ['3'] ∧ n = 3) := by
  simp only [degree?] at h
  split at h
  · next hnone => exact .inl ⟨hnone, (Option.some.inj h).symm⟩
  · split at h
    · next hone => exact .inr (.inl ⟨hone.1, hone.2, (Option.some.inj h).symm⟩)
    · split at h
      · next htwo => exact .inr (.inr (.inl ⟨htwo, (Option.some.inj h).symm⟩))
      · split at h
        · next hthree => exact .inr (.inr (.inr ⟨hthree, (Option.some.inj h).symm⟩))
        · cases h

/-- A power that is known is read as that power. -/
theorem Monomial.represents_power {m : Monomial} {n : Fin 4} (h : m.degree? = some n) :
    m.term.power.Represents (n : ℕ) := by
  have hall : (0 : Double).Represents (0 : ℕ) ∧ (1 : Double).Represents (1 : ℕ) ∧
      (Numeral.unsignedValue ['1']).Represents (1 : ℕ) ∧
      (Numeral.unsignedValue ['2']).Represents (2 : ℕ) ∧
      (Numeral.unsignedValue ['3']).Represents (3 : ℕ) := by decide +kernel
  obtain ⟨hzero, hone, hone', htwo, hthree⟩ := hall
  cases m with
  | constant numeral =>
    obtain rfl : 0 = n := Option.some.inj h
    exact hzero
  | power multiplier exponent =>
    rcases exponent_of_degree? h with ⟨rfl, rfl⟩ | ⟨rfl, -, rfl⟩ | ⟨rfl, rfl⟩ | ⟨rfl, rfl⟩
    · exact hone
    · exact hone'
    · exact htwo
    · exact hthree

/-! ## Terms -/

variable {t : Signed Monomial}

/-- A term without its power of `x` and the multiplication sign is read as its coefficient. -/
theorem readFactor_text {multiplier : Option Multiplier} {exponent : Option (List Char)}
    (h : Readable (Monomial.power multiplier exponent).tokens) (minus : Bool) (piece : List Char)
    {rest : List Char} (hrest : Numeral.Ends rest) (hstar : '*' ∉ rest)
    (hnone : multiplier = none → rest = []) :
    Coefficients.readFactor ('x' :: piece)
        (signChars minus ++ (multiplier.elim [] Multiplier.tokens).flatMap Token.chars ++
          'x' :: piece ++ rest) =
      if minus then -(Monomial.power multiplier exponent).term.coefficient
      else (Monomial.power multiplier exponent).term.coefficient := by
  rw [Coefficients.readFactor, Text.removeFirst_piece (notMem_front h minus)]
  have hsign : '*' ∉ signChars minus := fun hmem =>
    absurd (eq_of_mem_signChars hmem) (by decide)
  cases multiplier with
  | none =>
    rw [hnone rfl, List.append_nil]
    show factorValue (Text.removeFirst ['*'] (signChars minus ++ [])) = _
    rw [List.append_nil, Text.removeFirst_of_notMem hsign]
    cases minus <;> rfl
  | some m =>
    obtain ⟨numeral, starred⟩ := m
    have hn := h numeral (by simp [Monomial.tokens, Multiplier.tokens])
    have hfront : '*' ∉ signChars minus ++ numeral := by
      intro hmem
      exact (List.mem_append.mp hmem).elim hsign (hn.notMem (by simp))
    have hvalue := factorValue_signed hn minus hrest
    cases starred with
    | true =>
      have hchars : signChars minus ++
          (Multiplier.tokens ⟨numeral, true⟩).flatMap Token.chars ++ rest =
            signChars minus ++ numeral ++ '*' :: rest := by
        simp [Multiplier.tokens, Token.chars, Operator.symbol]
      show factorValue (Text.removeFirst ['*'] (_ ++
        (Multiplier.tokens ⟨numeral, true⟩).flatMap Token.chars ++ rest)) = _
      rw [hchars, Text.removeFirst_append hfront]
      exact hvalue
    | false =>
      have hchars : (Multiplier.tokens ⟨numeral, false⟩).flatMap Token.chars = numeral := by
        simp [Multiplier.tokens, Token.chars]
      show factorValue (Text.removeFirst ['*'] (_ ++
        (Multiplier.tokens ⟨numeral, false⟩).flatMap Token.chars ++ rest)) = _
      rw [hchars, Text.removeFirst_of_notMem fun hmem =>
        (List.mem_append.mp hmem).elim hfront hstar]
      exact hvalue

/-- A constant is added to the constants. -/
theorem addTerm_constant {pluses : Nat} {minus : Bool} {numeral : List Char}
    (h : Numeral.Scanned numeral) (k : Coefficients) :
    k.addTerm ((Signed.mk pluses minus (.constant numeral)).text Monomial.tokens) =
      k.addAt 0 (Signed.mk pluses minus (.constant numeral)).term.coefficient := by
  obtain ⟨hvalue, hnumber⟩ := prefixValue_constant h minus
  have hletter := notMem_constant h minus
  rw [text_constant, Coefficients.addTerm, Text.contains_eq_false (by simp) hletter,
    Text.contains_eq_false (by simp) hletter, Text.contains_eq_false (by simp) hletter]
  simp only [hnumber, Bool.false_eq_true, if_false]
  rw [hvalue]
  rfl

/-- The number in front of a power is added where the power is found. -/
theorem addTerm_power {pluses : Nat} {minus : Bool} {multiplier : Option Multiplier}
    {exponent : Option (List Char)} (h : Readable (Monomial.power multiplier exponent).tokens)
    {n : Fin 4} (hdegree : (Monomial.power multiplier exponent).degree? = some n)
    (k : Coefficients) :
    k.addTerm ((Signed.mk pluses minus (.power multiplier exponent)).text Monomial.tokens) =
      k.addAt n (Signed.mk pluses minus (.power multiplier exponent)).term.coefficient := by
  obtain ⟨p, hp⟩ : ∃ p, p = signChars minus ++
    (multiplier.elim [] Multiplier.tokens).flatMap Token.chars := ⟨_, rfl⟩
  have hfront : 'x' ∉ p := hp ▸ notMem_front h minus
  have hcontains (piece : List Char) {back : List Char} (hback : 'x' ∉ back) :
      Text.contains ('x' :: piece) (p ++ 'x' :: back) = piece.isPrefixOf back :=
    Text.contains_append hfront hback
  -- Without the power of `x` the number in front of it is left, and an exponent that is one.
  have hread (piece : List Char) {rest : List Char} (hrest : Numeral.Ends rest)
      (hstar : '*' ∉ rest) (hnone : multiplier = none → rest = []) :
      Coefficients.readFactor ('x' :: piece) (p ++ 'x' :: (piece ++ rest)) =
        (Signed.mk pluses minus (.power multiplier exponent)).term.coefficient := by
    have hfactor := readFactor_text h minus piece hrest hstar hnone
    rw [← hp, List.append_assoc] at hfactor
    exact hfactor
  rw [text_power, ← hp]
  rcases Monomial.exponent_of_degree? hdegree with ⟨rfl, rfl⟩ | ⟨rfl, hone, rfl⟩ | ⟨rfl, rfl⟩ |
    ⟨rfl, rfl⟩
  · show k.addTerm (p ++ 'x' :: []) = _
    rw [← hread [] Numeral.ends_nil (by simp) fun _ => rfl, Coefficients.addTerm,
      hcontains _ (by decide), hcontains _ (by decide), hcontains _ (by decide)]
    rfl
  · have hends : Numeral.Ends ['^', '1'] := by
      intro c hc
      obtain rfl : '^' = c := by simpa using hc
      decide
    have hsome : multiplier = none → (['^', '1'] : List Char) = [] := by
      rintro rfl
      cases hone
    show k.addTerm (p ++ 'x' :: ['^', '1']) = _
    rw [← hread [] hends (by decide) hsome, Coefficients.addTerm, hcontains _ (by decide),
      hcontains _ (by decide), hcontains _ (by decide)]
    rfl
  · show k.addTerm (p ++ 'x' :: ['^', '2']) = _
    rw [← hread ['^', '2'] Numeral.ends_nil (by simp) fun _ => rfl, Coefficients.addTerm,
      hcontains _ (by decide), hcontains _ (by decide)]
    rfl
  · show k.addTerm (p ++ 'x' :: ['^', '3']) = _
    rw [← hread ['^', '3'] Numeral.ends_nil (by simp) fun _ => rfl, Coefficients.addTerm,
      hcontains _ (by decide)]
    rfl

/-- **What a term adds to the coefficients.** -/
theorem addTerm_text (h : Readable t.body.tokens) {n : Fin 4} (hdegree : t.body.degree? = some n)
    (k : Coefficients) :
    k.addTerm (t.text Monomial.tokens) = k.addAt n t.term.coefficient := by
  obtain ⟨pluses, minus, m⟩ := t
  cases m with
  | constant numeral =>
    obtain rfl : 0 = n := Option.some.inj hdegree
    exact addTerm_constant (h numeral (by simp [Monomial.tokens])) k
  | power multiplier exponent => exact addTerm_power h hdegree k

/-- What is read from a polynomial, term by term. -/
instance : Summand Monomial where
  tokens := Monomial.tokens
  degree? := Monomial.degree?
  number m := m.term.coefficient
  solid := Monomial.solid
  addTerm_text h hdegree := addTerm_text h hdegree

@[simp] theorem Monomial.summand_degree? (m : Monomial) : Summand.degree? m = m.degree? := rfl

@[simp] theorem coefficient_eq_term (t : Signed Monomial) : t.coefficient = t.term.coefficient :=
  rfl

/-! ## Values -/

open SignedSum (units)

/-- The value of a sum where `x` is a given number. -/
noncomputable def sumAt (ρ : ℝ) (sum : SignedSum Monomial) : ℝ :=
  (sum.terms.map fun t => t.term.valueAt ρ).sum

/-- The value of a sum by its coefficients. -/
theorem sumAt_eq {sum : SignedSum Monomial}
    (hdegrees : ∀ t ∈ sum.terms, t.body.degree?.isSome = true) (ρ : ℝ) :
    sumAt ρ sum = units 3 sum.terms * ρ ^ 3 + units 2 sum.terms * ρ ^ 2 + units 1 sum.terms * ρ +
      units 0 sum.terms := by
  rw [sumAt]
  generalize sum.terms = ts at hdegrees
  induction ts with
  | nil => simp [units]
  | cons t ts ih =>
    obtain ⟨n, hn⟩ := Option.isSome_iff_exists.mp (hdegrees t List.mem_cons_self)
    have hvalue : t.term.valueAt ρ = t.term.coefficient.value * ρ ^ (n : ℕ) := by
      have hpower : t.term.power.value = ((n : ℕ) : ℚ) := (Monomial.represents_power hn).2
      rw [Term.valueAt, hpower, Rat.cast_natCast, Real.rpow_natCast]
    rw [List.map_cons, List.sum_cons, ih fun u hu => hdegrees u (List.mem_cons_of_mem _ hu), hvalue]
    simp only [SignedSum.units_cons, Monomial.summand_degree?, coefficient_eq_term, hn]
    fin_cases n <;> push_cast <;> simp <;> ring

end Polynomial

end Stepwise
