/-
# Sides of linear equations

A side that is a signed sum of numbers and of multiples of `x` means the same to both readers: to
the one that cuts a text at its signs, and to the one that reads an expression.

* `Linear.Monomial` : what stands after the signs of a term;
* `Linear.addTerm_timesNumber` : what a term adds to the coefficients whose number comes after `x`;
* `Linear.ExactAt` : every number that comes up on the way to the value at a number is a double;
* `Linear.exactAt_of_small` : this holds for whole numbers that are small enough;
* `Linear.sample_eq` : the value at a number.
-/
import Stepwise.Equation.Linear
import Stepwise.Proofs.Equation.Degrees

namespace Stepwise

namespace Linear

open SignedSum (TermYields magnitude)

/-! ## Monomials -/

/-- A number, `x`, or a multiple of `x`, the number of which may come after `x` as well. -/
inductive Monomial where
  | constant (numeral : List Char)
  | multiple (multiplier : Option Polynomial.Multiplier)
  | timesNumber (numeral : List Char)

namespace Monomial

/-- The tokens of a monomial. -/
def tokens : Monomial → List Token
  | constant numeral => (Polynomial.Monomial.constant numeral).tokens
  | multiple multiplier => (Polynomial.Monomial.power multiplier none).tokens
  | timesNumber numeral => [.name ['x'], .operator .mul, .number numeral]

/-- The monomial with its number in front of `x`. -/
def ordered : Monomial → Polynomial.Monomial
  | constant numeral => .constant numeral
  | multiple multiplier => .power multiplier none
  | timesNumber numeral => .power (some ⟨numeral, true⟩) none

/-- Higher powers do not occur. -/
theorem degree?_ordered (m : Monomial) :
    ∃ n : Fin 4, m.ordered.degree? = some n ∧ (n : ℕ) ≤ 1 := by
  cases m with
  | constant numeral => exact ⟨0, rfl, zero_le_one⟩
  | multiple multiplier | timesNumber numeral => exact ⟨1, rfl, le_rfl⟩

/-- The only name in a monomial is `x`. -/
theorem eq_of_name_mem {m : Monomial} {n : List Char} (h : .name n ∈ m.tokens) : n = ['x'] := by
  cases m with
  | constant numeral => exact Polynomial.Monomial.eq_of_name_mem (m := .constant numeral) h
  | multiple multiplier => exact Polynomial.Monomial.eq_of_name_mem (m := .power multiplier none) h
  | timesNumber numeral => simpa [tokens] using h

/-- No sign stands in a monomial that can be read. -/
theorem solid {m : Monomial} (h : Readable m.tokens) : Solid m.tokens := by
  cases m with
  | constant numeral => exact Polynomial.Monomial.solid (m := .constant numeral) h
  | multiple multiplier => exact Polynomial.Monomial.solid (m := .power multiplier none) h
  | timesNumber numeral =>
    refine Solid.of_tokens (by simp [tokens]) fun token htoken => ?_
    simp only [tokens, List.mem_cons, List.not_mem_nil, or_false] at htoken
    rcases htoken with rfl | rfl | rfl
    · exact .inr (by simp)
    · exact .inr (by simp)
    · exact .inl ⟨numeral, rfl, h numeral (by simp [tokens])⟩

end Monomial

/-! ## Coefficients -/

/-- A number after `x` is added to the coefficient of `x`. -/
theorem addTerm_timesNumber {pluses : Nat} {minus : Bool} {numeral : List Char}
    (h : Numeral.Scanned numeral) (k : Coefficients) :
    k.addTerm ((Signed.mk pluses minus (.timesNumber numeral)).text Monomial.tokens) =
      k.addAt 1 (if minus then -Numeral.unsignedValue numeral
        else Numeral.unsignedValue numeral) := by
  have htext : (Signed.mk pluses minus (.timesNumber numeral)).text Monomial.tokens =
      Polynomial.signChars minus ++ 'x' :: '*' :: numeral := by
    simp [Signed.text, Monomial.tokens, Token.chars, Operator.symbol, Polynomial.signChars]
  have hsign {c : Char} (hc : c ≠ '-') : c ∉ Polynomial.signChars minus := fun hmem =>
    hc (Polynomial.eq_of_mem_signChars hmem)
  -- Without a power sign neither `x^3` nor `x^2` is found.
  have hpower : '^' ∉ Polynomial.signChars minus ++ 'x' :: '*' :: numeral := by
    simpa using And.intro (hsign (by decide)) (h.notMem (by simp))
  have hfactor : Coefficients.readFactor ['x']
      (Polynomial.signChars minus ++ 'x' :: '*' :: numeral) =
        if minus then -Numeral.unsignedValue numeral else Numeral.unsignedValue numeral := by
    rw [Coefficients.readFactor, Text.removeFirst_append (hsign (by decide)),
      Text.removeFirst_append (hsign (by decide)), ← List.append_nil (_ ++ numeral)]
    exact Polynomial.factorValue_signed h minus Numeral.ends_nil
  rw [htext, Coefficients.addTerm, Text.contains_eq_false (by simp) hpower,
    Text.contains_eq_false (by simp) hpower, Text.contains_singleton (by simp), hfactor]
  rfl

/-- What is read from a side, term by term. -/
instance : Summand Monomial where
  tokens := Monomial.tokens
  degree? m := m.ordered.degree?
  number m := m.ordered.term.coefficient
  solid := Monomial.solid
  addTerm_text := by
    rintro ⟨pluses, minus, m⟩ n h hdegree k
    cases m with
    | constant numeral =>
      exact Polynomial.addTerm_text (t := ⟨pluses, minus, .constant numeral⟩) h hdegree k
    | multiple multiplier =>
      exact Polynomial.addTerm_text (t := ⟨pluses, minus, .power multiplier none⟩) h hdegree k
    | timesNumber numeral =>
      obtain rfl := Option.some.inj hdegree
      exact addTerm_timesNumber (h numeral (by simp [Monomial.tokens])) k

theorem isSome_degree? (m : Monomial) : (Summand.degree? m).isSome = true := by
  obtain ⟨n, hn, -⟩ := m.degree?_ordered
  exact Option.isSome_iff_exists.mpr ⟨n, hn⟩

/-! ## Values -/

namespace Monomial

/-- The factors of a monomial with a number in place of `x`. -/
def factors (number : Phrase .expression) : Monomial → Factors
  | constant numeral => (Polynomial.Monomial.constant numeral).factors number
  | multiple multiplier => (Polynomial.Monomial.power multiplier none).factors number
  | timesNumber numeral =>
    ⟨groupFactor number, .product .times (numeralFactor numeral) .endProduct⟩

theorem tokens_factors (number : Phrase .expression) (m : Monomial) :
    (m.factors number).tokens = m.tokens.flatMap (Token.expand number.tokens) := by
  cases m with
  | constant numeral => exact (Polynomial.Monomial.constant numeral).tokens_factors number
  | multiple multiplier => exact (Polynomial.Monomial.power multiplier none).tokens_factors number
  | timesNumber numeral =>
    simp [factors, Factors.tokens, numeralFactor, groupFactor, tokens, Phrase.tokens,
      Token.expand, Scale.operator]

variable {limit : Int} {number : Phrase .expression} {x : Double}

/-- A monomial that is one of a polynomial as it stands has the value of that one. -/
theorem termYields_ordered {m : Monomial} (hnumber : number.meaning = .literal x)
    (hfinite : x.isFinite = true) (hcoefficient : m.ordered.term.coefficient.isFinite = true)
    (h : Representable (Summand.valueAt x.value m))
    (hfactors : m.factors number = m.ordered.factors number) :
    TermYields limit (factors number) (Summand.valueAt x.value) m := by
  obtain ⟨n, hdegree, hle⟩ := m.degree?_ordered
  have hrepresentable : Representable (x.value ^ (n : ℕ)) := by
    rcases Nat.le_one_iff_eq_zero_or_eq_one.mp hle with hn | hn
    · exact ⟨1, by simpa [hn] using Double.represents_one⟩
    · exact ⟨x, hfinite, by rw [hn, pow_one]⟩
  have hpower := Polynomial.Monomial.represents_power hdegree
  obtain ⟨y, hy, hyvalue⟩ :=
    Double.power_of_whole hfinite hpower (hle.trans (by decide)) hrepresentable
  have hvalue : Summand.valueAt x.value m = m.ordered.valueAt x := by
    rw [Polynomial.Monomial.valueAt, Polynomial.powerAt, hy]
    show m.ordered.degree?.elim 0 _ = m.ordered.term.coefficient.value * y.value
    rw [hdegree, hyvalue.2]
    rfl
  refine SignedSum.TermYields.congr hfactors hvalue
    (Polynomial.Monomial.termYields hnumber hfinite hcoefficient ⟨y, hy, hyvalue.1, ?_⟩ ?_)
  · rw [hyvalue.2, hpower.2, Rat.cast_natCast, Real.rpow_natCast, Rat.cast_pow]
  · rw [← hvalue]
    exact h

/-- The value of a monomial after its signs is the product of its factors. -/
theorem termYields {m : Monomial} (hnumber : number.meaning = .literal x)
    (hfinite : x.isFinite = true) (hcoefficient : m.ordered.term.coefficient.isFinite = true)
    (h : Representable (Summand.valueAt x.value m)) :
    TermYields limit (factors number) (Summand.valueAt x.value) m := by
  cases m with
  | constant numeral => exact termYields_ordered hnumber hfinite hcoefficient h rfl
  | multiple multiplier => exact termYields_ordered hnumber hfinite hcoefficient h rfl
  | timesNumber numeral =>
    rintro ⟨pluses, minus, m⟩ rfl
    have hgroup : Yields limit (groupFactor number).meaning x.value := by
      show Yields limit (.group number.meaning) x.value
      rw [hnumber]
      exact (yields_literal ⟨hfinite, rfl⟩).group
    have hnumeral : Yields limit (numeralFactor numeral).meaning
        (Numeral.unsignedValue numeral).value := yields_literal ⟨hcoefficient, rfl⟩
    have hvalue : Signed.value (Summand.valueAt x.value) ⟨pluses, minus, timesNumber numeral⟩ =
        (if minus then -1 else 1) * x.value * (Numeral.unsignedValue numeral).value := by
      show (if minus then -1 else 1) * ((Numeral.unsignedValue numeral).value * x.value ^ 1) = _
      ring
    have hproduct := (yields_signedFactor hgroup minus pluses).mul hnumeral
      (hvalue ▸ h.signed minus)
    rw [← hvalue] at hproduct
    exact hproduct

end Monomial

/-- The numbers of a side are doubles, and so is every sum and product on the way to its
coefficients and to its value where `x` is a given number. -/
structure ExactAt (side : SignedSum Monomial) (ρ : ℚ) : Prop where
  coefficients : side.Exact
  products : ∀ t ∈ side.terms, Representable (t.value (Summand.valueAt ρ))
  values : ∀ ts, ts <+: side.terms → Representable (ts.map (Signed.value (Summand.valueAt ρ))).sum

/-- Sides with whole numbers are exact at a whole number unless they grow beyond 53 bits. -/
theorem exactAt_of_small {side : SignedSum Monomial} {n : ℤ}
    (hwhole : ∀ t ∈ side.terms, ∃ k : ℤ, t.coefficient.Represents k)
    (hsmall : magnitude side.terms * max 1 |(n : ℚ)| < 2 ^ 53) : ExactAt side n := by
  have hvalue (t : Signed Monomial) : ∃ j : ℕ, j ≤ 1 ∧
      t.value (Summand.valueAt n) = t.coefficient.value * (n : ℚ) ^ j := by
    obtain ⟨j, hdegree, hle⟩ := t.body.degree?_ordered
    exact ⟨j, hle, Signed.value_of_degree? hdegree n⟩
  have hsum {ts : List (Signed Monomial)} (hts : ts.Sublist side.terms) :
      Representable (ts.map (Signed.value (Summand.valueAt n))).sum := by
    refine representable_sum ?_ (lt_of_le_of_lt ?_ hsmall)
    · intro q hq
      obtain ⟨t, ht, rfl⟩ := List.mem_map.mp hq
      obtain ⟨k, hk⟩ := hwhole t (hts.mem ht)
      obtain ⟨j, -, ht⟩ := hvalue t
      exact ⟨k * n ^ j, by rw [ht, hk.2]; push_cast; rfl⟩
    · rw [List.map_map, magnitude, ← List.sum_map_mul_right]
      calc (ts.map fun t => |t.value (Summand.valueAt n)|).sum
          ≤ (ts.map fun t => |t.coefficient.value| * max 1 |(n : ℚ)|).sum := by
            refine List.sum_le_sum fun t _ => ?_
            obtain ⟨j, hj, ht⟩ := hvalue t
            rw [ht, abs_mul]
            refine mul_le_mul_of_nonneg_left ?_ (abs_nonneg _)
            rcases Nat.le_one_iff_eq_zero_or_eq_one.mp hj with rfl | rfl
            · simp
            · simp
        _ ≤ (side.terms.map fun t => |t.coefficient.value| * max 1 |(n : ℚ)|).sum := by
            refine (hts.map _).sum_le_sum fun q hq => ?_
            obtain ⟨t, -, rfl⟩ := List.mem_map.mp hq
            positivity
  constructor
  · refine SignedSum.exact_of_small hwhole (lt_of_le_of_lt ?_ hsmall)
    exact le_mul_of_one_le_right (SignedSum.magnitude_nonneg _) (le_max_left _ _)
  · intro t ht
    have hone := hsum (List.singleton_sublist.mpr ht)
    simpa using hone
  · exact fun ts hts => hsum hts.sublist

/-- **The value of a side at a number**, if nothing is rounded on the way. -/
theorem sample_eq {settings : Settings} {s : List Char} {side : SignedSum Monomial}
    (hs : Token.ofChars s = .ok (side.tokens Monomial.tokens)) {x : Double}
    (hfinite : x.isFinite = true) (h : ExactAt side x.value) :
    ∃ y, (Definite.sample settings s x).outcome = .ok y ∧
      y.Represents (side.terms.map (Signed.value (Summand.valueAt x.value))).sum := by
  refine SignedSum.sample_eq Monomial.factors hs hfinite
    (fun t _ m hm => Monomial.eq_of_name_mem hm) Monomial.tokens_factors ?_ h.values
  intro number hmeaning t ht
  have hcoefficient := h.coefficients.coefficients t ht
  rw [Signed.isFinite_coefficient] at hcoefficient
  exact Monomial.termYields hmeaning hfinite hcoefficient (h.products t ht).of_signed

/-- The value of a side by its coefficients. -/
theorem value_eq (ρ : ℚ) (ts : List (Signed Monomial)) :
    (ts.map (Signed.value (Summand.valueAt ρ))).sum =
      SignedSum.units 1 ts * ρ + SignedSum.units 0 ts := by
  have hnone {n : Fin 4} (hn : 1 < (n : ℕ)) : SignedSum.units n ts = 0 :=
    SignedSum.units_eq_zero fun t _ heq => by
      obtain ⟨m, hm, hle⟩ := t.body.degree?_ordered
      obtain rfl := Option.some.inj (hm.symm.trans heq)
      omega
  rw [SignedSum.sum_valueAt, Fin.sum_univ_four, hnone (n := 2) (by decide),
    hnone (n := 3) (by decide)]
  simp [add_comm]

end Linear

end Stepwise
