/-
# Polynomials read and evaluated

The terms that are read from a written polynomial add up, at every number, to the sample of its text
there, if no operation on the way has to round.

* `Term.valueAt` : the value of a term at a number;
* `Polynomial.Exact` : every number that comes up on the way is a double;
* `Polynomial.exact_of_whole` : what this asks of terms with whole powers;
* `Polynomial.sample_eq_sum` : the sample is the sum of the values of the terms;
* `Polynomial.residue_ignored` : a text with more in a term than is read.
-/
import Mathlib.Analysis.SpecialFunctions.Pow.Real
import Stepwise.Proofs.Analysis.SampledSum
import Stepwise.Proofs.Double.Power
import Stepwise.Proofs.Polynomial.Monomial

namespace Stepwise

/-- The value of a term where `x` is a given number. -/
noncomputable def Term.valueAt (ρ : ℝ) (t : Term) : ℝ :=
  (t.coefficient.value : ℝ) * ρ ^ (t.power.value : ℝ)

/-- The real number is the value of a finite double. -/
def IsDouble (r : ℝ) : Prop := ∃ x : Double, x.isFinite = true ∧ (x.value : ℝ) = r

theorem representable_of_isDouble {q : ℚ} (h : IsDouble q) : Representable q := by
  obtain ⟨x, hfinite, hx⟩ := h
  exact ⟨x, hfinite, by exact_mod_cast hx⟩

theorem isDouble_of_representable {q : ℚ} (h : Representable q) : IsDouble q := by
  obtain ⟨x, hfinite, hx⟩ := h
  exact ⟨x, hfinite, by exact_mod_cast hx⟩

namespace Polynomial

/-- The numbers of the terms are doubles, and so is every power, product and partial sum on the way
to the sum of their values at a number. -/
structure Exact (ts : List Term) (x : Double) : Prop where
  finite : ∀ t ∈ ts, t.coefficient.isFinite = true ∧ t.power.isFinite = true
  powers : ∀ t ∈ ts, ∃ y, x.power t.power = .ok y ∧ y.isFinite = true ∧
    (y.value : ℝ) = (x.value : ℝ) ^ (t.power.value : ℝ)
  products : ∀ t ∈ ts, IsDouble (t.valueAt x.value)
  sums : ∀ us, us <+: ts → IsDouble (us.map (Term.valueAt x.value)).sum

/-! ## Whole powers -/

/-- A term with a whole power has a rational value at a rational number. -/
theorem valueAt_of_whole {t : Term} {n : ℕ} (h : t.power.Represents n) (q : ℚ) :
    t.valueAt q = ((t.coefficient.value * q ^ n : ℚ) : ℝ) := by
  rw [Term.valueAt, h.2, Rat.cast_natCast, Real.rpow_natCast]
  push_cast
  rfl

/-- Terms with whole powers are exact if their powers, products and partial sums are doubles. -/
theorem exact_of_whole {ts : List Term} {x : Double} (power : Term → ℕ)
    (hfinite : x.isFinite = true)
    (hterms : ∀ t ∈ ts, t.coefficient.isFinite = true ∧ t.power.Represents (power t) ∧
      power t ≤ Double.maxExactExponent)
    (hpowers : ∀ t ∈ ts, Representable (x.value ^ power t))
    (hproducts : ∀ t ∈ ts, Representable (t.coefficient.value * x.value ^ power t))
    (hsums : ∀ us, us <+: ts →
      Representable (us.map fun t => t.coefficient.value * x.value ^ power t).sum) :
    Exact ts x := by
  have hvalue {t : Term} (ht : t ∈ ts) := valueAt_of_whole (hterms t ht).2.1 x.value
  constructor
  · intro t ht
    exact ⟨(hterms t ht).1, (hterms t ht).2.1.1⟩
  · intro t ht
    obtain ⟨-, hpower, hsmall⟩ := hterms t ht
    obtain ⟨y, hy, hyfinite, hyvalue⟩ :=
      Double.power_of_whole hfinite hpower hsmall (hpowers t ht)
    refine ⟨y, hy, hyfinite, ?_⟩
    rw [hyvalue, hpower.2, Rat.cast_natCast, Real.rpow_natCast, Rat.cast_pow]
  · intro t ht
    rw [hvalue ht]
    exact isDouble_of_representable (hproducts t ht)
  · intro us hus
    have hsum : (us.map (Term.valueAt x.value)).sum =
        ((us.map fun t => t.coefficient.value * x.value ^ power t).sum : ℚ) := by
      rw [Rat.cast_list_sum, List.map_map]
      congr 1
      exact List.map_congr_left fun t ht => hvalue (hus.subset ht)
    rw [hsum]
    exact isDouble_of_representable (hsums us hus)

/-! ## Values of monomials -/

/-- The power of a double as a rational; zero if there is none. -/
def powerAt (x p : Double) : ℚ :=
  match x.power p with
  | .ok y => y.value
  | .error _ => 0

namespace Monomial

/-- The value of a monomial where `x` is a given double. -/
def valueAt (x : Double) (m : Monomial) : ℚ := m.term.coefficient.value * powerAt x m.term.power

/-- What follows the base of a power. -/
def powerTail : Option (List Char) → Phrase .powerTail
  | none => .endPower
  | some numeral => .raise (.exponent (.number numeral)) .endPower

/-- The factors of a monomial with a number in place of `x`. -/
def factors (number : Phrase .expression) : Monomial → Factors
  | constant numeral => ⟨numeralFactor numeral, .endProduct⟩
  | power none exponent =>
    ⟨.factor (.power (.group number) (powerTail exponent)), .endProduct⟩
  | power (some ⟨numeral, true⟩) exponent =>
    ⟨numeralFactor numeral,
      .product .times (.factor (.power (.group number) (powerTail exponent))) .endProduct⟩
  | power (some ⟨numeral, false⟩) exponent =>
    ⟨numeralFactor numeral,
      .juxtaposition (.power (.group number) (powerTail exponent)) .endProduct⟩

theorem tokens_factors (number : Phrase .expression) (m : Monomial) :
    (m.factors number).tokens = m.tokens.flatMap (Token.expand number.tokens) := by
  have htail (exponent : Option (List Char)) :
      (exponentTokens exponent).flatMap (Token.expand number.tokens) =
        (powerTail exponent).tokens := by
    cases exponent with
    | none => rfl
    | some numeral => rfl
  cases m with
  | constant numeral => rfl
  | power multiplier exponent =>
    rw [tokens, List.flatMap_append, List.flatMap_cons, htail]
    cases multiplier with
    | none => simp [factors, Factors.tokens, Phrase.tokens, Token.expand]
    | some m =>
      obtain ⟨numeral, starred⟩ := m
      cases starred <;>
        simp [factors, Factors.tokens, numeralFactor, Phrase.tokens, Token.expand,
          Multiplier.tokens, Scale.operator]

variable {limit : Int} {number : Phrase .expression} {x : Double}

/-- A power of the number has the value that the power of the double has. -/
theorem yields_power (limit : Int) {exponent : Option (List Char)}
    (hnumber : number.meaning = .literal x) (hfinite : x.isFinite = true)
    (h : ∃ y, x.power (exponent.elim 1 Numeral.unsignedValue) = .ok y ∧ y.isFinite = true ∧
      (y.value : ℝ) = (x.value : ℝ) ^ ((exponent.elim 1 Numeral.unsignedValue).value : ℝ)) :
    Yields limit ((powerTail exponent).meaning (.group number.meaning))
      (powerAt x (exponent.elim 1 Numeral.unsignedValue)) := by
  obtain ⟨y, hy, hyfinite, hvalue⟩ := h
  have hpower : powerAt x (exponent.elim 1 Numeral.unsignedValue) = y.value := by
    rw [powerAt, hy]
  rw [hpower, hnumber]
  have hgroup : Yields limit (.group (.literal x)) x.value := (yields_literal ⟨hfinite, rfl⟩).group
  cases exponent with
  | none =>
    -- Without an exponent the number stands there by itself.
    have hone : y.value = x.value := by
      have hreal : (y.value : ℝ) = x.value := by
        rw [hvalue, Option.elim_none, Double.represents_one.2, Rat.cast_one, Real.rpow_one]
      exact_mod_cast hreal
    rw [hone]
    exact hgroup
  | some numeral =>
    have hdefined : defined x = .ok x := by
      rw [defined, (show x.Represents x.value from ⟨hfinite, rfl⟩).isNaN_eq_false]
      rfl
    refine ⟨y, ?_, hyfinite, rfl⟩
    have hraise : (Expr.binary .pow (.group (.literal x))
        (.literal (Numeral.unsignedValue numeral))).valueAux (standardOperations limit) =
          Operator.apply .pow x (Numeral.unsignedValue numeral) := by
      rw [Expr.valueAux, Expr.valueAux, Expr.valueAux, Expr.valueAux]
      show ((defined x).bind fun x => Operator.apply .pow x (Numeral.unsignedValue numeral)) = _
      rw [hdefined]
      rfl
    show (Expr.binary .pow (.group (.literal x))
      (.literal (Numeral.unsignedValue numeral))).valueAux (standardOperations limit) = .ok y
    rw [hraise, Operator.apply, show x.power (Numeral.unsignedValue numeral) = .ok y from hy]

/-- The value of a monomial after its signs is the product of its factors. -/
theorem termYields {m : Monomial} (hnumber : number.meaning = .literal x)
    (hfinite : x.isFinite = true) (hcoefficient : m.term.coefficient.isFinite = true)
    (hpower : ∃ y, x.power m.term.power = .ok y ∧ y.isFinite = true ∧
      (y.value : ℝ) = (x.value : ℝ) ^ (m.term.power.value : ℝ))
    (h : Representable (m.valueAt x)) :
    SignedSum.TermYields limit (factors number) (valueAt x) m := by
  rintro ⟨pluses, minus, m⟩ rfl
  have hsigned := h.signed minus
  cases m with
  | constant numeral =>
    have hvalue : valueAt x (constant numeral) = (Numeral.unsignedValue numeral).value := by
      have hone : powerAt x 0 = 1 := by
        rw [powerAt, show (0 : Double) = Double.zero false by decide +kernel, Double.power_zero]
        exact Double.represents_one.2
      show (Numeral.unsignedValue numeral).value * powerAt x 0 = _
      rw [hone, mul_one]
    rw [Signed.value, hvalue]
    exact yields_signedFactor (yields_literal ⟨hcoefficient, rfl⟩) minus pluses
  | power multiplier exponent =>
    have hraised := yields_power limit hnumber hfinite hpower
    cases multiplier with
    | none =>
      have hvalue : valueAt x (power none exponent) =
          powerAt x (exponent.elim 1 Numeral.unsignedValue) := by
        show (1 : Double).value * powerAt x (exponent.elim 1 Numeral.unsignedValue) = _
        rw [Double.represents_one.2, one_mul]
      rw [Signed.value, hvalue]
      exact yields_signedFactor hraised minus pluses
    | some multiplier =>
      obtain ⟨numeral, starred⟩ := multiplier
      have hnumeral : Yields limit (numeralFactor numeral).meaning
          (Numeral.unsignedValue numeral).value := yields_literal ⟨hcoefficient, rfl⟩
      have hvalue : Signed.value (valueAt x)
          ⟨pluses, minus, power (some ⟨numeral, starred⟩) exponent⟩ =
            (if minus then -1 else 1) * (Numeral.unsignedValue numeral).value *
              powerAt x (exponent.elim 1 Numeral.unsignedValue) := (mul_assoc _ _ _).symm
      have hproduct := (yields_signedFactor hnumeral minus pluses).mul hraised (hvalue ▸ hsigned)
      rw [← hvalue] at hproduct
      cases starred with
      | true => exact hproduct
      | false => exact hproduct

end Monomial

/-! ## Samples -/

variable {x : Double}

/-- The value of a term is that of its monomial with the sign. -/
theorem value_signed {t : Signed Monomial}
    (hpower : ∃ y, x.power t.term.power = .ok y ∧ y.isFinite = true ∧
      (y.value : ℝ) = (x.value : ℝ) ^ (t.term.power.value : ℝ)) :
    ((t.value (Monomial.valueAt x) : ℚ) : ℝ) = t.term.valueAt x.value := by
  obtain ⟨y, hy, -, hvalue⟩ := hpower
  have hpowerAt : (powerAt x t.body.term.power : ℝ) = (x.value : ℝ) ^ (t.term.power.value : ℝ) := by
    rw [← hvalue, powerAt, show x.power t.body.term.power = .ok y from hy]
  have hcoefficient : t.term.coefficient.value =
      (if t.minus then -1 else 1) * t.body.term.coefficient.value := by
    rw [Signed.term]
    cases t.minus with
    | false => exact (one_mul _).symm
    | true =>
      show (-t.body.term.coefficient).value = -1 * t.body.term.coefficient.value
      rw [Double.value_neg, neg_one_mul]
  rw [Term.valueAt, hcoefficient, ← hpowerAt, Signed.value, Monomial.valueAt]
  push_cast
  ring

/-- **The terms that are read from a polynomial add up to its sample**, if nothing is rounded on the
way. -/
theorem sample_eq_sum {settings : Settings} {s : List Char} {sum : SignedSum Monomial}
    (hs : Token.ofChars s = .ok (sum.tokens Monomial.tokens)) (hfinite : x.isFinite = true)
    (h : Exact (readTerms s) x) :
    ∃ y, (Definite.sample settings s x).outcome = .ok y ∧ y.isFinite = true ∧
      (y.value : ℝ) = ((readTerms s).map (Term.valueAt x.value)).sum := by
  rw [readTerms_eq hs] at h ⊢
  have hmem {t : Signed Monomial} (ht : t ∈ sum.terms) : t.term ∈ sum.terms.map Signed.term :=
    List.mem_map_of_mem ht
  have hvalue {t : Signed Monomial} (ht : t ∈ sum.terms) :=
    value_signed (t := t) (h.powers _ (hmem ht))
  have hsum {ts : List (Signed Monomial)} (hts : ts <+: sum.terms) :
      (((ts.map (Signed.value (Monomial.valueAt x))).sum : ℚ) : ℝ) =
        ((ts.map Signed.term).map (Term.valueAt x.value)).sum := by
    rw [Rat.cast_list_sum, List.map_map, List.map_map]
    congr 1
    refine List.map_congr_left fun t ht => ?_
    exact hvalue (hts.subset ht)
  have hterms (number : Phrase .expression) (hnumber : number.meaning = .literal x) :
      ∀ t ∈ sum.terms, SignedSum.TermYields settings.maxFactorial (Monomial.factors number)
        (Monomial.valueAt x) t.body := by
    intro t ht
    have hcoefficient : t.body.term.coefficient.isFinite = true := by
      have hsigned := (h.finite _ (hmem ht)).1
      rw [Signed.term] at hsigned
      cases hminus : t.minus <;> simpa [hminus] using hsigned
    refine Monomial.termYields hnumber hfinite hcoefficient (h.powers t.term (hmem ht)) ?_
    have hproduct := h.products _ (hmem ht)
    rw [← hvalue ht] at hproduct
    exact (representable_of_isDouble hproduct).of_signed
  have hsums : ∀ ts, ts <+: sum.terms →
      Representable (ts.map (Signed.value (Monomial.valueAt x))).sum := by
    intro ts hts
    have hpartial := h.sums (ts.map Signed.term) (hts.map _)
    rw [← hsum hts] at hpartial
    exact representable_of_isDouble hpartial
  obtain ⟨y, hy, hyfinite, hyvalue⟩ := SignedSum.sample_eq Monomial.factors hs hfinite
    (fun t _ m hm => Monomial.eq_of_name_mem hm) Monomial.tokens_factors hterms hsums
  refine ⟨y, hy, hyfinite, ?_⟩
  rw [hyvalue, hsum (List.prefix_refl _)]

/-- The polynomial `0.5x^4 + 2x - 7` at `1.5`. -/
theorem sample_quartic : ∃ y,
    (Definite.sample {} "0.5x^4 + 2x - 7".toList (3 / 2)).outcome = .ok y ∧ y.isFinite = true ∧
      (y.value : ℝ) =
        ((readTerms "0.5x^4 + 2x - 7".toList).map (Term.valueAt (3 / 2 : Double).value)).sum := by
  let sum : SignedSum Monomial := ⟨
    ⟨0, false, .power (some ⟨['0', '.', '5'], false⟩) (some ['4'])⟩,
    [⟨0, false, .power (some ⟨['2'], false⟩) none⟩, ⟨0, true, .constant ['7']⟩]⟩
  have hterms : readTerms "0.5x^4 + 2x - 7".toList = [⟨1 / 2, 4⟩, ⟨2, 1⟩, ⟨-7, 0⟩] := by
    decide +kernel
  have hexact : Exact (readTerms "0.5x^4 + 2x - 7".toList) (3 / 2) := by
    rw [hterms]
    refine exact_of_whole (fun t => t.power.value.num.toNat) (by decide +kernel)
      (by decide +kernel) (by decide +kernel) (by decide +kernel) fun us hus => ?_
    have hall : ∀ us ∈ [(⟨1 / 2, 4⟩ : Term), ⟨2, 1⟩, ⟨-7, 0⟩].inits,
        Representable (us.map fun t =>
          t.coefficient.value * (3 / 2 : Double).value ^ t.power.value.num.toNat).sum := by
      decide +kernel
    exact hall us ((List.mem_inits _ _).mpr hus)
  have hs : Token.ofChars "0.5x^4 + 2x - 7".toList = .ok (sum.tokens Monomial.tokens) :=
    eq_ok_of_toOption (by decide +kernel)
  exact sample_eq_sum hs (by decide +kernel) hexact

/-- What follows the number after the power sign is not read, but it is evaluated: `2x^2x` is read
as `2x^2`. -/
theorem residue_ignored : ∃ y, (Definite.sample {} "2x^2x".toList 2).outcome = .ok y ∧
    y.isNaN = false ∧
      (∀ t ∈ readTerms "2x^2x".toList, t.coefficient.isNaN = false ∧ t.power.isNaN = false) ∧
        (y.value : ℝ) ≠
          ((readTerms "2x^2x".toList).map (Term.valueAt (2 : Double).value)).sum := by
  have hvalue : Arithmetic.value {} (Definite.substitute "2x^2x".toList 2) = .ok 16 :=
    eq_ok_of_toOption (by decide +kernel)
  have hterms : readTerms "2x^2x".toList = [⟨2, 2⟩] := by decide +kernel
  have hpower : (2 : Double).Represents (2 : ℕ) := by decide +kernel
  have hsixteen : (16 : Double).value = 16 := by decide +kernel
  refine ⟨16, ?_, by decide +kernel, by decide +kernel, ?_⟩
  · rw [Definite.sample, hvalue]
    rfl
  · rw [hterms, List.map_singleton, List.sum_singleton, valueAt_of_whole hpower, hsixteen, hpower.2]
    norm_num

end Polynomial

end Stepwise
