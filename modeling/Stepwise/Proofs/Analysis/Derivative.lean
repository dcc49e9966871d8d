/-
# Derivatives of written polynomials

The derivative of a polynomial of whole terms is one too.  No double on the way is rounded, and the
answer is shown without letters, so that it is read as the derivatives of the terms in their order,
without those of the constants.

* `WholeTerm.derivative`, `WholeTerm.Differentiable` : whole terms with an exact derivative;
* `Derivative.ofTerm_exact` : the power rule for whole terms;
* `Derivative.exists_solve_whole` : the answer to the derivative of a polynomial of whole terms;
* `Derivative.readTerms_of_solve` : the answer is read as the derivatives of the terms.
-/
import Stepwise.Analysis.PowerRule
import Stepwise.Proofs.Analysis.Call
import Stepwise.Proofs.Polynomial.Whole

namespace Stepwise

/-! ## Whole derivatives -/

namespace WholeTerm

/-- The derivative of a whole term. -/
def derivative (t : WholeTerm) : WholeTerm := ⟨t.coefficient * t.power, t.power - 1⟩

/-- The derivatives of the terms that are no constants. -/
def derivatives (ts : List WholeTerm) : List WholeTerm :=
  (ts.filter fun t => t.power ≠ 0).map derivative

/-- The coefficient is not zero, and neither the term nor its derivative is rounded. -/
structure Differentiable (t : WholeTerm) : Prop where
  ne_zero : t.coefficient ≠ 0
  exact : t.Exact
  product : (t.coefficient * t.power).natAbs < 2 ^ 53

instance : DecidablePred Differentiable := fun t =>
  decidable_of_iff (t.coefficient ≠ 0 ∧ (t.coefficient.natAbs < 2 ^ 53 ∧ t.power < 2 ^ 53) ∧
      (t.coefficient * t.power).natAbs < 2 ^ 53)
    ⟨fun ⟨hne, ⟨hcoefficient, hpower⟩, hproduct⟩ => ⟨hne, ⟨hcoefficient, hpower⟩, hproduct⟩,
      fun ⟨hne, ⟨hcoefficient, hpower⟩, hproduct⟩ => ⟨hne, ⟨hcoefficient, hpower⟩, hproduct⟩⟩

namespace Differentiable

variable {t : WholeTerm}

theorem exact_derivative (h : t.Differentiable) : t.derivative.Exact :=
  ⟨h.product, lt_of_le_of_lt (Nat.sub_le t.power 1) h.exact.power⟩

/-- The coefficient of the derivative is not zero unless the term is a constant. -/
theorem derivative_ne_zero (h : t.Differentiable) (hpower : t.power ≠ 0) :
    t.derivative.coefficient ≠ 0 :=
  mul_ne_zero h.ne_zero (Nat.cast_ne_zero.mpr hpower)

end Differentiable

end WholeTerm

/-! ## The power rule -/

namespace Derivative

variable {t : WholeTerm}

/-- **The power rule is exact for whole terms.** -/
theorem ofTerm_exact (h : t.Differentiable) (hpower : t.power ≠ 0) :
    ofTerm t.term = t.derivative.term := by
  have hp := Double.represents_ofNat h.exact.power
  have hproduct : Double.ofInt t.coefficient * Double.ofNat t.power =
      Double.ofInt (t.coefficient * t.power) := by
    have hwhole := Double.represents_ofInt (Double.abs_cast_lt h.product)
    have hvalue : (t.coefficient : ℚ) * t.power = (t.coefficient * t.power : ℤ) := by
      push_cast
      rfl
    have hrepresents := (Double.represents_ofInt (Double.abs_cast_lt h.exact.coefficient)).mul hp
      (by rw [hvalue]; exact ⟨_, hwhole⟩)
    rw [hvalue] at hrepresents
    exact hrepresents.eq_of_ne_zero hwhole (by exact_mod_cast h.derivative_ne_zero hpower)
  have hdifference : Double.ofNat t.power - 1 = Double.ofNat (t.power - 1) := by
    obtain ⟨n, hn⟩ := Nat.exists_eq_succ_of_ne_zero hpower
    rw [hn, Nat.succ_sub_one]
    by_cases hzero : n = 0
    · rw [hzero]
      decide +kernel
    · have hvalue : (t.power : ℚ) - 1 = n := by
        rw [hn]
        push_cast
        ring
      have hnext := Double.represents_ofNat (n := n) (by have := h.exact.power; omega)
      have hrepresents := hp.sub Double.represents_one (by rw [hvalue]; exact ⟨_, hnext⟩)
      rw [hvalue, hn] at hrepresents
      exact hrepresents.eq_of_ne_zero hnext (by exact_mod_cast hzero)
  rw [ofTerm, WholeTerm.term, hproduct, hdifference]
  rfl

/-- Of a whole term the derivative is shown, unless the term is a constant. -/
theorem shownTerm?_exact (h : t.Differentiable) :
    shownTerm? t.term = if t.power = 0 then none else some t.derivative.term.chars := by
  by_cases hpower : t.power = 0
  · have hzero : (Double.ofNat 0).isZero = true := by decide +kernel
    simp only [shownTerm?, WholeTerm.term, hpower, hzero, if_true]
  · have hnonzero : t.term.power.isZero = false :=
      (Double.represents_ofNat h.exact.power).isZero_eq_false (Nat.cast_ne_zero.mpr hpower)
    have hcoefficient : t.derivative.term.coefficient.isZero = false :=
      (Double.represents_ofInt (Double.abs_cast_lt h.product)).isZero_eq_false
        (by exact_mod_cast h.derivative_ne_zero hpower)
    simp only [shownTerm?, hnonzero, ofTerm_exact h hpower, hcoefficient, if_neg hpower,
      Bool.false_eq_true, if_false]

/-- The terms that are shown are the derivatives of those that are no constants. -/
theorem filterMap_shownTerm? {ts : List WholeTerm} (h : ∀ t ∈ ts, t.Differentiable) :
    (ts.map WholeTerm.term).filterMap shownTerm? =
      (WholeTerm.derivatives ts).map fun t => t.term.chars := by
  induction ts with
  | nil => rfl
  | cons t ts ih =>
    have hrest := ih fun u hu => h u (List.mem_cons_of_mem t hu)
    rw [List.map_cons, List.filterMap_cons, shownTerm?_exact (h t List.mem_cons_self), hrest]
    by_cases hpower : t.power = 0 <;> simp [WholeTerm.derivatives, hpower]

/-! ## The solver -/

open Stepwise.Polynomial

/-- The answer to the derivative of a polynomial. -/
theorem exists_solve {inner : List Char} (hne : inner ≠ []) (h : '\n' ∉ inner) :
    ∃ a, solve ("d/dx(" ++ String.ofList inner ++ ")") = .ok a ∧
      a.final = String.ofList (writeSum ((readTerms inner).filterMap shownTerm?)) := by
  rw [solve, Call.derivative?_call hne h]
  exact ⟨_, rfl, rfl⟩

variable {terms : List WholeTerm}

/-- **The derivative of a polynomial of whole terms** is the sum of their derivatives. -/
theorem exists_solve_whole (h : ∀ t ∈ terms, t.Differentiable) :
    ∃ a, solve ("d/dx(" ++ String.ofList (wholeChars terms) ++ ")") = .ok a ∧
      a.final = String.ofList (wholeChars (WholeTerm.derivatives terms)) := by
  have hexact : ∀ t ∈ terms, t.Exact := fun t ht => (h t ht).exact
  have hline : '\n' ∉ wholeChars terms := fun hmem =>
    absurd (of_mem_wholeChars hexact hmem) (by decide)
  obtain ⟨a, ha, hfinal⟩ := exists_solve (wholeChars_ne_nil terms) hline
  refine ⟨a, ha, ?_⟩
  by_cases hempty : terms = []
  · -- The empty sum is written as a zero, whose derivative is left out.
    subst hempty
    rw [hfinal]
    decide +kernel
  · rw [hfinal, readTerms_whole hempty hexact, filterMap_shownTerm? h, wholeChars]

/-- **The answer to a derivative is read as the derivatives of the terms** in their order, or as a
single zero if all of them are constants. -/
theorem readTerms_of_solve (h : ∀ t ∈ terms, t.Differentiable) :
    ∃ a, solve ("d/dx(" ++ String.ofList (wholeChars terms) ++ ")") = .ok a ∧
      readTerms a.final.toList =
        if ∀ t ∈ terms, t.power = 0 then [⟨0, 0⟩]
        else (terms.filter fun t => t.power ≠ 0).map fun t =>
          ⟨.ofInt (t.coefficient * t.power), .ofNat (t.power - 1)⟩ := by
  obtain ⟨a, ha, hfinal⟩ := exists_solve_whole h
  refine ⟨a, ha, ?_⟩
  rw [hfinal, String.toList_ofList]
  by_cases hconstants : ∀ t ∈ terms, t.power = 0
  · have hnone : WholeTerm.derivatives terms = [] := by
      rw [WholeTerm.derivatives, List.map_eq_nil_iff, List.filter_eq_nil_iff]
      intro t ht
      simp [hconstants t ht]
    rw [if_pos hconstants, hnone]
    decide +kernel
  · have hsome : WholeTerm.derivatives terms ≠ [] := by
      rw [WholeTerm.derivatives, Ne, List.map_eq_nil_iff, List.filter_eq_nil_iff]
      simpa using hconstants
    have hexact : ∀ u ∈ WholeTerm.derivatives terms, u.Exact := by
      intro u hu
      obtain ⟨t, ht, rfl⟩ := List.mem_map.mp hu
      exact (h t (List.mem_of_mem_filter ht)).exact_derivative
    rw [if_neg hconstants, readTerms_whole hsome hexact, WholeTerm.derivatives, List.map_map]
    rfl

/-- Units, a constant, a first power and a repeated power. -/
theorem readTerms_of_solve_mixed :
    (∀ t ∈ [WholeTerm.mk (-1) 3, ⟨5, 0⟩, ⟨2, 1⟩, ⟨-1, 3⟩, ⟨7, 10⟩], t.Differentiable) ∧
      ∃ a, solve "d/dx(-x^3 + 5 + 2x - x^3 + 7x^10)" = .ok a ∧
        readTerms a.final.toList =
          [⟨.ofInt (-3), 2⟩, ⟨2, 0⟩, ⟨.ofInt (-3), 2⟩, ⟨70, 9⟩] := by
  have h : ∀ t ∈ [WholeTerm.mk (-1) 3, ⟨5, 0⟩, ⟨2, 1⟩, ⟨-1, 3⟩, ⟨7, 10⟩], t.Differentiable := by
    decide
  obtain ⟨a, ha, hread⟩ := readTerms_of_solve h
  have htext : String.ofList (wholeChars
      [WholeTerm.mk (-1) 3, ⟨5, 0⟩, ⟨2, 1⟩, ⟨-1, 3⟩, ⟨7, 10⟩]) =
      "-x^3 + 5 + 2x - x^3 + 7x^10" := by decide +kernel
  rw [htext] at ha
  exact ⟨h, a, ha, hread.trans (by decide +kernel)⟩

end Derivative

end Stepwise
