/-
# Exactness of Simpson's rule

Over exact numbers the rule has no error for polynomials up to the third power.  The weights are put
in place by two passes over a list of ones, which leaves `1, 4, 2, …, 2, 4, 1`.  With these weights
the sum falls into panels of two subintervals each.  A panel is the exact integral between its ends,
and the panels telescope.

* `Simpson.weights_eq` : the weights, place by place;
* `Simpson.sum_weight_eq` : the weighted sum by panels;
* `Simpson.panel_eq` : a panel is the difference of a primitive at its ends;
* `Simpson.rule`, `Simpson.integral_eq_rule` : the rule as it is written down;
* `Simpson.integral_of_cubic` : the rule is exact up to the third power.
-/
import Mathlib.Analysis.Calculus.Deriv.Mul
import Mathlib.Analysis.Calculus.Deriv.Pow
import Mathlib.MeasureTheory.Integral.IntervalIntegral.FundThmCalculus
import Mathlib.Topology.Algebra.Polynomial
import Stepwise.Analysis.Simpson

namespace Stepwise.Simpson

/-! ## Weights -/

/-- How often the sample at a place counts, of `n` subintervals. -/
def weight (n i : ℕ) : ℕ := if i = 0 ∨ i = n then 1 else if i % 2 = 1 then 4 else 2

@[simp] theorem length_fillInner (start step value : ℕ) (xs : List ℕ) :
    (fillInner start step value xs).length = xs.length := by
  simp [fillInner]

theorem getElem_fillInner (start step value : ℕ) (xs : List ℕ) (i : ℕ)
    (h : i < (fillInner start step value xs).length) :
    (fillInner start step value xs)[i] =
      if start ≤ i ∧ i < xs.length - 1 ∧ (i - start) % step = 0 then value
      else xs.get ⟨i, by simpa using h⟩ := by
  simp [fillInner]

/-- **The two passes leave ones at the ends** and fours and twos in turn between them. -/
theorem weights_eq (n : ℕ) : weights n = (List.range (n + 1)).map (weight n) := by
  refine List.ext_getElem (by simp [weights]) fun i hi hi' => ?_
  have hle : i ≤ n := by simpa [weights, Nat.lt_succ_iff] using hi
  simp only [weights, getElem_fillInner, List.length_replicate, length_fillInner,
    List.get_eq_getElem, List.getElem_replicate, List.getElem_map, List.getElem_range, weight]
  split_ifs <;> omega

example : weights 6 = [1, 4, 2, 4, 2, 4, 1] := by decide

/-! ## Panels -/

theorem foldl_add_range (g : ℕ → ℚ) (n : ℕ) :
    ((List.range n).map g).foldl (· + ·) 0 = ∑ i ∈ Finset.range n, g i := by
  rw [← List.sum_eq_foldl]
  rfl

/-- The weighted sum of exact samples. -/
theorem weightedSum_eq (n : ℕ) (g : ℕ → ℚ) :
    weightedSum (fun k => (k : ℚ)) n ((List.range (n + 1)).map g) =
      ∑ i ∈ Finset.range (n + 1), (weight n i : ℚ) * g i := by
  simp only [weightedSum, weights_eq, List.zipWith_map, List.zipWith_self, Nat.cast_zero]
  exact foldl_add_range _ _

/-- **The weighted sum by panels** of two subintervals each. -/
theorem sum_weight_eq (g : ℕ → ℚ) {m : ℕ} (hm : 1 ≤ m) :
    ∑ i ∈ Finset.range (2 * m + 1), (weight (2 * m) i : ℚ) * g i =
      ∑ j ∈ Finset.range m, (g (2 * j) + 4 * g (2 * j + 1) + g (2 * j + 2)) := by
  -- Up to its last place the sum does not depend on where it ends, so that it can be continued.
  have hinner (k : ℕ) {i : ℕ} (hi : i < 2 * k) :
      weight (2 * k) i = if i = 0 then 1 else if i % 2 = 1 then 4 else 2 := by
    have hne : i ≠ 2 * k := hi.ne
    simp [weight, hne]
  have hlast (k : ℕ) : ∑ i ∈ Finset.range (2 * k + 1), (weight (2 * k) i : ℚ) * g i =
      ∑ i ∈ Finset.range (2 * k),
          ((if i = 0 then 1 else if i % 2 = 1 then 4 else 2 : ℕ) : ℚ) * g i +
        g (2 * k) := by
    rw [Finset.sum_range_succ]
    congr 1
    · exact Finset.sum_congr rfl fun i hi => by rw [hinner k (Finset.mem_range.mp hi)]
    · simp [weight]
  rw [hlast]
  induction m, hm using Nat.le_induction with
  | base => simp [Finset.sum_range_succ]
  | succ m hm ih =>
    have hpos : 2 * m ≠ 0 := by omega
    rw [Finset.sum_range_succ _ m, ← ih, show 2 * (m + 1) = 2 * m + 1 + 1 by ring,
      Finset.sum_range_succ, Finset.sum_range_succ]
    simp only [hpos, Nat.mul_mod_right, Nat.add_eq_zero_iff, Nat.mul_add_mod_self_left]
    norm_num
    ring

/-! ## Polynomials up to the third power -/

section Cubic

variable {K : Type} [Field K] {f : Polynomial K}

theorem eval_of_cubic (hf : f.natDegree ≤ 3) (x : K) :
    f.eval x = f.coeff 0 + f.coeff 1 * x + f.coeff 2 * x ^ 2 + f.coeff 3 * x ^ 3 := by
  rw [Polynomial.eval_eq_sum_range' (Nat.lt_succ_of_le hf)]
  simp [Finset.sum_range_succ]

/-- A primitive of a polynomial up to the third power. -/
def primitive (f : Polynomial K) (x : K) : K :=
  ∑ i ∈ Finset.range 4, f.coeff i / (i + 1 : ℕ) * x ^ (i + 1)

/-- **A panel is the difference of a primitive at its ends.** -/
theorem panel_eq [CharZero K] (hf : f.natDegree ≤ 3) (x h : K) :
    h / 3 * (f.eval x + 4 * f.eval (x + h) + f.eval (x + 2 * h)) =
      primitive f (x + 2 * h) - primitive f x := by
  simp only [eval_of_cubic hf, primitive, Finset.sum_range_succ, Finset.sum_range_zero]
  push_cast
  field_simp
  ring

end Cubic

variable {f : Polynomial ℚ} {a b : ℚ} {n : ℕ}

theorem hasDerivAt_primitive (c : Polynomial ℝ) (x : ℝ) :
    HasDerivAt (primitive c) (∑ i ∈ Finset.range 4, c.coeff i * x ^ i) x := by
  refine HasDerivAt.fun_sum fun i _ => ?_
  have hpower := (hasDerivAt_pow (i + 1) x).const_mul (c.coeff i / (i + 1 : ℕ))
  refine hpower.congr_deriv ?_
  rw [Nat.add_sub_cancel]
  field_simp

/-- The exact integral by a primitive. -/
theorem intervalIntegral_eq (hf : f.natDegree ≤ 3) (a b : ℚ) :
    ∫ x in (a : ℝ)..b, (f.map (algebraMap ℚ ℝ)).eval x =
      ((primitive f b - primitive f a : ℚ) : ℝ) := by
  have hdegree : (f.map (algebraMap ℚ ℝ)).natDegree ≤ 3 := Polynomial.natDegree_map_le.trans hf
  have hderiv (x : ℝ) : HasDerivAt (primitive (f.map (algebraMap ℚ ℝ)))
      ((f.map (algebraMap ℚ ℝ)).eval x) x := by
    rw [Polynomial.eval_eq_sum_range' (Nat.lt_succ_of_le hdegree)]
    exact hasDerivAt_primitive _ x
  rw [intervalIntegral.integral_eq_sub_of_hasDerivAt (fun x _ => hderiv x)
    ((Polynomial.continuous _).intervalIntegrable _ _)]
  simp [primitive]

/-! ## The rule -/

/-- The points of the rule.  The last one and those of a step that vanishes are no exceptions over
exact numbers. -/
theorem points_eq (hn : n ≠ 0) (a b : ℚ) :
    points (fun k => (k : ℚ)) (fun q => decide (q = 0)) a b n =
      (List.range (n + 1)).map fun i : ℕ => a + i * ((b - a) / n) := by
  have hn' : (n : ℚ) ≠ 0 := Nat.cast_ne_zero.mpr hn
  refine List.map_congr_left fun i _ => ?_
  split_ifs with hlast hstep
  · rw [hlast.1]
    field_simp
    ring
  · field_simp
    ring
  · ring

/-- The rule as it is written down, for a function over exact numbers: a third of the width `h`
times the weighted values at the points `a + i * h`. -/
def rule (g : ℚ → ℚ) (a b : ℚ) (n : ℕ) : ℚ :=
  let h := (b - a) / n
  h / 3 * ∑ i ∈ Finset.range (n + 1), ((weights n).getD i 0 : ℚ) * g (a + i * h)

theorem rule_eq_sum (g : ℚ → ℚ) (a b : ℚ) (n : ℕ) : rule g a b n =
    (b - a) / n / 3 *
      ∑ i ∈ Finset.range (n + 1), (weight n i : ℚ) * g (a + i * ((b - a) / n)) := by
  refine congrArg ((b - a) / n / 3 * ·) (Finset.sum_congr rfl fun i hi => ?_)
  have hi' : i < n + 1 := Finset.mem_range.mp hi
  simp [weights_eq, hi']

/-- What is computed from exact samples follows the rule. -/
theorem integral_eq_rule (hn : n ≠ 0) (g : ℚ → ℚ) (a b : ℚ) :
    integral (fun k => (k : ℚ)) a b n
      ((points (fun k => (k : ℚ)) (fun q => decide (q = 0)) a b n).map g) = rule g a b n := by
  rw [rule_eq_sum, integral, points_eq hn, List.map_map, weightedSum_eq]
  norm_num

/-- The panels telescope to the difference of a primitive at the bounds. -/
theorem rule_eq_primitive (hf : f.natDegree ≤ 3) (a b : ℚ) (heven : Even n) (hn : 2 ≤ n) :
    rule (fun x => f.eval x) a b n = primitive f b - primitive f a := by
  obtain ⟨m, rfl⟩ := heven.exists_two_nsmul
  rw [smul_eq_mul] at hn ⊢
  have hm : (m : ℚ) ≠ 0 := Nat.cast_ne_zero.mpr (by omega)
  obtain ⟨h, hh⟩ : ∃ h, h = (b - a) / ((2 * m : ℕ) : ℚ) := ⟨_, rfl⟩
  have hends : b = a + m * (2 * h) := by
    rw [hh]
    push_cast
    field_simp
    ring
  have hpanel (j : ℕ) : h / 3 * (f.eval (a + (2 * j : ℕ) * h) +
      4 * f.eval (a + (2 * j + 1 : ℕ) * h) + f.eval (a + (2 * j + 2 : ℕ) * h)) =
      primitive f (a + (j + 1 : ℕ) * (2 * h)) - primitive f (a + j * (2 * h)) := by
    have hpanel := panel_eq hf (a + j * (2 * h)) h
    push_cast
    ring_nf at hpanel ⊢
    exact hpanel
  calc rule (fun x => f.eval x) a b (2 * m)
      = h / 3 * ∑ j ∈ Finset.range m, (f.eval (a + (2 * j : ℕ) * h) +
          4 * f.eval (a + (2 * j + 1 : ℕ) * h) + f.eval (a + (2 * j + 2 : ℕ) * h)) := by
        rw [rule_eq_sum, ← hh, sum_weight_eq (fun i => f.eval (a + i * h)) (by omega)]
    _ = ∑ j ∈ Finset.range m,
          (primitive f (a + (j + 1 : ℕ) * (2 * h)) - primitive f (a + j * (2 * h))) := by
        rw [Finset.mul_sum]
        exact Finset.sum_congr rfl fun j _ => hpanel j
    _ = primitive f (a + m * (2 * h)) - primitive f (a + (0 : ℕ) * (2 * h)) :=
        Finset.sum_range_sub (fun j : ℕ => primitive f (a + j * (2 * h))) m
    _ = primitive f b - primitive f a := by
        rw [← hends, Nat.cast_zero, zero_mul, add_zero]

/-- **The rule is exact up to the third power.**  What is computed from exact samples follows the
rule as it is written down, and this is the integral. -/
theorem integral_of_cubic (hf : f.natDegree ≤ 3) (a b : ℚ) (heven : Even n) (hn : 2 ≤ n) :
    integral (fun k => (k : ℚ)) a b n
      ((points (fun k => (k : ℚ)) (fun q => decide (q = 0)) a b n).map fun x => f.eval x) =
        rule (fun x => f.eval x) a b n ∧
    (rule (fun x => f.eval x) a b n : ℝ) =
      ∫ x in (a : ℝ)..b, (f.map (algebraMap ℚ ℝ)).eval x := by
  have hn' : n ≠ 0 := by omega
  refine ⟨integral_eq_rule hn' _ a b, ?_⟩
  rw [rule_eq_primitive hf a b heven hn, intervalIntegral_eq hf]

/-- The cube over four subintervals, from an upper to a lower bound. -/
theorem integral_of_cube_backwards :
    (Polynomial.X ^ 3 : Polynomial ℚ).natDegree ≤ 3 ∧ Even 4 ∧ 2 ≤ 4 ∧
    ((integral (fun k => (k : ℚ)) 3 (-1) 4
      ((points (fun k => (k : ℚ)) (fun q => decide (q = 0)) 3 (-1) 4).map
        fun x => (Polynomial.X ^ 3 : Polynomial ℚ).eval x) : ℚ) : ℝ) =
      ∫ x in ((3 : ℚ) : ℝ)..((-1 : ℚ) : ℝ),
        ((Polynomial.X ^ 3 : Polynomial ℚ).map (algebraMap ℚ ℝ)).eval x := by
  have hf : (Polynomial.X ^ 3 : Polynomial ℚ).natDegree ≤ 3 := by simp
  have hexact := integral_of_cubic hf 3 (-1) (n := 4) (by decide) (by decide)
  refine ⟨hf, by decide, by decide, ?_⟩
  rw [hexact.1]
  exact hexact.2

end Stepwise.Simpson
