/-
# Rational roots of cubic polynomials

In lowest terms, the numerator of a rational root divides the constant term and the denominator
divides the leading coefficient.  Every rational root is therefore a candidate, and a search that
calculates exactly finds one, or stops even earlier at a candidate that is close enough.

* `Cubic.polynomialAt` : the value of a cubic polynomial;
* `Cubic.num_dvd_of_root`, `Cubic.den_dvd_of_root` : the parts of a rational root;
* `Cubic.mem_candidatesOf` : the candidates;
* `Cubic.exactArithmetic` : the arithmetic of rationals;
* `Cubic.search_of_rational_root` : rational roots are candidates, and the exact search succeeds.
-/
import Stepwise.Equation.Cubic
import Stepwise.Proofs.Double.Power
import Stepwise.Proofs.Equation.Divisors
import Stepwise.Proofs.Problem.Outcome

namespace Stepwise

/-! ## Lists without repetitions in a row -/

section EraseReps

variable {α : Type} [BEq α]

/-- The loop keeps what was kept before and some of what is still to come, in this order. -/
theorem eraseRepsBy_loop_sublist (x : α) (list kept : List α) :
    (List.eraseRepsBy.loop (· == ·) x list kept).Sublist (kept.reverse ++ x :: list) := by
  induction list generalizing x kept with
  | nil => simp [List.eraseRepsBy.loop]
  | cons y list ih =>
    simp only [List.eraseRepsBy.loop]
    split
    · exact (ih x kept).trans
        ((List.Sublist.refl _).append ((List.sublist_cons_self y list).cons_cons x))
    · simpa using ih y (x :: kept)

/-- Only repetitions are dropped, and the order stays. -/
theorem eraseReps_sublist (list : List α) : list.eraseReps.Sublist list := by
  cases list with
  | nil => exact .refl _
  | cons x list => exact eraseRepsBy_loop_sublist x list []

variable [LawfulBEq α]

theorem mem_eraseRepsBy_loop {x y : α} {list kept : List α} :
    y ∈ List.eraseRepsBy.loop (· == ·) x list kept ↔ y ∈ kept ∨ y = x ∨ y ∈ list := by
  induction list generalizing x kept with
  | nil => simp [List.eraseRepsBy.loop, or_comm]
  | cons z list ih =>
    simp only [List.eraseRepsBy.loop, List.mem_cons]
    split
    · next heq =>
      obtain rfl : x = z := eq_of_beq heq
      rw [ih]
      tauto
    · rw [ih, List.mem_cons]
      tauto

theorem mem_eraseReps {y : α} {list : List α} : y ∈ list.eraseReps ↔ y ∈ list := by
  cases list with
  | nil => exact Iff.rfl
  | cons x list =>
    refine mem_eraseRepsBy_loop.trans ?_
    simp

end EraseReps

namespace Cubic

/-! ## Numerator and denominator of a root -/

/-- The value of a cubic polynomial with whole coefficients. -/
def polynomialAt {R : Type} [CommRing R] (a b c d : ℤ) (x : R) : R :=
  a * x ^ 3 + b * x ^ 2 + c * x + d

theorem polynomialAt_cast (a b c d : ℤ) (x : ℚ) :
    ((polynomialAt a b c d x : ℚ) : ℝ) = polynomialAt a b c d (x : ℝ) := by
  simp [polynomialAt]

section Root

variable {a b c d : ℤ} {x : ℚ} (hroot : polynomialAt a b c d x = 0)

include hroot

/-- The equation of a root `p / q`, multiplied by the cube of `q`. -/
theorem cleared_of_root :
    a * x.num ^ 3 + b * x.num ^ 2 * x.den + c * x.num * x.den ^ 2 + d * x.den ^ 3 = 0 := by
  have hx : x * x.den = x.num := Rat.mul_den_eq_num x
  have hcleared : (a * x.num ^ 3 + b * x.num ^ 2 * x.den + c * x.num * x.den ^ 2
      + d * x.den ^ 3 : ℚ) = polynomialAt a b c d x * x.den ^ 3 := by
    rw [polynomialAt, ← hx]
    ring
  rw [hroot, zero_mul] at hcleared
  exact_mod_cast hcleared

theorem num_dvd_of_root : x.num ∣ d := by
  have hcleared := cleared_of_root hroot
  have hproduct : x.num ∣ d * x.den ^ 3 :=
    ⟨-(a * x.num ^ 2 + b * x.num * x.den + c * x.den ^ 2), by linarith⟩
  exact (x.isCoprime_num_den.pow_right).dvd_of_dvd_mul_right hproduct

theorem den_dvd_of_root : (x.den : ℤ) ∣ a := by
  have hcleared := cleared_of_root hroot
  have hproduct : (x.den : ℤ) ∣ a * x.num ^ 3 :=
    ⟨-(b * x.num ^ 2 + c * x.num * x.den + d * x.den ^ 2), by linarith⟩
  exact (x.isCoprime_num_den.symm.pow_right).dvd_of_dvd_mul_right hproduct

end Root

/-! ## Candidates -/

theorem mem_quotients {a d : Nat} (ha : 0 < a) (hd : 0 < d) {p q : Nat} :
    (p, q) ∈ quotients a d ↔ p ∣ d ∧ q ∣ a := by
  simp [quotients, mem_divisors ha, mem_divisors hd]

section Candidates

variable {α : Type} [Neg α] [DecidableEq α] {ofQuotient : Nat → Nat → α} {a d : ℤ}

/-- The candidates are the quotients of divisors, with both signs. -/
theorem mem_candidatesOf (ha : a ≠ 0) (hd : d ≠ 0) {x : α} :
    x ∈ candidatesOf ofQuotient a d ↔
      ∃ p q : Nat, p ∣ d.natAbs ∧ q ∣ a.natAbs ∧ (x = ofQuotient p q ∨ x = -ofQuotient p q) := by
  have ha' : 0 < a.natAbs := Int.natAbs_pos.mpr ha
  have hd' : 0 < d.natAbs := Int.natAbs_pos.mpr hd
  simp only [candidatesOf, if_neg ha, if_neg hd, List.mem_flatMap, mem_eraseReps, List.mem_map,
    Prod.exists, mem_quotients ha' hd', List.mem_cons, List.not_mem_nil, or_false]
  constructor
  · rintro ⟨y, ⟨p, q, ⟨hp, hq⟩, rfl⟩, hx⟩
    exact ⟨p, q, hp, hq, hx⟩
  · rintro ⟨p, q, hp, hq, hx⟩
    exact ⟨_, ⟨p, q, ⟨hp, hq⟩, rfl⟩, hx⟩

theorem candidatesOf_zero (ha : a ≠ 0) : candidatesOf ofQuotient a 0 = [ofQuotient 0 1] := by
  simp [candidatesOf, ha]

/-- The candidates of outer coefficients that are whole. -/
theorem candidates_of_represents {a' d' : Double} (ha : a'.Represents a) (hd : d'.Represents d) :
    candidates a' d' = candidatesOf (Double.roundQuotient false) a d := by
  rw [candidates, Double.toInt?_of_represents ha, Double.toInt?_of_represents hd]

/-- The parts of a rational root make two candidates of opposite signs. -/
theorem candidates_of_root {b c : ℤ} (ha : a ≠ 0) (hd : d ≠ 0) {x : ℚ}
    (hroot : polynomialAt a b c d x = 0) :
    ofQuotient x.num.natAbs x.den ∈ candidatesOf ofQuotient a d ∧
      -ofQuotient x.num.natAbs x.den ∈ candidatesOf ofQuotient a d := by
  have hp : x.num.natAbs ∣ d.natAbs := Int.natAbs_dvd_natAbs.mpr (num_dvd_of_root hroot)
  have hq : x.den ∣ a.natAbs := by
    simpa using Int.natAbs_dvd_natAbs.mpr (den_dvd_of_root hroot)
  exact ⟨(mem_candidatesOf ha hd).mpr ⟨_, _, hp, hq, .inl rfl⟩,
    (mem_candidatesOf ha hd).mpr ⟨_, _, hp, hq, .inr rfl⟩⟩

end Candidates

/-- The quotient as a rational. -/
def ratio (p q : Nat) : ℚ := p / q

theorem ratio_natAbs_den (x : ℚ) : ratio x.num.natAbs x.den = |x| := Double.natAbs_num_div_den x

/-- A rational root is a candidate. -/
theorem mem_candidatesOf_of_root {a b c d : ℤ} (ha : a ≠ 0) (hd : d ≠ 0) {x : ℚ}
    (hroot : polynomialAt a b c d x = 0) : x ∈ candidatesOf ratio a d := by
  obtain ⟨hpositive, hnegative⟩ : ratio x.num.natAbs x.den ∈ candidatesOf ratio a d ∧
      -ratio x.num.natAbs x.den ∈ candidatesOf ratio a d := candidates_of_root ha hd hroot
  rw [ratio_natAbs_den] at hpositive hnegative
  rcases abs_choice x with habs | habs
  · rwa [habs] at hpositive
  · rwa [habs, neg_neg] at hnegative

/-- Among doubles the rounded root is a candidate. -/
theorem round_mem_candidates_of_root {a b c d : ℤ} (ha : a ≠ 0) (hd : d ≠ 0) {x : ℚ}
    (hroot : polynomialAt a b c d x = 0) {a' d' : Double} (ha' : a'.Represents a)
    (hd' : d'.Represents d) : Double.round false x ∈ candidates a' d' := by
  have hx : x ≠ 0 := by
    rintro rfl
    simp [polynomialAt, hd] at hroot
  have hmagnitude : Double.roundQuotient false x.num.natAbs x.den = Double.round false |x| := by
    rw [Double.roundQuotient_eq_round x.den_pos, Double.natAbs_num_div_den]
  rw [candidates_of_represents ha' hd']
  obtain ⟨hpositive, hnegative⟩ :
      Double.roundQuotient false x.num.natAbs x.den ∈
          candidatesOf (Double.roundQuotient false) a d ∧
        -Double.roundQuotient false x.num.natAbs x.den ∈
          candidatesOf (Double.roundQuotient false) a d := candidates_of_root ha hd hroot
  rw [hmagnitude] at hpositive hnegative
  rcases abs_choice x with habs | habs
  · rwa [habs] at hpositive
  · rwa [habs, Double.round_neg hx, Double.neg_neg] at hnegative

/-! ## Search with exact arithmetic -/

/-- The arithmetic of rationals, in which everything nearer to zero than `tolerance` is small. -/
def exactArithmetic (tolerance : ℚ) : Arithmetic ℚ :=
  ⟨(· + ·), (· * ·), fun x n => .ok (x ^ n), fun x => decide (|x| < tolerance)⟩

theorem valueAt_exact (tolerance : ℚ) (a b c d : ℤ) (x : ℚ) :
    valueAt (exactArithmetic tolerance) a b c d x = .ok (polynomialAt a b c d x) := rfl

/-- The exact search finds a candidate that is close enough, if there is one. -/
theorem firstRoot?_exact {tolerance : ℚ} {a b c d : ℤ} {xs : List ℚ}
    (h : ∃ x ∈ xs, |polynomialAt a b c d x| < tolerance) :
    ∃ x ∈ xs, |polynomialAt a b c d x| < tolerance ∧
      firstRoot? (exactArithmetic tolerance) a b c d xs = .ok (some x) := by
  induction xs with
  | nil =>
    obtain ⟨x, hx, -⟩ := h
    cases hx
  | cons y ys ih =>
    by_cases hsmall : |polynomialAt a b c d y| < tolerance
    · refine ⟨y, List.mem_cons_self, hsmall, ?_⟩
      simp only [firstRoot?, valueAt_exact]
      exact if_pos (decide_eq_true hsmall)
    · obtain ⟨x, hx, hclose⟩ := h
      have hrest : x ∈ ys := by
        rcases List.mem_cons.mp hx with rfl | hrest
        · exact absurd hclose hsmall
        · exact hrest
      obtain ⟨z, hz, hzsmall, hfound⟩ := ih ⟨x, hrest, hclose⟩
      refine ⟨z, List.mem_cons_of_mem y hz, hzsmall, ?_⟩
      simp only [firstRoot?, valueAt_exact]
      rw [← hfound]
      exact if_neg (by simpa [exactArithmetic] using not_lt.mp hsmall)

/-- What is found is not missing. -/
theorem root?_of_found {α : Type} {n : Arithmetic α} {mayApproximate : Bool} {a b c d x : α}
    {xs : List α} (h : firstRoot? n a b c d xs = .ok (some x)) :
    root? n mayApproximate a b c d xs = .ok (some x) := by
  rw [root?, h]
  rfl

/-- A root that has been found is divided out or leaves a remainder. -/
theorem failsOnly_answerFromRoot (settings : Settings) (equation : String) (k : Coefficients)
    (root : Double) :
    FailsOnly (· ≠ .failure .noRationalRoot) (answerFromRoot settings equation k root) := by
  unfold answerFromRoot
  refine .ite (fun _ => .error (by simp)) fun _ => ?_
  refine .bind (failsOnly_liftBreakdown _ _) fun solution _ => ?_
  exact .bind (failsOnly_liftBreakdown _ _) fun final _ => .ok _

/-- After a search that has found a root, the equation is not refused for want of one. -/
theorem solveFrom_ne_noRationalRoot (settings : Settings) (equation : String) (k : Coefficients)
    (root : Double) :
    (solveFrom settings equation k (.ok (some root))).outcome ≠
      .error (.failure .noRationalRoot) := by
  intro h
  have houtcome : (solveFrom settings equation k (.ok (some root))).outcome =
      answerFromRoot settings equation k root := Traced.outcome_bind _ _
  rw [houtcome] at h
  exact failsOnly_answerFromRoot settings equation k root _ h rfl

/-- The search for a rational root among exact numbers. -/
def exactSearch (settings : Settings) (tolerance : ℚ) (a b c d : ℤ) : Except Fault (Option ℚ) :=
  root? (exactArithmetic tolerance) settings.numericFallback a b c d (candidatesOf ratio a d)

/-- **Rational roots are found.**  Of a cubic polynomial with whole coefficients and a rational
root, every rational root is a candidate, exactly and rounded to a double, unless the constant term
is zero; then zero is the only candidate, and a root.  The exact search yields a candidate that is
close enough, whatever the tolerance is, and no equation is refused after it for want of a rational
root. -/
theorem search_of_rational_root {a b c d : ℤ} (ha : a ≠ 0)
    (hroot : ∃ x : ℚ, polynomialAt a b c d x = 0) :
    (d ≠ 0 → ∀ x : ℚ, polynomialAt a b c d x = 0 →
      x ∈ candidatesOf ratio a d ∧
        ∀ a' d' : Double, a'.Represents a → d'.Represents d →
          Double.round false x ∈ candidates a' d') ∧
    (d = 0 → polynomialAt a b c d (0 : ℚ) = 0 ∧ candidatesOf ratio a d = [0] ∧
        ∀ a' d' : Double, a'.Represents a → d'.Represents d → candidates a' d' = [.zero false]) ∧
    ∀ (settings : Settings) (tolerance : ℚ), 0 < tolerance →
      ∃ x ∈ candidatesOf ratio a d, |polynomialAt a b c d x| < tolerance ∧
        exactSearch settings tolerance a b c d = .ok (some x) ∧
        ∀ (equation : String) (k : Coefficients) (toDouble : ℚ → Double),
          (solveFrom settings equation k
            ((exactSearch settings tolerance a b c d).map (Option.map toDouble))).outcome ≠
              .error (.failure .noRationalRoot) := by
  have hzero : d = 0 → polynomialAt a b c d (0 : ℚ) = 0 ∧ candidatesOf ratio a d = [0] := by
    rintro rfl
    refine ⟨by simp [polynomialAt], ?_⟩
    rw [candidatesOf_zero ha]
    simp [ratio]
  refine ⟨fun hd x hx => ⟨mem_candidatesOf_of_root ha hd hx, fun a' d' ha' hd' =>
    round_mem_candidates_of_root ha hd hx ha' hd'⟩, fun hd => ?_, ?_⟩
  · obtain ⟨hvalue, hsingle⟩ := hzero hd
    refine ⟨hvalue, hsingle, fun a' d' ha' hd' => ?_⟩
    subst hd
    rw [candidates, Double.toInt?_of_represents ha', Double.toInt?_of_represents hd']
    exact candidatesOf_zero ha
  · intro settings tolerance htolerance
    have hcandidate : ∃ x ∈ candidatesOf ratio a d, polynomialAt a b c d x = 0 := by
      by_cases hd : d = 0
      · obtain ⟨hvalue, hsingle⟩ := hzero hd
        exact ⟨0, by rw [hsingle]; exact List.mem_singleton_self 0, hvalue⟩
      · obtain ⟨x, hx⟩ := hroot
        exact ⟨x, mem_candidatesOf_of_root ha hd hx, hx⟩
    obtain ⟨x, hx, hxroot⟩ := hcandidate
    have hclose : |polynomialAt a b c d x| < tolerance := by rwa [hxroot, abs_zero]
    obtain ⟨y, hy, hsmall, hfound⟩ := firstRoot?_exact ⟨x, hx, hclose⟩
    have hsearch : exactSearch settings tolerance a b c d = .ok (some y) := root?_of_found hfound
    refine ⟨y, hy, hsmall, hsearch, fun equation k toDouble => ?_⟩
    rw [hsearch]
    exact solveFrom_ne_noRationalRoot settings equation k (toDouble y)

/-- The root `1/2` of `2x^3 - 3x^2 - 3x + 2` is a candidate, and the exact search finds a root. -/
theorem search_of_one_half : (2 : ℤ) ≠ 0 ∧ polynomialAt 2 (-3) (-3) 2 (1 / 2 : ℚ) = 0 ∧
    (1 / 2 : ℚ) ∈ candidatesOf ratio 2 2 ∧ Double.round false (1 / 2) ∈ candidates 2 2 ∧
    ∃ x, exactSearch {} (1 / 10 ^ 9) 2 (-3) (-3) 2 = .ok (some x) := by
  have hroot : polynomialAt 2 (-3) (-3) 2 (1 / 2 : ℚ) = 0 := by
    norm_num [polynomialAt]
  have htwo : (2 : Double).Represents (2 : ℤ) := by decide +kernel
  obtain ⟨hall, -, hsearch⟩ := search_of_rational_root (b := -3) (c := -3) (d := 2)
    (show (2 : ℤ) ≠ 0 by decide) ⟨1 / 2, hroot⟩
  obtain ⟨hexact, hround⟩ := hall (by decide) _ hroot
  obtain ⟨x, -, -, hfound, -⟩ := hsearch {} (1 / 10 ^ 9) (by norm_num)
  exact ⟨by decide, hroot, hexact, hround 2 2 htwo htwo, x, hfound⟩

end Cubic

end Stepwise
