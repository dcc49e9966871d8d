/-
# Integrals that are all or nothing

A sample that cannot be evaluated is undefined.  It stays undefined in the weighted sum of any
length and after the scaling by any width, so that the integral is not answered.

* `Simpson.integral_of_undefined` : an undefined sample makes the whole rule undefined;
* `Definite.outcome_sampleAll` : samples are taken without faults;
* `Definite.Poses` : the integrand and the bounds that a problem is about;
* `Definite.all_or_nothing` : an integral is answered only if all its samples are numbers.
-/
import Stepwise.Proofs.Analysis.Simpson
import Stepwise.Proofs.Derivation.Steps
import Stepwise.Proofs.Problem.Outcome

namespace Stepwise

/-! ## Undefined sums -/

/-- Once undefined, a sum stays so. -/
theorem Double.foldl_nan (xs : List Double) : xs.foldl (· + ·) nan = nan := by
  induction xs with
  | nil => rfl
  | cons x xs ih => exact ih

/-- A sum with an undefined member is undefined. -/
theorem Double.foldl_of_nan_mem {xs : List Double} (h : nan ∈ xs) (sum : Double) :
    xs.foldl (· + ·) sum = nan := by
  induction xs generalizing sum with
  | nil => cases h
  | cons x xs ih =>
    rw [List.foldl_cons]
    rcases List.mem_cons.mp h with rfl | h
    · rw [add_nan, foldl_nan]
    · exact ih h _

namespace Simpson

theorem length_points (a b : Double) (n : Nat) :
    (points Double.ofNat Double.isZero a b n).length = n + 1 := by
  simp [points]

theorem length_weights (n : Nat) : (weights n).length = n + 1 := by
  simp [weights]

/-- **An undefined sample makes the rule undefined**, whatever its weight and the width. -/
theorem integral_of_undefined {n : Nat} {samples : List Double} (hlength : samples.length = n + 1)
    (h : .nan ∈ samples) (a b : Double) : integral Double.ofNat a b n samples = .nan := by
  have hmem : Double.nan ∈ List.zipWith (fun w x => Double.ofNat w * x) (weights n) samples := by
    obtain ⟨i, hi, hat⟩ := List.mem_iff_getElem.mp h
    refine List.mem_iff_getElem.mpr ⟨i, by simp [length_weights]; omega, ?_⟩
    rw [List.getElem_zipWith, hat, Double.mul_nan]
  rw [integral, weightedSum, Double.foldl_of_nan_mem hmem, Double.mul_nan]

end Simpson

/-- The value of a text is a number. -/
theorem Arithmetic.isNaN_of_value {settings : Settings} {s : List Char} {y : Double}
    (h : value settings s = .ok y) : y.isNaN = false := by
  cases hreduce : reduce settings s with
  | error f =>
    rw [value, hreduce] at h
    cases h
  | ok r =>
    rw [value, hreduce] at h
    cases h
    obtain ⟨e, -, -, he⟩ := of_reduce hreduce
    exact (Derivation.of_conclude he).2.2.1

namespace Definite

variable {settings : Settings} {problem : String} {integrand : List Char} {a b x : Double}

/-! ## Samples -/

/-- What an integrand is taken to be at a point. -/
def sampleValue (settings : Settings) (integrand : List Char) (x : Double) : Double :=
  match Arithmetic.value settings (substitute integrand x) with
  | .ok y => y
  | .error _ => .nan

theorem outcome_sample (settings : Settings) (integrand : List Char) (x : Double) :
    (sample settings integrand x).outcome = .ok (sampleValue settings integrand x) := by
  rw [sample, sampleValue]
  cases Arithmetic.value settings (substitute integrand x) <;> rfl

theorem sampleValue_of_ok {y : Double}
    (h : Arithmetic.value settings (substitute integrand x) = .ok y) :
    sampleValue settings integrand x = y := by
  rw [sampleValue, h]

theorem sampleValue_of_error {f : Failure}
    (h : Arithmetic.value settings (substitute integrand x) = .error f) :
    sampleValue settings integrand x = .nan := by
  rw [sampleValue, h]

/-- Samples are taken without faults. -/
theorem outcome_sampleAll (settings : Settings) (integrand : List Char) (xs : List Double) :
    (sampleAll settings integrand xs).outcome = .ok (xs.map (sampleValue settings integrand)) :=
  mapM_map_eq_ok fun x _ => outcome_sample settings integrand x

/-! ## The rule -/

theorem length_samplePoints (a b : Double) {n : Int} (hn : -1 ≤ n) :
    ((samplePoints a b n).length : Int) = n + 1 := by
  rw [samplePoints]
  split
  · simp
    omega
  · rw [Simpson.length_points]
    omega

/-- Without subintervals there are no points. -/
theorem pos_of_mem_samplePoints {n : Int} (hn : n ≠ 0) (hx : x ∈ samplePoints a b n) : 0 < n := by
  by_contra hnot
  rw [samplePoints, if_pos (by omega)] at hx
  cases hx

/-- A negative number of points is refused. -/
theorem le_of_approximate {n : Int} {value : Double}
    (h : (approximate settings integrand a b n).outcome = .ok value) : -1 ≤ n := by
  rw [approximate] at h
  split at h
  · cases h
  · omega

/-- An undefined sample of a positive number of subintervals leaves the integral undefined. -/
theorem outcome_approximate_of_undefined {n : Int} (hn : 0 < n) (hx : x ∈ samplePoints a b n)
    (h : sampleValue settings integrand x = .nan) :
    (approximate settings integrand a b n).outcome = .ok .nan := by
  have hlength : ((samplePoints a b n).map (sampleValue settings integrand)).length =
      n.toNat + 1 := by
    have hpoints := length_samplePoints a b (n := n) (by omega)
    rw [List.length_map]
    omega
  have hmem : .nan ∈ (samplePoints a b n).map (sampleValue settings integrand) :=
    List.mem_map.mpr ⟨x, hx, h⟩
  rw [approximate, if_neg (by omega)]
  refine Traced.outcome_bind_eq_ok.mpr ⟨_, outcome_sampleAll settings integrand _, ?_⟩
  rw [if_neg (by omega), if_neg (by omega), Simpson.integral_of_undefined hlength hmem]
  rfl

/-! ## Whole problems -/

/-- What a problem asks for: the integrand, and the numbers that its bounds are evaluated to. -/
def Poses (settings : Settings) (problem : String) (integrand : List Char) (a b : Double) : Prop :=
  ∃ parts, Call.definiteIntegral? problem.toList = some parts ∧ parts.integrand = integrand ∧
    (∃ steps, (evaluateBound settings "lower" parts.lower).outcome = .ok (a, steps)) ∧
    ∃ steps, (evaluateBound settings "upper" parts.upper).outcome = .ok (b, steps)

/-- A problem that is answered has finite bounds and a finite integral. -/
theorem exists_poses {answer : Answer} (h : (solve settings problem).outcome = .ok answer) :
    ∃ integrand a b, Poses settings problem integrand a b ∧ a.isFinite = true ∧
      b.isFinite = true ∧ settings.simpsonIntervals ≠ 0 ∧ ∃ value, value.isFinite = true ∧
        (approximate settings integrand a b settings.simpsonIntervals).outcome = .ok value := by
  rw [solve] at h
  split at h
  · cases h
  · next parts hcall =>
    obtain ⟨⟨a, lowerSteps⟩, hlower, h⟩ := Traced.outcome_bind_eq_ok.mp h
    obtain ⟨⟨b, upperSteps⟩, hupper, h⟩ := Traced.outcome_bind_eq_ok.mp h
    simp only at h
    split at h
    · cases h
    · next hbounds =>
      obtain ⟨step, hstep, h⟩ := Traced.outcome_bind_eq_ok.mp h
      obtain ⟨value, hvalue, h⟩ := Traced.outcome_bind_eq_ok.mp h
      split at h
      · cases h
      · next hfinite =>
        have hposes : Poses settings problem parts.integrand a b :=
          ⟨parts, hcall, rfl, ⟨lowerSteps, hlower⟩, ⟨upperSteps, hupper⟩⟩
        have hn : settings.simpsonIntervals ≠ 0 := by
          intro hzero
          rw [width, if_pos hzero] at hstep
          cases hstep
        simp only [Bool.not_eq_true, Bool.not_eq_false', Bool.and_eq_true] at hbounds
        exact ⟨parts.integrand, a, b, hposes, hbounds.1, hbounds.2, hn, value,
          by simpa using hfinite, hvalue⟩

/-- An integral that is undefined is not answered.  Without subintervals it is not even begun. -/
theorem outcome_solve_of_undefined (hposes : Poses settings problem integrand a b)
    (ha : a.isFinite = true) (hb : b.isFinite = true)
    (h : settings.simpsonIntervals ≠ 0 →
      (approximate settings integrand a b settings.simpsonIntervals).outcome = .ok .nan) :
    (solve settings problem).outcome = .error
      (if settings.simpsonIntervals = 0 then .breakdown .zeroDivision
        else .failure .nonFiniteIntegral) := by
  obtain ⟨parts, hcall, rfl, ⟨lowerSteps, hlower⟩, ⟨upperSteps, hupper⟩⟩ := hposes
  simp only [solve, hcall, Traced.outcome_bind, hlower, hupper, Except.bind, ha, hb, Bool.and_self,
    Bool.not_true, Bool.false_eq_true, if_false]
  by_cases hn : settings.simpsonIntervals = 0
  · rw [if_pos hn, width, if_pos hn]
    rfl
  · rw [if_neg hn, width, if_neg hn]
    simp only [h hn]
    rfl

/-- **An integral is answered only if all its samples are numbers.**  Then its bounds are finite and
there is one sample more than there are subintervals.  A sample that cannot be evaluated leaves the
integral without an answer, however wide it is. -/
theorem all_or_nothing (settings : Settings) (problem : String) :
    (∀ answer, (solve settings problem).outcome = .ok answer →
      ∃ integrand a b, Poses settings problem integrand a b ∧
        a.isFinite = true ∧ b.isFinite = true ∧
        ((samplePoints a b settings.simpsonIntervals).length : Int) =
          settings.simpsonIntervals + 1 ∧
        ∀ x ∈ samplePoints a b settings.simpsonIntervals, ∃ y,
          Arithmetic.value settings (substitute integrand x) = .ok y ∧ y.isNaN = false ∧
          (sample settings integrand x).outcome = .ok y) ∧
    ∀ integrand a b, Poses settings problem integrand a b → a.isFinite = true → b.isFinite = true →
      ∀ x ∈ samplePoints a b settings.simpsonIntervals,
        ∀ failure, Arithmetic.value settings (substitute integrand x) = .error failure →
          (solve settings problem).outcome = .error
            (if settings.simpsonIntervals = 0 then .breakdown .zeroDivision
              else .failure .nonFiniteIntegral) := by
  constructor
  · intro answer hanswer
    obtain ⟨integrand, a, b, hposes, ha, hb, hn, value, hfinite, hvalue⟩ := exists_poses hanswer
    refine ⟨integrand, a, b, hposes, ha, hb, length_samplePoints a b (le_of_approximate hvalue),
      fun x hx => ?_⟩
    cases hsample : Arithmetic.value settings (substitute integrand x) with
    | ok y =>
      refine ⟨y, rfl, Arithmetic.isNaN_of_value hsample, ?_⟩
      rw [outcome_sample, sampleValue_of_ok hsample]
    | error failure =>
      rw [outcome_approximate_of_undefined (pos_of_mem_samplePoints hn hx) hx
        (sampleValue_of_error hsample)] at hvalue
      cases hvalue
      cases hfinite
  · intro integrand a b hposes ha hb x hx failure hfailure
    exact outcome_solve_of_undefined hposes ha hb fun hn =>
      outcome_approximate_of_undefined (pos_of_mem_samplePoints hn hx) hx
        (sampleValue_of_error hfailure)

/-- The square is a number at all three points from `0` to `3`.  The pole of `1/x` is no point where
it can be evaluated, and its integral from there to the same place is not answered as zero. -/
theorem answered_square_and_pole :
    (∃ answer, (solve { simpsonIntervals := 2 } "integrate(x^2, 0, 3)").outcome = .ok answer ∧
      answer.final = "9.000000" ∧
      ∃ integrand a b, Poses { simpsonIntervals := 2 } "integrate(x^2, 0, 3)" integrand a b ∧
        ((samplePoints a b 2).length : Int) = 3 ∧
        ∀ x ∈ samplePoints a b 2, ∃ y, y.isNaN = false ∧
          (sample { simpsonIntervals := 2 } integrand x).outcome = .ok y) ∧
    Poses {} "integrate(1/x, 0, 0)" "1/x".toList (.zero false) (.zero false) ∧
    .zero false ∈ samplePoints (.zero false) (.zero false) 1000 ∧
    (∃ failure, Arithmetic.value {} (substitute "1/x".toList (.zero false)) = .error failure) ∧
    (solve {} "integrate(1/x, 0, 0)").outcome = .error (.failure .nonFiniteIntegral) := by
  have hfinal : ((solve { simpsonIntervals := 2 } "integrate(x^2, 0, 3)").outcome.map
      Answer.final).toOption = some "9.000000" := by decide +kernel
  have hposes : Poses {} "integrate(1/x, 0, 0)" "1/x".toList (.zero false) (.zero false) :=
    ⟨⟨"1/x".toList, "0".toList, "0".toList⟩, by decide +kernel, rfl,
      ⟨[], eq_ok_of_toOption (by decide +kernel)⟩, ⟨[], eq_ok_of_toOption (by decide +kernel)⟩⟩
  have hpoint : .zero false ∈ samplePoints (.zero false) (.zero false) 1000 := by
    rw [samplePoints, if_neg (by decide), Simpson.points]
    exact List.mem_map.mpr ⟨0, List.mem_range.mpr (by decide), by decide +kernel⟩
  have hpole : ∃ failure, Arithmetic.value {} (substitute "1/x".toList (.zero false)) =
      .error failure := by
    have hnone : (Arithmetic.value {} (substitute "1/x".toList (.zero false))).toOption = none := by
      decide +kernel
    cases hvalue : Arithmetic.value {} (substitute "1/x".toList (.zero false)) with
    | error failure => exact ⟨failure, rfl⟩
    | ok y =>
      rw [hvalue] at hnone
      cases hnone
  obtain ⟨failure, hfailure⟩ := hpole
  refine ⟨?_, hposes, hpoint, ⟨failure, hfailure⟩,
    (all_or_nothing {} "integrate(1/x, 0, 0)").2 _ _ _ hposes rfl rfl _ hpoint _ hfailure⟩
  cases hsolve : (solve { simpsonIntervals := 2 } "integrate(x^2, 0, 3)").outcome with
  | error fault =>
    rw [hsolve] at hfinal
    cases hfinal
  | ok answer =>
    rw [hsolve] at hfinal
    obtain ⟨integrand, a, b, hposes, -, -, hlength, hsamples⟩ :=
      (all_or_nothing { simpsonIntervals := 2 } "integrate(x^2, 0, 3)").1 answer hsolve
    refine ⟨answer, rfl, Option.some.inj hfinal, integrand, a, b, hposes, hlength, fun x hx => ?_⟩
    obtain ⟨y, -, hnumber, hsample⟩ := hsamples x hx
    exact ⟨y, hnumber, hsample⟩

end Definite

end Stepwise
