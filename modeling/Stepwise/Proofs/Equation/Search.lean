/-
# The search among rounded candidates

The search calculates with rounded numbers and takes every candidate at which the result is small.
With short coefficients that is no mistake: the value at a candidate `p / q` is a whole multiple of
`p / q ^ 2`, so that a value other than zero is larger than the tolerance and the errors of the
calculation together.  Since the candidates come by ascending magnitude, none before the one that is
found is taken for a root.

* `Cubic.candidates_sorted` : candidates are in ascending order of magnitude;
* `Cubic.Accepts`, `Cubic.firstRoot?_first` : the search yields the first candidate that is
  accepted;
* `Cubic.Short` : short coefficients;
* `Cubic.valueAt_near` : the error of a value;
* `Cubic.root_of_small_value` : a small value at a candidate is zero;
* `Cubic.accepted_root`, `Cubic.found_root` : what is accepted and what is found is a root.
-/
import Stepwise.Proofs.Decimal.Places
import Stepwise.Proofs.Double.Near
import Stepwise.Proofs.Double.Overflow
import Stepwise.Proofs.Equation.RationalRoot

namespace Stepwise.Cubic

/-! ## Candidates by magnitude -/

/-- The quotients are in ascending order. -/
theorem quotients_sorted {a d : Nat} (ha : 0 < a) :
    (quotients a d).Pairwise fun x y => ratio x.1 x.2 ≤ ratio y.1 y.2 := by
  have hmap : (quotients a d).map (fun x => ratio x.1 x.2) =
      ((((divisors d).flatMap fun p => (divisors a).map fun q => (p, q)).map
        fun x => ratio x.1 x.2).mergeSort fun x y => decide (x ≤ y)) := by
    refine List.map_mergeSort fun x hx y hy => ?_
    have hpos {z : Nat × Nat}
        (hz : z ∈ (divisors d).flatMap fun p => (divisors a).map fun q => (p, q)) :
        (0 : ℚ) < z.2 := by
      simp only [List.mem_flatMap, List.mem_map, mem_divisors ha] at hz
      obtain ⟨p, -, q, hq, rfl⟩ := hz
      exact_mod_cast Nat.pos_of_dvd_of_pos hq ha
    rw [decide_eq_decide, ratio, ratio, div_le_div_iff₀ (hpos hx) (hpos hy)]
    exact_mod_cast Iff.rfl
  have hsorted (qs : List ℚ) :
      (qs.mergeSort fun x y => decide (x ≤ y)).Pairwise fun x y => decide (x ≤ y) = true :=
    List.pairwise_mergeSort (by simpa using fun x y z => le_trans) (by simpa using le_total) qs
  have hratios := hsorted
    (((divisors d).flatMap fun p => (divisors a).map fun q => (p, q)).map fun x => ratio x.1 x.2)
  rw [← hmap, List.pairwise_map] at hratios
  simpa using hratios

/-- A rounded quotient is finite, and of the nearest value. -/
theorem abs_value_roundQuotient {p q : Nat} (hp : 0 < p) (hq : 0 < q)
    (hsize : (p : ℚ) < Double.overflowThreshold) :
    (Double.roundQuotient false p q).isFinite = true ∧
      |(Double.roundQuotient false p q).value| = Double.nearest (ratio p q) := by
  have hpos : 0 < ratio p q := by
    unfold ratio
    positivity
  have hlt : ratio p q < Double.overflowThreshold := by
    refine (div_le_self (by positivity) ?_).trans_lt hsize
    exact_mod_cast hq
  have habs : |ratio p q| = ratio p q := abs_of_pos hpos
  rw [← habs] at hlt
  have hround : Double.roundQuotient false p q = Double.round false (ratio p q) :=
    Double.roundQuotient_eq_round hq
  rw [hround, Double.abs_value_round false hpos.ne' hlt, habs]
  exact ⟨(Double.isFinite_round_iff false _).mpr hlt, rfl⟩

/-- **Candidates are in ascending order of magnitude.** -/
theorem candidates_sorted {a d : ℤ} (hsize : |(d : ℚ)| < Double.overflowThreshold) :
    (candidatesOf (Double.roundQuotient false) a d).Pairwise fun x y => |x.value| ≤ |y.value| := by
  by_cases ha : a = 0
  · simp [candidatesOf, ha]
  by_cases hd : d = 0
  · simp [candidatesOf, ha, hd]
  have ha' : 0 < a.natAbs := Int.natAbs_pos.mpr ha
  have hd' : 0 < d.natAbs := Int.natAbs_pos.mpr hd
  have hvalue {p q : Nat} (h : (p, q) ∈ quotients a.natAbs d.natAbs) :
      0 < ratio p q ∧ |(Double.roundQuotient false p q).value| = Double.nearest (ratio p q) := by
    obtain ⟨hp, hq⟩ := (mem_quotients ha' hd').mp h
    have hppos := Nat.pos_of_dvd_of_pos hp hd'
    have hqpos := Nat.pos_of_dvd_of_pos hq ha'
    refine ⟨?_, (abs_value_roundQuotient hppos hqpos (lt_of_le_of_lt ?_ hsize)).2⟩
    · unfold ratio
      positivity
    · rw [← Int.cast_abs, Int.abs_eq_natAbs]
      exact_mod_cast Nat.le_of_dvd hd' hp
  have hmagnitudes : ((quotients a.natAbs d.natAbs).map
      fun x => Double.roundQuotient false x.1 x.2).Pairwise fun x y => |x.value| ≤ |y.value| := by
    rw [List.pairwise_map]
    refine (quotients_sorted ha').imp_of_mem ?_
    rintro ⟨p, q⟩ ⟨p', q'⟩ hx hy hle
    rw [(hvalue hx).2, (hvalue hy).2]
    exact Double.nearest_mono (hvalue hx).1 hle
  rw [candidatesOf, if_neg ha, if_neg hd, List.pairwise_flatMap]
  refine ⟨fun x _ => by simp, (hmagnitudes.sublist (eraseReps_sublist _)).imp ?_⟩
  intro x y hle
  simpa using hle

/-! ## The first candidate that is accepted -/

section Accepts

variable {α : Type} {n : Arithmetic α} {a b c d : α}

/-- The calculated value at the candidate is small. -/
def Accepts (n : Arithmetic α) (a b c d x : α) : Prop :=
  ∃ value, valueAt n a b c d x = .ok value ∧ n.isSmall value = true

/-- The search yields the first candidate that is accepted. -/
theorem firstRoot?_first {xs : List α} {x : α} (h : firstRoot? n a b c d xs = .ok (some x)) :
    Accepts n a b c d x ∧ ∃ before after, xs = before ++ x :: after ∧
      ∀ y ∈ before, ¬ Accepts n a b c d y := by
  induction xs with
  | nil => cases h
  | cons y ys ih =>
    simp only [firstRoot?] at h
    cases hvalue : valueAt n a b c d y with
    | error e => rw [hvalue] at h; cases h
    | ok value =>
      rw [hvalue] at h
      by_cases hsmall : n.isSmall value = true
      · simp only [if_pos hsmall] at h
        cases h
        exact ⟨⟨value, hvalue, hsmall⟩, [], ys, rfl, by simp⟩
      · simp only [if_neg hsmall] at h
        obtain ⟨haccepts, before, after, rfl, hbefore⟩ := ih h
        refine ⟨haccepts, y :: before, after, rfl, ?_⟩
        intro z hz
        rcases List.mem_cons.mp hz with rfl | hz
        · rintro ⟨value', hvalue', hsmall'⟩
          rw [hvalue] at hvalue'
          cases hvalue'
          exact hsmall hsmall'
        · exact hbefore z hz

/-- In an ordered list, what is found comes before everything that is accepted. -/
theorem firstRoot?_least {xs : List α} {x y : α} {r : α → α → Prop} (hrefl : r x x)
    (hsorted : xs.Pairwise r) (h : firstRoot? n a b c d xs = .ok (some x)) (hy : y ∈ xs)
    (haccepts : Accepts n a b c d y) : r x y := by
  obtain ⟨-, before, after, rfl, hbefore⟩ := firstRoot?_first h
  rcases List.mem_append.mp hy with hy | hy
  · exact absurd haccepts (hbefore y hy)
  · rcases List.mem_cons.mp hy with rfl | hy
    · exact hrefl
    · exact (List.pairwise_cons.mp (List.pairwise_append.mp hsorted).2.1).1 y hy

end Accepts

/-! ## Calculated values -/

/-- Coefficients that stand for whole numbers of magnitude at most `10000`, the leading one not
zero. -/
structure Short (k : Coefficients) (a b c d : ℤ) : Prop where
  represents_a : k.a.Represents a
  represents_b : k.b.Represents b
  represents_c : k.c.Represents c
  represents_d : k.d.Represents d
  leading : a ≠ 0
  size_a : |a| ≤ 10000
  size_b : |b| ≤ 10000
  size_c : |c| ≤ 10000
  size_d : |d| ≤ 10000

/-- **The error of a value.**  Each of the four terms has at most the size `t`, and the errors
together stay below `21` roundings of that size. -/
theorem valueAt_near {k : Coefficients} {a b c d : ℤ} (h : Short k a b c d) (tolerance : Double)
    {x' : Double} {x m t : ℝ} (hx : x'.Near x (101 / 100) m) (hm : 1 ≤ m) (ht : t ≤ 2 ^ 100)
    (hcube : m ^ 3 ≤ t) (ha : |(a : ℝ)| * m ^ 3 ≤ t) (hb : |(b : ℝ)| * m ^ 2 ≤ t)
    (hc : |(c : ℝ)| * m ≤ t) (hd : |(d : ℝ)| ≤ t) :
    ∃ value, valueAt (doubleArithmetic tolerance) k.a k.b k.c k.d x' = .ok value ∧
      value.isFinite = true ∧ |(value.value : ℝ) - polynomialAt a b c d x| ≤ 21 * roundoff * t := by
  have hm2 : 1 ≤ m ^ 2 := one_le_pow₀ hm
  have hm3 : 1 ≤ m ^ 3 := one_le_pow₀ hm
  have hone : 1 ≤ t := hm3.trans hcube
  have hsquare : m ^ 2 ≤ t := (pow_le_pow_right₀ hm (by norm_num)).trans hcube
  have hrange {s : ℝ} (hs : 1 ≤ s) (hle : s ≤ 4 * t) : Double.InRange s :=
    ⟨hs, by linarith only [hle, ht]⟩
  obtain ⟨cube, hcubeResult, hcubeNear⟩ := hx.power (n := 3) (l := 407 / 100) (by norm_num)
    ⟨by norm_num, by norm_num⟩ (by decide +kernel) (by decide)
    (hrange hm3 (by linarith only [hcube, hone])) (by norm_num) (by norm_num)
  obtain ⟨square, hsquareResult, hsquareNear⟩ := hx.power (n := 2) (l := 305 / 100) (by norm_num)
    ⟨by norm_num, by norm_num⟩ (by decide +kernel) (by decide)
    (hrange hm2 (by linarith only [hsquare, hone])) (by norm_num) (by norm_num)
  have hsize {p s : ℝ} {y : Double} {l : ℝ} (hy : y.Near p l s) : |p| ≤ s := hy.close.size
  -- The terms, each with its own roundings.
  have hcubic := (Double.Near.of_whole h.represents_a).mul hcubeNear (l := 509 / 100)
    ⟨le_rfl, by norm_num⟩ ⟨by norm_num, by norm_num⟩ (hrange hone (by linarith only [hone])) ha
    (by norm_num) (by norm_num)
  have hquadratic := (Double.Near.of_whole h.represents_b).mul hsquareNear (l := 407 / 100)
    ⟨le_rfl, by norm_num⟩ ⟨by norm_num, by norm_num⟩ (hrange hone (by linarith only [hone])) hb
    (by norm_num) (by norm_num)
  have hlinear := (Double.Near.of_whole h.represents_c).mul hx (l := 203 / 100)
    ⟨le_rfl, by norm_num⟩ ⟨by norm_num, by norm_num⟩ (hrange hone (by linarith only [hone])) hc
    (by norm_num) (by norm_num)
  -- The sums, each with the errors of its terms and one rounding.
  have hfirst := hcubic.add hquadratic (t := 2 * t) (l := 56 / 10)
    (hrange (by linarith only [hone]) (by linarith only [hone]))
    ((abs_add_le _ _).trans (by linarith only [hsize hcubic, hsize hquadratic]))
    (by linarith only [hone]) (by norm_num)
  have hsecond := hfirst.add hlinear (t := 3 * t) (l := 55 / 10)
    (hrange (by linarith only [hone]) (by linarith only [hone]))
    ((abs_add_le _ _).trans (by linarith only [hsize hfirst, hsize hlinear]))
    (by linarith only [hone]) (by norm_num)
  have hthird := hsecond.add (Double.Near.of_whole h.represents_d) (t := 4 * t) (l := 52 / 10)
    (hrange (by linarith only [hone]) le_rfl)
    ((abs_add_le _ _).trans (by linarith only [hsize hsecond, hd]))
    (by linarith only [hone]) (by norm_num)
  refine ⟨_, ?_, hthird.finite, ?_⟩
  · simp only [valueAt, doubleArithmetic, hcubeResult, hsquareResult]
    rfl
  · have hpositive : 0 ≤ roundoff * t := mul_nonneg roundoff_pos.le (by linarith only [hone])
    have herror := hthird.close.error
    rw [polynomialAt]
    linarith only [herror, hpositive]

/-! ## Small values -/

/-- Each candidate is a rounded rational whose parts divide the outer coefficients. -/
theorem exists_of_mem_candidates {a d : ℤ} (ha : a ≠ 0) {x' : Double}
    (h : x' ∈ candidatesOf (Double.roundQuotient false) a d) :
    ∃ x : ℚ, x' = Double.round false x ∧ x.num ∣ d ∧ (x.den : ℤ) ∣ a ∧ (d = 0 → x = 0) := by
  by_cases hd : d = 0
  · subst hd
    rw [candidatesOf_zero ha, List.mem_singleton] at h
    exact ⟨0, h, by simp, by simp, fun _ => rfl⟩
  · obtain ⟨p, q, hp, hq, hx⟩ := (mem_candidatesOf ha hd).mp h
    have hppos : 0 < p := Nat.pos_of_dvd_of_pos hp (Int.natAbs_pos.mpr hd)
    have hqpos : 0 < q := Nat.pos_of_dvd_of_pos hq (Int.natAbs_pos.mpr ha)
    have hratio : ratio p q = Rat.divInt p q := by
      rw [Rat.divInt_eq_div]
      rfl
    have hnum : (ratio p q).num ∣ d := by
      rw [hratio]
      exact (Rat.num_dvd p (by exact_mod_cast hqpos.ne')).trans (Int.natCast_dvd.mpr hp)
    have hden : ((ratio p q).den : ℤ) ∣ a := by
      rw [hratio]
      exact (Rat.den_dvd p q).trans (Int.natCast_dvd.mpr hq)
    have hround : Double.roundQuotient false p q = Double.round false (ratio p q) :=
      Double.roundQuotient_eq_round hqpos
    rcases hx with rfl | rfl
    · exact ⟨ratio p q, hround, hnum, hden, fun h => absurd h hd⟩
    · refine ⟨-ratio p q, ?_, by simpa using hnum, by simpa using hden, fun h => absurd h hd⟩
      have hne : ratio p q ≠ 0 := by
        unfold ratio
        positivity
      rw [hround, Double.round_neg hne]

/-- A value other than zero is a whole multiple of the candidate over its denominator. -/
theorem value_eq_zero_or_le {a b c d : ℤ} {x : ℚ} (hnum : x.num ∣ d) (hden : (x.den : ℤ) ∣ a) :
    polynomialAt a b c d x = 0 ∨ |x| / x.den ≤ |polynomialAt a b c d x| := by
  obtain ⟨d', rfl⟩ := hnum
  obtain ⟨a', rfl⟩ := hden
  have hpos : (0 : ℚ) < x.den := by exact_mod_cast x.den_pos
  have hvalue : polynomialAt (x.den * a') b c (x.num * d') x =
      x / x.den * (a' * x.num ^ 2 + b * x.num + c * x.den + d' * x.den ^ 2 : ℤ) := by
    have hx : (x.num : ℚ) = x * x.den := (Rat.mul_den_eq_num x).symm
    rw [polynomialAt]
    push_cast
    rw [hx]
    field_simp
  rw [hvalue]
  rcases eq_or_ne (a' * x.num ^ 2 + b * x.num + c * x.den + d' * x.den ^ 2) 0 with hzero | hne
  · left
    rw [hzero, Int.cast_zero, mul_zero]
  · right
    rw [abs_mul, abs_div, abs_of_pos hpos]
    refine le_mul_of_one_le_right (by positivity) ?_
    exact_mod_cast Int.one_le_abs hne

/-! ## What is found -/

/-- The arithmetic of the search with the standard tolerance. -/
def standardArithmetic : Arithmetic Double := doubleArithmetic ({} : Settings).rootTolerance

theorem rootTolerance_bounds : ({} : Settings).rootTolerance.isFinite = true ∧
    1 / 10 ^ 10 ≤ ({} : Settings).rootTolerance.value ∧
    ({} : Settings).rootTolerance.value ≤ 2 / 10 ^ 9 := by
  decide +kernel

theorem standardArithmetic_isSmall {x : Double} (hx : x.isFinite = true) :
    standardArithmetic.isSmall x = true ↔
      |(x.value : ℝ)| < (({} : Settings).rootTolerance.value : ℝ) := by
  have habs : x.abs.isFinite = true := (Double.isFinite_abs x).trans hx
  have hsmall : standardArithmetic.isSmall x = true ↔
      |x.value| < ({} : Settings).rootTolerance.value := by
    rw [← Double.value_abs]
    exact Double.lt_iff habs rootTolerance_bounds.1
  rw [hsmall, ← Rat.cast_abs, Rat.cast_lt]

/-- A rounded number of moderate size is near. -/
theorem near_candidate {x : ℚ} (hx : |(x : ℝ)| ≤ 10001) :
    (Double.round false x).Near x (101 / 100) (max 1 |(x : ℝ)|) := by
  refine Double.near_round false (.refl (le_max_right 1 |(x : ℝ)|))
    ⟨le_max_left _ _, max_le (by norm_num) (hx.trans (by norm_num))⟩ ?_ ?_ <;> norm_num

/-- The bound of Cauchy for the roots of a polynomial with short coefficients. -/
noncomputable def rootBound (a : ℤ) : ℝ := 1 + 10000 / |(a : ℝ)|

theorem one_le_rootBound (a : ℤ) : 1 ≤ rootBound a :=
  le_add_of_nonneg_right (by positivity)

namespace Short

variable {k : Coefficients} {a b c d : ℤ} {x : ℚ}

theorem one_le_abs_leading (h : Short k a b c d) : 1 ≤ |(a : ℝ)| := by
  exact_mod_cast Int.one_le_abs h.leading

theorem abs_cast_le {p : ℤ} (h : |p| ≤ 10000) : |(p : ℝ)| ≤ 10000 := by exact_mod_cast h

theorem abs_mul_rootBound (h : Short k a b c d) :
    |(a : ℝ)| * rootBound a = |(a : ℝ)| + 10000 := by
  have hpos : 0 < |(a : ℝ)| := zero_lt_one.trans_le h.one_le_abs_leading
  unfold rootBound
  field_simp

theorem rootBound_le (h : Short k a b c d) : rootBound a ≤ 10001 := by
  have hquotient : 10000 / |(a : ℝ)| ≤ 10000 := div_le_self (by norm_num) h.one_le_abs_leading
  unfold rootBound
  linarith only [hquotient]

/-- No root exceeds the bound. -/
theorem abs_root_le (h : Short k a b c d) {z : ℝ} (hroot : polynomialAt a b c d z = 0) :
    |z| ≤ rootBound a := by
  have hpos : 0 < |(a : ℝ)| := zero_lt_one.trans_le h.one_le_abs_leading
  rcases le_total |z| 1 with hle | hge
  · exact hle.trans (one_le_rootBound a)
  have hb : |(b : ℝ) * z ^ 2| ≤ 10000 * |z| ^ 2 := by
    rw [abs_mul, abs_pow]
    exact mul_le_mul_of_nonneg_right (abs_cast_le h.size_b) (by positivity)
  have hc : |(c : ℝ) * z| ≤ 10000 * |z| := by
    rw [abs_mul]
    exact mul_le_mul_of_nonneg_right (abs_cast_le h.size_c) (abs_nonneg z)
  have hd := abs_cast_le h.size_d
  have hcube : |(a : ℝ)| * |z| ^ 3 ≤ 10000 * (|z| ^ 2 + |z| + 1) := by
    have hleading : (a : ℝ) * z ^ 3 = -(b * z ^ 2 + c * z + d) := by
      rw [polynomialAt] at hroot
      linear_combination hroot
    calc |(a : ℝ)| * |z| ^ 3 = |(b : ℝ) * z ^ 2 + c * z + d| := by
          rw [← abs_pow, ← abs_mul, hleading, abs_neg]
      _ ≤ |(b : ℝ) * z ^ 2| + |(c : ℝ) * z| + |(d : ℝ)| := abs_add_three _ _ _
      _ ≤ 10000 * (|z| ^ 2 + |z| + 1) := by linarith only [hb, hc, hd]
  -- Multiplied by `|z| - 1`, the right side becomes a difference of third powers.
  have hfar : |(a : ℝ)| * (|z| - 1) ≤ 10000 := by
    have hcubepos : 0 < |z| ^ 3 := by positivity
    have hmul := mul_le_mul_of_nonneg_right hcube (sub_nonneg.mpr hge)
    refine le_of_mul_le_mul_right ?_ hcubepos
    linarith only [hmul]
  rw [rootBound, ← sub_le_iff_le_add', le_div_iff₀ hpos]
  linarith only [hfar]

theorem abs_root_le_of_root (h : Short k a b c d) {z : ℝ} (hroot : polynomialAt a b c d z = 0) :
    |z| ≤ 10001 :=
  (h.abs_root_le hroot).trans h.rootBound_le

theorem candidates_eq (h : Short k a b c d) :
    candidates k.a k.d = candidatesOf (Double.roundQuotient false) a d :=
  candidates_of_represents h.represents_a h.represents_d

theorem den_le (h : Short k a b c d) (hden : (x.den : ℤ) ∣ a) : (x.den : ℝ) ≤ 10000 := by
  have hle : (x.den : ℤ) ≤ 10000 :=
    (Int.le_of_dvd (abs_pos.mpr h.leading) ((dvd_abs _ _).mpr hden)).trans h.size_a
  exact_mod_cast hle

theorem abs_num_le (h : Short k a b c d) (hd : d ≠ 0) (hnum : x.num ∣ d) :
    |(x.num : ℝ)| ≤ 10000 := by
  have hle : |x.num| ≤ 10000 :=
    (Int.le_of_dvd (abs_pos.mpr hd) ((abs_dvd_abs _ _).mpr hnum)).trans h.size_d
  exact_mod_cast hle

theorem abs_le (h : Short k a b c d) (hnum : x.num ∣ d) (hzero : d = 0 → x = 0) :
    |(x : ℝ)| ≤ 10000 := by
  by_cases hd : d = 0
  · rw [hzero hd]
    norm_num
  · have hone : (1 : ℝ) ≤ x.den := by exact_mod_cast x.den_pos
    have hquotient : |(x : ℝ)| = |(x.num : ℝ)| / x.den := by
      rw [Rat.cast_def, abs_div, Nat.abs_cast]
    rw [hquotient]
    exact (div_le_self (abs_nonneg _) hone).trans (h.abs_num_le hd hnum)

/-- Below one, a candidate `s` with the denominator `q` is at least `1 / q`, so that a value of `s /
q` exceeds the tolerance. -/
theorem tolerance_mul_le_of_le_one {s q : ℝ} (hs : s ≤ 1) (hq : 1 ≤ q) (hle : q ≤ 10000)
    (hnum : 1 ≤ s * q) :
    (2 / 10 ^ 9 + 21 * roundoff * (10000 * max 1 s ^ 3)) * q ≤ s := by
  have hcount : 2 / 10 ^ 9 + 21 * roundoff * (10000 * max 1 s ^ 3) ≤ 3 / 10 ^ 9 := by
    rw [max_eq_left hs]
    norm_num [roundoff]
  have hpos : 0 < s := pos_of_mul_pos_left (zero_lt_one.trans_le hnum) (zero_le_one.trans hq)
  calc (2 / 10 ^ 9 + 21 * roundoff * (10000 * max 1 s ^ 3)) * q ≤ 3 / 10 ^ 9 * q := by gcongr
    _ ≤ 3 / 10 ^ 9 * q * (s * q) := le_mul_of_one_le_right (by positivity) hnum
    _ = 3 / 10 ^ 9 * q * q * s := by ring
    _ ≤ 3 / 10 ^ 9 * 10000 * 10000 * s := by gcongr
    _ ≤ s := by linarith only [hpos]

/-- Above one, the numerator `s * q` bounds both the candidate and its denominator. -/
theorem tolerance_mul_le_of_one_le {s q : ℝ} (hs : 1 ≤ s) (hq : 1 ≤ q) (hnum : s * q ≤ 10000) :
    (2 / 10 ^ 9 + 21 * roundoff * (10000 * max 1 s ^ 3)) * q ≤ s := by
  have hpos : 0 < s := zero_lt_one.trans_le hs
  have hle : s ≤ 10000 := (le_mul_of_one_le_right hpos.le hq).trans hnum
  have hupper : 2 / 10 ^ 9 + 21 * roundoff * (10000 * max 1 s ^ 3) ≤ 2 / 10 ^ 5 * s ^ 2 := by
    have hcube : 21 * roundoff * 10000 * s ^ 3 ≤ 1 / 10 ^ 9 * (10000 * s ^ 2) := by
      rw [pow_succ' s 2]
      gcongr
      norm_num [roundoff]
    have hs2 : 1 ≤ s ^ 2 := one_le_pow₀ hs
    rw [max_eq_right hs]
    linarith only [hcube, hs2]
  calc (2 / 10 ^ 9 + 21 * roundoff * (10000 * max 1 s ^ 3)) * q ≤ 2 / 10 ^ 5 * s ^ 2 * q := by
        gcongr
    _ = 2 / 10 ^ 5 * s * (s * q) := by ring
    _ ≤ 2 / 10 ^ 5 * s * 10000 := by gcongr
    _ ≤ s := by linarith only [hpos]

/-- **A small value at a candidate is zero.**  Any other value exceeds the tolerance by more than
the error of its calculation. -/
theorem root_of_small_value (h : Short k a b c d) (hnum : x.num ∣ d) (hden : (x.den : ℤ) ∣ a)
    (hzero : d = 0 → x = 0)
    (hsmall : |polynomialAt a b c d (x : ℝ)| <
      2 / 10 ^ 9 + 21 * roundoff * (10000 * max 1 |(x : ℝ)| ^ 3)) :
    polynomialAt a b c d x = 0 := by
  rcases value_eq_zero_or_le (b := b) (c := c) hnum hden with hroot | hlarge
  · exact hroot
  by_contra hne
  have hd : d ≠ 0 := by
    rintro rfl
    rw [hzero rfl] at hne
    exact hne (by simp [polynomialAt])
  have hle := (Rat.cast_le (K := ℝ)).mpr hlarge
  rw [Rat.cast_div, Rat.cast_abs, Rat.cast_abs, polynomialAt_cast, Rat.cast_natCast] at hle
  have hdenOne : (1 : ℝ) ≤ x.den := by exact_mod_cast x.den_pos
  have hproduct : |(x : ℝ)| * x.den = |(x.num : ℝ)| := by
    rw [Rat.cast_def, abs_div, Nat.abs_cast, div_mul_cancel₀ _ (by positivity)]
  have hbound := hle.trans_lt hsmall
  rw [div_lt_iff₀ (zero_lt_one.trans_le hdenOne)] at hbound
  refine hbound.not_ge ?_
  rcases le_total |(x : ℝ)| 1 with hle1 | hge1
  · refine tolerance_mul_le_of_le_one hle1 hdenOne (h.den_le hden) ?_
    have hnonzero : x.num ≠ 0 := fun hx => hd (by rwa [hx, zero_dvd_iff] at hnum)
    rw [hproduct]
    exact_mod_cast Int.one_le_abs hnonzero
  · refine tolerance_mul_le_of_one_le hge1 hdenOne ?_
    rw [hproduct]
    exact h.abs_num_le hd hnum

/-- The value that is calculated at a candidate. -/
theorem value_near (h : Short k a b c d) (hx : |(x : ℝ)| ≤ 10001) {t : ℝ} (ht : t ≤ 2 ^ 100)
    (ha : |(a : ℝ)| * max 1 |(x : ℝ)| ^ 3 ≤ t) (hb : |(b : ℝ)| * max 1 |(x : ℝ)| ^ 2 ≤ t)
    (hc : |(c : ℝ)| * max 1 |(x : ℝ)| ≤ t) (hd : |(d : ℝ)| ≤ t) :
    ∃ value, valueAt standardArithmetic k.a k.b k.c k.d (Double.round false x) = .ok value ∧
      value.isFinite = true ∧
      |(value.value : ℝ) - polynomialAt a b c d (x : ℝ)| ≤ 21 * roundoff * t := by
  have hleading : (1 : ℝ) ≤ |(a : ℝ)| := by exact_mod_cast Int.one_le_abs h.leading
  have hcube : max 1 |(x : ℝ)| ^ 3 ≤ t :=
    (le_mul_of_one_le_left (by positivity) hleading).trans ha
  exact valueAt_near h _ (near_candidate hx) (le_max_left _ _) ht hcube ha hb hc hd

/-- **What is accepted is a root**, and not only nearly so. -/
theorem accepted_root (h : Short k a b c d) {x' : Double} (hmem : x' ∈ candidates k.a k.d)
    (haccepts : Accepts standardArithmetic k.a k.b k.c k.d x') :
    ∃ x : ℚ, x' = Double.round false x ∧ polynomialAt a b c d x = 0 ∧ (d = 0 → x = 0) := by
  obtain ⟨value, hvalue, hsmall⟩ := haccepts
  rw [h.candidates_eq] at hmem
  obtain ⟨x, rfl, hnum, hden, hzero⟩ := exists_of_mem_candidates h.leading hmem
  have hx := h.abs_le hnum hzero
  refine ⟨x, rfl, h.root_of_small_value hnum hden hzero ?_, hzero⟩
  -- The largest coefficient times the third power bounds all terms.
  set m : ℝ := max 1 |(x : ℝ)| with hm
  have hone : 1 ≤ m := le_max_left _ _
  have hm1 : m ≤ m ^ 3 := le_self_pow₀ hone (by norm_num)
  have hm2 : m ^ 2 ≤ m ^ 3 := pow_le_pow_right₀ hone (by norm_num)
  have hm3 : m ^ 3 ≤ 10000 ^ 3 := by
    have hle : m ≤ 10000 := max_le (by norm_num) hx
    gcongr
  have hbound {n : ℤ} (hn : |n| ≤ 10000) {s : ℝ} (hs : 0 ≤ s) (hle : s ≤ m ^ 3) :
      |(n : ℝ)| * s ≤ 10000 * m ^ 3 := by
    have hcast : |(n : ℝ)| ≤ 10000 := by exact_mod_cast hn
    gcongr
  obtain ⟨value', hvalue', hfinite, hnear⟩ := h.value_near (hx.trans (by norm_num))
    (t := 10000 * m ^ 3) (by linarith only [hm3]) (hbound h.size_a (by positivity) le_rfl)
    (hbound h.size_b (by positivity) hm2) (hbound h.size_c (by positivity) hm1)
    (by simpa using hbound h.size_d zero_le_one (hone.trans hm1))
  obtain rfl : value = value' := by
    rw [hvalue] at hvalue'
    exact Except.ok.inj hvalue'
  have hless := (standardArithmetic_isSmall hfinite).mp hsmall
  have htolerance : (({} : Settings).rootTolerance.value : ℝ) ≤ 2 / 10 ^ 9 := by
    have hcast := (Rat.cast_le (K := ℝ)).mpr rootTolerance_bounds.2.2
    push_cast at hcast
    exact hcast
  have htriangle := abs_sub_abs_le_abs_sub (polynomialAt a b c d (x : ℝ)) value.value
  rw [abs_sub_comm] at htriangle
  linarith only [hless, htolerance, htriangle, hnear]

/-- What is found is a root. -/
theorem found_root (h : Short k a b c d) {x' : Double}
    (hfound : firstRoot? standardArithmetic k.a k.b k.c k.d (candidates k.a k.d) = .ok (some x')) :
    ∃ x : ℚ, x' = Double.round false x ∧ polynomialAt a b c d x = 0 ∧ (d = 0 → x = 0) := by
  obtain ⟨haccepts, before, after, hsplit, -⟩ := firstRoot?_first hfound
  exact h.accepted_root (by rw [hsplit]; simp) haccepts

/-- A root at which the terms are not too large is accepted. -/
theorem accepts_root (h : Short k a b c d) (hroot : polynomialAt a b c d x = 0)
    (hx : |(x : ℝ)| ≤ 10001) (ha : |(a : ℝ)| * max 1 |(x : ℝ)| ^ 3 ≤ 30000)
    (hb : |(b : ℝ)| * max 1 |(x : ℝ)| ^ 2 ≤ 30000) (hc : |(c : ℝ)| * max 1 |(x : ℝ)| ≤ 30000) :
    Accepts standardArithmetic k.a k.b k.c k.d (Double.round false x) := by
  have hd : |(d : ℝ)| ≤ 30000 := by
    have hcast : |(d : ℝ)| ≤ 10000 := by exact_mod_cast h.size_d
    linarith only [hcast]
  obtain ⟨value, hvalue, hfinite, hnear⟩ := h.value_near hx (by norm_num) ha hb hc hd
  refine ⟨value, hvalue, (standardArithmetic_isSmall hfinite).mpr ?_⟩
  have hzero : polynomialAt a b c d (x : ℝ) = 0 := by
    rw [← polynomialAt_cast, hroot, Rat.cast_zero]
  rw [hzero, sub_zero] at hnear
  have htolerance : (1 / 10 ^ 10 : ℝ) ≤ (({} : Settings).rootTolerance.value : ℝ) := by
    have hcast := (Rat.cast_le (K := ℝ)).mpr rootTolerance_bounds.2.1
    push_cast at hcast
    exact hcast
  refine lt_of_le_of_lt hnear (lt_of_lt_of_le ?_ htolerance)
  norm_num [roundoff]

/-- Nothing that is found exceeds a root that is accepted. -/
theorem abs_found_le (h : Short k a b c d) {x' : Double} {r : ℚ}
    (hfound : firstRoot? standardArithmetic k.a k.b k.c k.d (candidates k.a k.d) = .ok (some x'))
    (hd : d ≠ 0) (hroot : polynomialAt a b c d r = 0)
    (haccepts : Accepts standardArithmetic k.a k.b k.c k.d (Double.round false r)) :
    |x'.value| ≤ |(Double.round false r).value| := by
  have hsize : |(d : ℚ)| < Double.overflowThreshold := by
    rw [← h.represents_d.2]
    exact Double.abs_value_lt h.represents_d.1
  have hsorted := candidates_sorted (a := a) hsize
  rw [← h.candidates_eq] at hsorted
  exact firstRoot?_least (r := fun x y => |x.value| ≤ |y.value|) le_rfl hsorted hfound
    (round_mem_candidates_of_root h.leading hd hroot h.represents_a h.represents_d) haccepts

end Short

end Stepwise.Cubic
