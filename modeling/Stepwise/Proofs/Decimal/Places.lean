/-
# Rounding to decimal places

A number rounded to places after the point moves by at most half a unit of the last place, up to the
rounding of the decimal to a double.  It never becomes too large: a number that has places after the
point to lose is below `2 ^ 53`.

* `Double.abs_unitsOf_sub_le` : the nearest decimal;
* `Double.roundPlaces_of_whole`, `Double.roundForDisplay_of_whole` : whole numbers stay as they are;
* `Double.roundPlaces_near`, `Double.roundForDisplay_near` : the error of a rounding to places;
* `Double.exists_roundForDisplay` : rounding to places after the point succeeds.
-/
import Stepwise.Decimal.Rounding
import Stepwise.Proofs.Decimal.Shortest
import Stepwise.Proofs.Double.Nearest

namespace Stepwise.Double

variable {places : Int} {x : Double}

theorem isFinite_abs (x : Double) : x.abs.isFinite = x.isFinite := by
  cases x <;> rfl

theorem value_abs (x : Double) : x.abs.value = |x.value| := by
  cases x with
  | nan | infinity negative => exact abs_zero.symm
  | finite negative m e h =>
    rw [abs_value_finite, abs, value_finite, if_neg Bool.false_ne_true, one_mul]

/-- A finite number is a sign times its magnitude. -/
theorem sign_mul_abs {negative : Bool} {m : Nat} {e : Int} (h : Canonical m e) :
    (if negative then -1 else 1) * |(finite negative m e h).value| =
      (finite negative m e h).value := by
  rw [abs_value_finite, value_finite]

/-! ## The nearest decimal -/

/-- The decimal that a number is rounded to. -/
def toPlaces (places : Int) (x : Double) : Decimal := ⟨x.unitsOf places, -places⟩

/-- The nearest decimal is at most half a unit of its last place away. -/
theorem abs_unitsOf_sub_le (places : Int) (x : Double) :
    |(x.toPlaces places).value - (|x.value| : ℚ)| ≤ 10 ^ (-places) / 2 := by
  have hunit : (0 : ℚ) < 10 ^ (-places) := by positivity
  have hscaled : ((scaleQuotient |x.value|.num.natAbs |x.value|.den places).1 : ℚ) /
      (scaleQuotient |x.value|.num.natAbs |x.value|.den places).2 = |x.value| * 10 ^ places := by
    rw [scaleQuotient_div, natAbs_num_div_den, abs_abs]
  have hpos : 0 < (scaleQuotient |x.value|.num.natAbs |x.value|.den places).2 :=
    scaleQuotient_pos |x.value|.den_pos places
  have hnear := abs_roundDivision_sub_le
    (n := (scaleQuotient |x.value|.num.natAbs |x.value|.den places).1) hpos
  rw [hscaled] at hnear
  have hunits : x.unitsOf places =
      roundDivision (scaleQuotient |x.value|.num.natAbs |x.value|.den places).1
        (scaleQuotient |x.value|.num.natAbs |x.value|.den places).2 := by
    rw [unitsOf, value_abs]
  have hdifference : (x.toPlaces places).value - |x.value| =
      ((x.unitsOf places : ℚ) - |x.value| * 10 ^ places) * 10 ^ (-places) := by
    rw [sub_mul, mul_assoc, ← zpow_add₀ (by norm_num), add_neg_cancel, zpow_zero, mul_one]
    rfl
  rw [hdifference, abs_mul, abs_of_pos hunit, hunits, div_eq_mul_one_div, mul_comm (10 ^ (-places))]
  exact mul_le_mul_of_nonneg_right hnear hunit.le

/-- A whole number is its own nearest decimal with places after the point. -/
theorem value_toPlaces_of_whole (hplaces : 0 ≤ places) {n : ℕ} (hx : |x.value| = n) :
    (x.toPlaces places).value = |x.value| := by
  obtain ⟨k, rfl⟩ := Int.eq_ofNat_of_zero_le hplaces
  have hscaled : ((scaleQuotient |x.value|.num.natAbs |x.value|.den k).1 : ℚ) /
      (scaleQuotient |x.value|.num.natAbs |x.value|.den k).2 = (n * 10 ^ k : Nat) := by
    rw [scaleQuotient_div, natAbs_num_div_den, abs_abs, hx, zpow_natCast]
    push_cast
    rfl
  have hunits : x.unitsOf k = n * 10 ^ k := by
    rw [unitsOf, value_abs]
    refine roundDivision_eq_of_near (scaleQuotient_pos |x.value|.den_pos k) ?_
    rw [hscaled, sub_self, abs_zero]
    norm_num
  rw [toPlaces, hunits, Decimal.value, hx]
  push_cast
  rw [mul_assoc, ← zpow_natCast, ← zpow_add₀ (by norm_num), add_neg_cancel, zpow_zero, mul_one]

/-! ## The rounded number -/

/-- A decimal that is not too large is rounded to a finite double near it. -/
theorem ofDecimal_near (negative : Bool) (d : Decimal) (h : d.value ≤ moderate) :
    (ofDecimal negative d.digits d.exponent).isFinite = true ∧
      |(ofDecimal negative d.digits d.exponent).value - (if negative then -1 else 1) * d.value| ≤
        d.value * 2 ^ (-53 : ℤ) + 2 ^ (-1075 : ℤ) := by
  rw [ofDecimal_eq negative d (Rat.den_pos _) d.value_eq_div]
  have hnear := roundQuotient_near negative (Rat.den_pos d.value) (d.value_eq_div.symm.trans_le h)
  rwa [← d.value_eq_div] at hnear

/-- **A whole number stays as it is** when it is rounded to places after the point. -/
theorem roundPlaces_of_whole (hplaces : 0 ≤ places) (hfinite : x.isFinite = true) {n : ℕ}
    (hx : |x.value| = n) : x.roundPlaces places = .ok x := by
  cases x with
  | nan | infinity negative => cases hfinite
  | finite negative m e h =>
    by_cases hmany : mostPlaces < places
    · exact if_pos hmany
    have hfew : ¬ places < fewestPlaces := by
      unfold fewestPlaces
      omega
    set d : Decimal := (finite negative m e h).toPlaces places with hd
    have hvalue : d.value = m * 2 ^ e := by
      rw [hd, value_toPlaces_of_whole hplaces hx, abs_value_finite]
    have hself : ofDecimal negative ((finite negative m e h).unitsOf places) (-places) =
        finite negative m e h := by
      show ofDecimal negative d.digits d.exponent = _
      rcases Nat.eq_zero_or_pos m with rfl | hm
      · have hzero : d.value = ((0 : ℕ) : ℚ) / (1 : ℕ) := by
          rw [hvalue]
          simp
        rw [ofDecimal_eq negative d one_pos hzero, eq_zero_of_mantissa h]
        rfl
      · refine ofDecimal_of_near negative h d ?_
        rw [hvalue, sub_self, abs_zero, zero_mul]
        positivity
    rw [roundPlaces, if_neg hmany, if_neg hfew, hself]
    rfl

theorem ten_pow_neg_le_one (hplaces : 0 ≤ places) : (10 : ℚ) ^ (-places) ≤ 1 :=
  zpow_le_one_of_nonpos₀ (by norm_num) (by omega)

/-- A number with places after the point to lose is at most `2 ^ 53`. -/
theorem abs_value_le_of_fraction {negative : Bool} {m : Nat} {e : Int} (h : Canonical m e)
    (he : e < 0) : |(finite negative m e h).value| ≤ 2 ^ 53 := by
  have hm : (m : ℚ) ≤ 2 ^ 53 := by exact_mod_cast h.1.le
  have hunit : (2 : ℚ) ^ e ≤ 1 := zpow_le_one_of_nonpos₀ (by norm_num) he.le
  calc |(finite negative m e h).value| = m * 2 ^ e := abs_value_finite negative m e h
    _ ≤ 2 ^ 53 * 1 := by gcongr
    _ = 2 ^ 53 := mul_one _

/-- The double nearest to the nearest decimal is near, if the number is not too large. -/
theorem ofDecimal_toPlaces_near (hplaces : 0 ≤ places) {negative : Bool} {m : Nat} {e : Int}
    (h : Canonical m e) (hle : |(finite negative m e h).value| ≤ 2 ^ 53) :
    (ofDecimal negative ((finite negative m e h).unitsOf places) (-places)).isFinite = true ∧
      |(ofDecimal negative ((finite negative m e h).unitsOf places) (-places)).value
          - (finite negative m e h).value| ≤
        10 ^ (-places) / 2 + (|(finite negative m e h).value| + 1) * 2 ^ (-53 : ℤ)
          + 2 ^ (-1075 : ℤ) := by
  set x : Double := finite negative m e h with hxdef
  set y : Double := ofDecimal negative (x.unitsOf places) (-places) with hy
  have hdecimal := abs_unitsOf_sub_le places x
  have hupper := (abs_le.mp hdecimal).2
  have hone := ten_pow_neg_le_one hplaces
  have hvalue : (x.toPlaces places).value ≤ |x.value| + 1 := by linarith only [hupper, hone]
  obtain ⟨hfinite, hnear⟩ := ofDecimal_near negative (x.toPlaces places)
    (le_moderate (by linarith only [hvalue, hle]))
  refine ⟨hfinite, ?_⟩
  have hmove : |(if negative then -1 else 1) * (x.toPlaces places).value - x.value| ≤
      10 ^ (-places) / 2 := by
    rw [← sign_mul_abs h, ← mul_sub, abs_mul]
    cases negative <;> simpa using hdecimal
  have hrounding : (x.toPlaces places).value * 2 ^ (-53 : ℤ) ≤
      (|x.value| + 1) * 2 ^ (-53 : ℤ) := by gcongr
  calc |y.value - x.value|
      ≤ |y.value - (if negative then -1 else 1) * (x.toPlaces places).value| +
          |(if negative then -1 else 1) * (x.toPlaces places).value - x.value| :=
        abs_sub_le _ _ _
    _ ≤ (x.toPlaces places).value * 2 ^ (-53 : ℤ) + 2 ^ (-1075 : ℤ) + 10 ^ (-places) / 2 :=
        add_le_add hnear hmove
    _ ≤ (|x.value| + 1) * 2 ^ (-53 : ℤ) + 2 ^ (-1075 : ℤ) + 10 ^ (-places) / 2 := by
        gcongr
    _ = _ := by ring

/-- **A finite number can be rounded to places after the point**, and moves by half a unit of the
last place and the error of a rounding. -/
theorem roundPlaces_near (hplaces : 0 ≤ places) (hx : x.isFinite = true) :
    ∃ y, x.roundPlaces places = .ok y ∧ y.isFinite = true ∧
      |y.value - x.value| ≤
        10 ^ (-places) / 2 + (|x.value| + 1) * 2 ^ (-53 : ℤ) + 2 ^ (-1075 : ℤ) := by
  have hself : |x.value - x.value| ≤
      10 ^ (-places) / 2 + (|x.value| + 1) * 2 ^ (-53 : ℤ) + 2 ^ (-1075 : ℤ) := by
    rw [sub_self, abs_zero]
    positivity
  cases x with
  | nan | infinity negative => cases hx
  | finite negative m e h =>
    rcases Int.lt_or_le e 0 with hfraction | hwhole
    · by_cases hmany : mostPlaces < places
      · exact ⟨_, if_pos hmany, rfl, hself⟩
      have hfew : ¬ places < fewestPlaces := by
        unfold fewestPlaces
        omega
      obtain ⟨hfinite, hnear⟩ := ofDecimal_toPlaces_near hplaces h
        (abs_value_le_of_fraction h hfraction)
      refine ⟨_, ?_, hfinite, hnear⟩
      rw [roundPlaces, if_neg hmany, if_neg hfew]
      exact if_pos hfinite
    · -- A whole number has nothing to lose.
      obtain ⟨k, rfl⟩ := Int.eq_ofNat_of_zero_le hwhole
      have hvalue : |(finite negative m k h).value| = (m * 2 ^ k : Nat) := by
        rw [abs_value_finite]
        push_cast
        rfl
      exact ⟨_, roundPlaces_of_whole hplaces rfl hvalue, rfl, hself⟩

/-- **The displayed number is near.** -/
theorem roundForDisplay_near (hplaces : 0 ≤ places) (hx : x.isFinite = true) :
    ∃ y, x.roundForDisplay places = .ok y ∧ y.isFinite = true ∧
      |y.value - x.value| ≤
        10 ^ (-places) / 2 + (|x.value| + 1) * 2 ^ (-53 : ℤ) + 2 ^ (-1075 : ℤ) := by
  obtain ⟨y, hround, hfinite, hnear⟩ := roundPlaces_near hplaces hx
  have hsum : (y + 0).Represents y.value := by
    have h := Represents.add (x := y) (y := 0) ⟨hfinite, rfl⟩ (represents_zero false)
      (by rw [add_zero]; exact ⟨y, hfinite, rfl⟩)
    rwa [add_zero] at h
  refine ⟨y + 0, by rw [roundForDisplay, hround]; rfl, hsum.1, ?_⟩
  rwa [hsum.2]

/-- **A whole number other than zero is displayed as it is.** -/
theorem roundForDisplay_of_whole (hplaces : 0 ≤ places) {n : ℤ} (hx : x.Represents n)
    (hn : n ≠ 0) : x.roundForDisplay places = .ok x := by
  have habs : |x.value| = n.natAbs := by
    rw [hx.2, Nat.cast_natAbs, Int.cast_abs]
  have hsum : (x + 0).Represents (n + 0) :=
    hx.add (represents_zero false) (by rw [add_zero]; exact ⟨x, hx⟩)
  have hself : x + 0 = x := by
    rw [add_zero] at hsum
    exact hsum.eq_of_ne_zero hx (by exact_mod_cast hn)
  rw [roundForDisplay, roundPlaces_of_whole hplaces hx.1 habs]
  exact congrArg Except.ok hself

theorem roundForDisplay_zero (hplaces : 0 ≤ places) :
    (0 : Double).roundForDisplay places = .ok 0 := by
  have hzero : |(0 : Double).value| = (0 : ℕ) := by
    rw [show (0 : Double).value = 0 from value_zero false, abs_zero, Nat.cast_zero]
  rw [roundForDisplay, roundPlaces_of_whole hplaces rfl hzero]
  exact congrArg Except.ok (show (0 : Double) + 0 = 0 by decide +kernel)

/-- **Rounding to places after the point succeeds.** -/
theorem exists_roundForDisplay (hplaces : 0 ≤ places) (x : Double) :
    ∃ y, x.roundForDisplay places = .ok y := by
  cases x with
  | nan => exact ⟨_, rfl⟩
  | infinity negative => exact ⟨_, rfl⟩
  | finite negative m e h =>
    obtain ⟨y, hround, -⟩ := roundForDisplay_near hplaces (x := finite negative m e h) rfl
    exact ⟨y, hround⟩

end Stepwise.Double
