/-
# Rounding to the nearest double

Rounding in terms of rationals: it depends on the quotient alone, yields a double from any number
close to it, and leaves doubles as they are.

* `floorLog2_eq_log` : the binary exponent is the integer logarithm;
* `Double.roundQuotient_congr` : equal quotients are rounded alike;
* `Double.roundQuotient_of_near` : what is close to a double is rounded to it;
* `Double.round_value` : a double is its own rounding.
-/
import Mathlib.Data.Int.Log
import Mathlib.Data.Rat.Floor
import Mathlib.Tactic
import Stepwise.Double.Arithmetic

namespace Stepwise

/-! ## Powers of two and shifted quotients -/

@[simp] theorem twoTo_eq (n : Nat) : twoTo n = 2 ^ n := rfl

@[simp] theorem tenTo_eq (n : Nat) : tenTo n = 10 ^ n := rfl

theorem Double.twoPow_eq (k : Int) : Double.twoPow k = (2 : ℚ) ^ k := by
  cases k with
  | ofNat n =>
    simp only [Double.twoPow, twoTo_eq, Rat.mkRat_eq_div]
    simp
  | negSucc n =>
    simp only [Double.twoPow, twoTo_eq, Rat.mkRat_eq_div, zpow_negSucc]
    simp

theorem shiftQuotient_pos {n d : Nat} (hd : 0 < d) (k : Int) : 0 < (shiftQuotient n d k).2 := by
  cases k with
  | ofNat k => exact hd
  | negSucc k => exact Nat.mul_pos hd (Nat.two_pow_pos (k + 1))

/-- A shifted quotient is the quotient times a power of two. -/
theorem shiftQuotient_div (n d : Nat) (k : Int) :
    ((shiftQuotient n d k).1 : ℚ) / (shiftQuotient n d k).2 = n / d * (2 : ℚ) ^ k := by
  cases k with
  | ofNat k =>
    simp only [shiftQuotient, twoTo_eq, Int.ofNat_eq_natCast, zpow_natCast]
    push_cast
    ring
  | negSucc k =>
    simp only [shiftQuotient, twoTo_eq, zpow_negSucc]
    push_cast
    rw [← div_div, div_eq_mul_inv]

/-! ## The binary exponent -/

theorem natLog2_bounds {n : Nat} (hn : 0 < n) :
    (2 : ℚ) ^ (n.log2 : Int) ≤ n ∧ (n : ℚ) < 2 ^ ((n.log2 : Int) + 1) := by
  constructor
  · rw [zpow_natCast]
    exact_mod_cast Nat.log2_self_le hn.ne'
  · have hlt : n < 2 ^ (n.log2 + 1) := Nat.lt_log2_self
    exact_mod_cast hlt

/-- The integer logarithm of a rational between two neighbouring powers of two. -/
theorem log_two_eq {q : ℚ} {k : Int} (hlower : (2 : ℚ) ^ k ≤ q) (hupper : q < 2 ^ (k + 1)) :
    Int.log 2 q = k := by
  have hq : 0 < q := lt_of_lt_of_le (by positivity) hlower
  have hle : k ≤ Int.log 2 q :=
    (Int.zpow_le_iff_le_log (by norm_num) hq).mp (by exact_mod_cast hlower)
  have hlt : Int.log 2 q < k + 1 :=
    (Int.lt_zpow_iff_log_lt (by norm_num) hq).mp (by exact_mod_cast hupper)
  omega

/-- The binary exponent of a quotient is its integer logarithm. -/
theorem floorLog2_eq_log {n d : Nat} (hn : 0 < n) (hd : 0 < d) :
    floorLog2 n d = Int.log 2 ((n : ℚ) / d) := by
  have hq : (0 : ℚ) < n / d := by positivity
  obtain ⟨hnle, hnlt⟩ := natLog2_bounds hn
  obtain ⟨hdle, hdlt⟩ := natLog2_bounds hd
  set k : Int := (n.log2 : Int) - (d.log2 : Int) with hk
  have hupper : (n : ℚ) / d < 2 ^ (k + 1) := by
    rw [div_lt_iff₀ (by positivity)]
    calc (n : ℚ) < 2 ^ ((n.log2 : Int) + 1) := hnlt
      _ = 2 ^ (k + 1) * 2 ^ (d.log2 : Int) := by
        rw [← zpow_add₀ (by norm_num)]
        congr 1
        omega
      _ ≤ 2 ^ (k + 1) * d := by gcongr
  have hlower : (2 : ℚ) ^ (k - 1) ≤ n / d := by
    rw [le_div_iff₀ (by positivity)]
    calc (2 : ℚ) ^ (k - 1) * d ≤ 2 ^ (k - 1) * 2 ^ ((d.log2 : Int) + 1) := by gcongr
      _ = 2 ^ (n.log2 : Int) := by
        rw [← zpow_add₀ (by norm_num)]
        congr 1
        omega
      _ ≤ n := hnle
  have hshifted : (shiftQuotient n d (-k)).1 < (shiftQuotient n d (-k)).2 ↔
      (n : ℚ) / d < 2 ^ k := by
    have hpos : (0 : ℚ) < (shiftQuotient n d (-k)).2 := by
      exact_mod_cast shiftQuotient_pos hd (-k)
    have hdiv := shiftQuotient_div n d (-k)
    have hcast : (shiftQuotient n d (-k)).1 < (shiftQuotient n d (-k)).2 ↔
        ((shiftQuotient n d (-k)).1 : ℚ) < (shiftQuotient n d (-k)).2 := Nat.cast_lt.symm
    rw [hcast, ← div_lt_one hpos, hdiv, zpow_neg, ← div_eq_mul_inv, div_lt_one (by positivity)]
  simp only [floorLog2, ← hk]
  by_cases hlt : (n : ℚ) / d < 2 ^ k
  · rw [if_pos (hshifted.mpr hlt)]
    exact (log_two_eq hlower (by simpa using hlt)).symm
  · rw [if_neg (fun h => hlt (hshifted.mp h))]
    exact (log_two_eq (not_lt.mp hlt) hupper).symm

/-! ## The nearest natural number -/

theorem roundDivision_mul_right (n d : Nat) {k : Nat} (hk : 0 < k) :
    roundDivision (n * k) (d * k) = roundDivision n d := by
  have hlt : 2 * (n % d * k) < d * k ↔ 2 * (n % d) < d := by
    rw [← mul_assoc]
    exact Nat.mul_lt_mul_right hk
  have heq : 2 * (n % d * k) = d * k ↔ 2 * (n % d) = d := by
    rw [← mul_assoc]
    exact Nat.mul_left_inj hk.ne'
  simp only [roundDivision, Nat.mul_div_mul_right _ _ hk, Nat.mul_mod_mul_right, hlt, heq]

/-- Equal quotients have the same nearest natural number. -/
theorem roundDivision_congr {n d n' d' : Nat} (hd : 0 < d) (hd' : 0 < d')
    (h : (n : ℚ) / d = n' / d') : roundDivision n d = roundDivision n' d' := by
  have hcross : n * d' = n' * d := by
    rw [div_eq_div_iff (by positivity) (by positivity)] at h
    exact_mod_cast h
  calc roundDivision n d = roundDivision (n * d') (d * d') := (roundDivision_mul_right n d hd').symm
    _ = roundDivision (n' * d) (d' * d) := by rw [hcross, mul_comm d d']
    _ = roundDivision n' d' := roundDivision_mul_right n' d' hd

/-- A natural number less than a half away is the nearest one. -/
theorem roundDivision_eq_of_near {n d : Nat} (hd : 0 < d) {m : Nat}
    (h : |(n : ℚ) / d - m| < 1 / 2) : roundDivision n d = m := by
  have hpos : (0 : ℚ) < d := by exact_mod_cast hd
  obtain ⟨hlower, hupper⟩ := abs_lt.mp h
  have hlow : 2 * (m * d) < 2 * n + d := by
    have hq : (m : ℚ) - 1 / 2 < n / d := by linarith
    rw [lt_div_iff₀ hpos] at hq
    have hq' : (2 : ℚ) * (m * d) < 2 * n + d := by linarith
    exact_mod_cast hq'
  have hhigh : 2 * n < 2 * (m * d) + d := by
    have hq : (n : ℚ) / d < m + 1 / 2 := by linarith
    rw [div_lt_iff₀ hpos] at hq
    have hq' : (2 : ℚ) * n < 2 * (m * d) + d := by linarith
    exact_mod_cast hq'
  have hsplit : d * (n / d) + n % d = n := Nat.div_add_mod n d
  have hmod : n % d < d := Nat.mod_lt n hd
  -- The quotient is the number itself or the one below it.
  rcases lt_or_ge n (m * d) with hlt | hge
  · obtain ⟨j, rfl⟩ : ∃ j, m = j + 1 :=
      Nat.exists_eq_succ_of_ne_zero (by rintro rfl; simp at hlt)
    have hdiv : n / d = j := Nat.div_eq_of_lt_le (by nlinarith) hlt
    rw [hdiv] at hsplit
    have hfar : ¬ 2 * (n % d) < d := by nlinarith
    have hne : 2 * (n % d) ≠ d := by nlinarith
    simp only [roundDivision, hdiv, if_neg hfar, if_neg hne]
  · have hdiv : n / d = m := by
      refine Nat.div_eq_of_lt_le hge ?_
      rw [Nat.succ_mul]
      omega
    rw [hdiv] at hsplit
    have hnear : 2 * (n % d) < d := by nlinarith
    simp only [roundDivision, hdiv, if_pos hnear]

namespace Double

/-! ## Rounded quotients -/

/-- The exponent that a positive rational is rounded at. -/
def roundingExponent (q : ℚ) : Int := max (-1074) (Int.log 2 q - 52)

theorem roundQuotient_eq (negative : Bool) {n d : Nat} (hn : 0 < n) (hd : 0 < d) {e : Int}
    (he : roundingExponent ((n : ℚ) / d) = e) {n' d' : Nat} (hd' : 0 < d')
    (hshifted : (n' : ℚ) / d' = n / d * 2 ^ (-e)) :
    roundQuotient negative n d =
      if roundDivision n' d' = 2 ^ 53 then ofParts negative (2 ^ 52) (e + 1)
      else ofParts negative (roundDivision n' d') e := by
  have hexponent : max (-1074) (floorLog2 n d - 52) = e := by
    rw [floorLog2_eq_log hn hd]
    exact he
  have hdivision : roundDivision (shiftQuotient n d (-e)).1 (shiftQuotient n d (-e)).2 =
      roundDivision n' d' :=
    roundDivision_congr (shiftQuotient_pos hd _) hd'
      ((shiftQuotient_div n d (-e)).trans hshifted.symm)
  simp only [roundQuotient, if_neg hn.ne', hexponent, hdivision, twoTo_eq]

/-- Equal quotients are rounded alike. -/
theorem roundQuotient_congr (negative : Bool) {n d n' d' : Nat} (hd : 0 < d) (hd' : 0 < d')
    (h : (n : ℚ) / d = n' / d') : roundQuotient negative n d = roundQuotient negative n' d' := by
  rcases Nat.eq_zero_or_pos n with rfl | hn
  · have hn' : n' = 0 := by
      have hzero : (n' : ℚ) / d' = 0 := by
        rw [← h]
        simp
      rcases div_eq_zero_iff.mp hzero with hzero | hzero
      · exact_mod_cast hzero
      · exact absurd (by exact_mod_cast hzero) hd'.ne'
    rw [hn']
    simp [roundQuotient]
  · have hn' : 0 < n' := by
      have hq : (0 : ℚ) < n' / d' := by
        rw [← h]
        positivity
      rcases Nat.eq_zero_or_pos n' with rfl | hn'
      · simp at hq
      · exact hn'
    have hshifted := shiftQuotient_div n d (-roundingExponent ((n : ℚ) / d))
    have hpos := shiftQuotient_pos (n := n) hd (-roundingExponent ((n : ℚ) / d))
    rw [roundQuotient_eq negative hn hd rfl hpos hshifted]
    exact (roundQuotient_eq negative hn' hd' (by rw [h]) hpos (by rw [hshifted, h])).symm

theorem ofParts_of_canonical (negative : Bool) {m : Nat} {e : Int} (h : Canonical m e) :
    ofParts negative m e = .finite negative m e h := by
  rw [ofParts, dif_pos h]

/-- A natural number less than half a unit away is the mantissa of a rounded quotient. -/
theorem roundQuotient_eq_ofParts (negative : Bool) {n d : Nat} (hd : 0 < d)
    (hq : (0 : ℚ) < n / d) {e : Int} (he : roundingExponent ((n : ℚ) / d) = e) {m : Nat}
    (hnear : |(n : ℚ) / d * 2 ^ (-e) - m| < 1 / 2) :
    roundQuotient negative n d =
      if m = 2 ^ 53 then ofParts negative (2 ^ 52) (e + 1) else ofParts negative m e := by
  have hn : 0 < n := by
    rcases Nat.eq_zero_or_pos n with rfl | hn
    · simp at hq
    · exact hn
  have hshifted := shiftQuotient_div n d (-e)
  have hpos := shiftQuotient_pos (n := n) hd (-e)
  rw [roundQuotient_eq negative hn hd he hpos hshifted,
    roundDivision_eq_of_near hpos (by rw [hshifted]; exact hnear)]

theorem roundQuotient_of_exponent (negative : Bool) {m : Nat} {e : Int} (h : Canonical m e)
    {n d : Nat} (hd : 0 < d) (hq : (0 : ℚ) < n / d) (he : roundingExponent ((n : ℚ) / d) = e)
    (hnear : |(n : ℚ) / d * 2 ^ (-e) - m| < 1 / 2) :
    roundQuotient negative n d = .finite negative m e h := by
  have hne : m ≠ 2 ^ 53 := by
    rintro rfl
    exact absurd h.1 (by decide)
  rw [roundQuotient_eq_ofParts negative hd hq he hnear, if_neg hne, ofParts_of_canonical]

/-- A quotient just below a power of two is rounded up to it, from the exponent before. -/
theorem roundQuotient_below_power (negative : Bool) {e : Int} (h : Canonical (2 ^ 52) e)
    (he : -1074 < e) {n d : Nat} (hd : 0 < d) {x : ℚ} (hx : (n : ℚ) / d = x * 2 ^ e)
    (hlower : 2 ^ 52 - 1 / 4 < x) (hupper : x < 2 ^ 52) :
    roundQuotient negative n d = .finite negative (2 ^ 52) e h := by
  have hunit : (0 : ℚ) < 2 ^ e := by positivity
  have hpos : 0 < x := by linarith
  have hlog : Int.log 2 ((n : ℚ) / d) = 51 + e := by
    refine log_two_eq ?_ ?_
    · rw [hx, zpow_add₀ (by norm_num)]
      exact mul_le_mul_of_nonneg_right (by norm_num; linarith) hunit.le
    · rw [hx, add_right_comm, zpow_add₀ (by norm_num)]
      exact mul_lt_mul_of_pos_right (by norm_num; linarith) hunit
  have hexponent : roundingExponent ((n : ℚ) / d) = e - 1 := by
    rw [roundingExponent, hlog]
    omega
  have hdouble : (n : ℚ) / d * 2 ^ (-(e - 1)) = x * 2 := by
    rw [hx, mul_assoc, ← zpow_add₀ (by norm_num)]
    congr 1
    rw [show e + -(e - 1) = 1 by ring, zpow_one]
  have hnear : |(n : ℚ) / d * 2 ^ (-(e - 1)) - (2 ^ 53 : Nat)| < 1 / 2 := by
    rw [hdouble, abs_lt]
    constructor <;> push_cast <;> linarith
  rw [roundQuotient_eq_ofParts negative hd (by rw [hx]; positivity) hexponent hnear, if_pos rfl,
    sub_add_cancel, ofParts_of_canonical]

/-- **What is close to a double is rounded to it.**  Close means within `2 ^ -54` of its size, which
is less than half the distance to either neighbour. -/
theorem roundQuotient_of_near (negative : Bool) {m : Nat} {e : Int} (h : Canonical m e)
    {n d : Nat} (hd : 0 < d)
    (hnear : |(n : ℚ) / d - m * 2 ^ e| * 2 ^ 54 < m * 2 ^ e) :
    roundQuotient negative n d = .finite negative m e h := by
  have hunit : (0 : ℚ) < 2 ^ e := by positivity
  obtain ⟨x, hx⟩ : ∃ x, (n : ℚ) / d = x * 2 ^ e := ⟨n / d / 2 ^ e, by field_simp⟩
  -- In units of the last place the distance is less than `m / 2 ^ 54`.
  have hdistance : |x - m| * 2 ^ 54 < m := by
    have hscaled : |x - m| * 2 ^ 54 * 2 ^ e < m * 2 ^ e := by
      rw [hx, ← sub_mul, abs_mul, abs_of_pos hunit] at hnear
      linarith
    exact lt_of_mul_lt_mul_right hscaled hunit.le
  have hmantissa : (m : ℚ) + 1 ≤ 2 ^ 53 := by
    have hlt : m + 1 ≤ 2 ^ 53 := h.1
    exact_mod_cast hlt
  have hclose : |x - m| < 1 / 2 := by linarith
  obtain ⟨hlow, hhigh⟩ := abs_lt.mp hclose
  have hself : |(n : ℚ) / d * 2 ^ (-e) - m| < 1 / 2 := by
    rw [hx, mul_assoc, ← zpow_add₀ (by norm_num), add_neg_cancel, zpow_zero, mul_one]
    exact hclose
  have hpos : 0 < x := by
    rcases Nat.eq_zero_or_pos m with rfl | hm
    · have habs := abs_nonneg (x - (0 : Nat))
      rw [Nat.cast_zero] at hdistance habs
      linarith
    · have hone : (1 : ℚ) ≤ m := by exact_mod_cast hm
      linarith
  have hq : (0 : ℚ) < n / d := by
    rw [hx]
    positivity
  rcases le_or_gt ((2 : ℚ) ^ 52) x with hge | hlt
  · -- The quotient has the binary exponent of the double.
    have hlog : Int.log 2 ((n : ℚ) / d) = 52 + e := by
      refine log_two_eq ?_ ?_
      · rw [hx, zpow_add₀ (by norm_num)]
        exact mul_le_mul_of_nonneg_right (by exact_mod_cast hge) hunit.le
      · rw [hx, add_right_comm, zpow_add₀ (by norm_num)]
        exact mul_lt_mul_of_pos_right (by norm_num; linarith) hunit
    refine roundQuotient_of_exponent negative h hd hq ?_ hself
    have hleast := h.2.1
    rw [roundingExponent, hlog]
    omega
  · have hlog : Int.log 2 ((n : ℚ) / d) < 52 + e := by
      refine (Int.lt_zpow_iff_log_lt (by norm_num) hq).mp ?_
      rw [hx, zpow_add₀ (by norm_num)]
      exact mul_lt_mul_of_pos_right (by exact_mod_cast hlt) hunit
    rcases eq_or_lt_of_le h.2.1 with rfl | hmore
    · refine roundQuotient_of_exponent negative h hd hq ?_ hself
      rw [roundingExponent]
      omega
    · -- The double is a power of two and the quotient lies below it.
      obtain rfl : m = 2 ^ 52 := by
        rcases h.2.2.2 with hnormal | rfl
        · by_contra hother
          have hle : 2 ^ 52 + 1 ≤ m := lt_of_le_of_ne hnormal (Ne.symm hother)
          have hcast : (2 : ℚ) ^ 52 + 1 ≤ m := by exact_mod_cast hle
          linarith
        · exact absurd hmore (lt_irrefl _)
      push_cast at hdistance
      obtain ⟨hlower, -⟩ := abs_lt.mp (show |x - 2 ^ 52| < 1 / 4 by linarith)
      exact roundQuotient_below_power negative h hmore hd hx (by linarith) hlt

/-! ## Doubles and their values -/

/-- The value of a finite double. -/
theorem value_finite (negative : Bool) (m : Nat) (e : Int) (h : Canonical m e) :
    (finite negative m e h).value = (if negative then -1 else 1) * ((m : ℚ) * 2 ^ e) := by
  simp only [value, twoPow_eq, Rat.mkRat_eq_div]
  cases negative <;> simp

theorem abs_value_finite (negative : Bool) (m : Nat) (e : Int) (h : Canonical m e) :
    |(finite negative m e h).value| = m * 2 ^ e := by
  rw [value_finite, abs_mul, abs_of_nonneg (by positivity : (0 : ℚ) ≤ m * 2 ^ e)]
  cases negative <;> simp

/-- Without a mantissa there is only the zero at the least exponent. -/
theorem eq_zero_of_mantissa {negative : Bool} {e : Int} (h : Canonical 0 e) :
    finite negative 0 e h = zero negative := by
  obtain rfl : e = -1074 := by
    rcases h.2.2.2 with hnormal | hleast
    · exact absurd hnormal (by decide)
    · exact hleast
  rfl

/-- A quotient that equals the value of a double is rounded to it. -/
theorem roundQuotient_of_eq (negative : Bool) {m : Nat} {e : Int} (h : Canonical m e) (hm : 0 < m)
    {n d : Nat} (hd : 0 < d) (hq : (n : ℚ) / d = m * 2 ^ e) :
    roundQuotient negative n d = .finite negative m e h := by
  refine roundQuotient_of_near negative h hd ?_
  rw [hq, sub_self, abs_zero, zero_mul]
  positivity

/-- A quotient beyond the largest finite double is rounded to an infinity. -/
theorem roundQuotient_of_large (negative : Bool) {n d : Nat} (hn : 0 < n) (hd : 0 < d)
    (h : 1024 ≤ Int.log 2 ((n : ℚ) / d)) : roundQuotient negative n d = .infinity negative := by
  have hparts (m : Nat) {e : Int} (he : 971 < e) : ofParts negative m e = .infinity negative := by
    rw [ofParts, dif_neg]
    intro hc
    exact absurd hc.2.2.1 (by omega)
  have hexponent : roundingExponent ((n : ℚ) / d) = Int.log 2 ((n : ℚ) / d) - 52 := by
    unfold roundingExponent
    omega
  rw [roundQuotient_eq negative hn hd hexponent (shiftQuotient_pos hd _) (shiftQuotient_div n d _)]
  split
  · exact hparts _ (by omega)
  · exact hparts _ (by omega)

/-- A quotient below half the least positive double is rounded to zero. -/
theorem roundQuotient_of_tiny (negative : Bool) {n d : Nat} (hd : 0 < d)
    (h : (n : ℚ) / d < 2 ^ (-1075 : Int)) : roundQuotient negative n d = zero negative := by
  rcases Nat.eq_zero_or_pos n with rfl | hn
  · rfl
  · have hq : (0 : ℚ) < n / d := by positivity
    have hlog : Int.log 2 ((n : ℚ) / d) < -1075 :=
      (Int.lt_zpow_iff_log_lt (by norm_num) hq).mp (by exact_mod_cast h)
    have hexponent : roundingExponent ((n : ℚ) / d) = -1074 := by
      unfold roundingExponent
      omega
    have hnear : |(n : ℚ) / d * 2 ^ (-(-1074) : Int) - (0 : Nat)| < 1 / 2 := by
      rw [Nat.cast_zero, sub_zero, abs_of_pos (by positivity)]
      calc (n : ℚ) / d * 2 ^ (-(-1074) : Int)
          < 2 ^ (-1075 : Int) * 2 ^ (-(-1074) : Int) :=
            mul_lt_mul_of_pos_right h (by positivity)
        _ = 1 / 2 := by
          rw [← zpow_add₀ (by norm_num)]
          norm_num
    rw [roundQuotient_eq_ofParts negative hd hq hexponent hnear, if_neg (by norm_num)]
    rfl

/-- The sign of a rounded quotient is its own. -/
theorem roundQuotient_true (n d : Nat) :
    roundQuotient true n d = -roundQuotient false n d := by
  have hparts (m : Nat) (e : Int) : ofParts true m e = -ofParts false m e := by
    unfold ofParts
    split <;> rfl
  simp only [roundQuotient, hparts]
  split
  · rfl
  · split <;> rfl

theorem natAbs_num_div_den (q : ℚ) : ((q.num.natAbs : Nat) : ℚ) / q.den = |q| := by
  conv_rhs => rw [← Rat.num_div_den q]
  rw [Nat.cast_natAbs, Int.cast_abs, abs_div, Nat.abs_cast]

theorem round_zero (s : Bool) : round s 0 = zero s := rfl

/-- A rational other than zero is rounded by its sign and its magnitude. -/
theorem round_of_ne_zero (s : Bool) {q : ℚ} (hq : q ≠ 0) :
    round s q = roundQuotient (decide (q < 0)) q.num.natAbs q.den := by
  have hnum : ¬ q.num = 0 := Rat.num_ne_zero.mpr hq
  simp only [round, if_neg hnum, Rat.num_neg]

/-- A quotient of natural numbers is rounded as a rational. -/
theorem roundQuotient_eq_round {n d : Nat} (hd : 0 < d) :
    roundQuotient false n d = round false ((n : ℚ) / d) := by
  rcases Nat.eq_zero_or_pos n with rfl | hn
  · rw [Nat.cast_zero, zero_div]
    rfl
  · have hpos : (0 : ℚ) < n / d := by positivity
    rw [round_of_ne_zero false hpos.ne', decide_eq_false hpos.le.not_gt]
    refine roundQuotient_congr false hd (Rat.den_pos _) ?_
    rw [natAbs_num_div_den, abs_of_pos hpos]

protected theorem neg_neg (x : Double) : -(-x) = x := by
  cases x with
  | nan => rfl
  | infinity negative => exact congrArg infinity (Bool.not_not negative)
  | finite negative m e h =>
    show finite (!!negative) m e h = finite negative m e h
    rw [Bool.not_not]

/-- Rounding turns the sign with the number. -/
theorem round_neg {s : Bool} {q : ℚ} (hq : q ≠ 0) : round s (-q) = -round s q := by
  rw [round_of_ne_zero s hq, round_of_ne_zero s (neg_ne_zero.mpr hq), Rat.neg_num, Int.natAbs_neg,
    Rat.neg_den]
  rcases lt_or_gt_of_ne hq with hlt | hgt
  · have hnot : ¬ -q < 0 := by linarith
    rw [decide_eq_true hlt, decide_eq_false hnot, roundQuotient_true, Double.neg_neg]
  · have hlt : -q < 0 := by linarith
    rw [decide_eq_true hlt, decide_eq_false hgt.not_gt, roundQuotient_true]

theorem value_eq_zero_iff {x : Double} (hfinite : x.isFinite = true) :
    x.value = 0 ↔ x.isZero = true := by
  cases x with
  | nan | infinity negative => cases hfinite
  | finite negative m e h =>
    have hunit : (2 : ℚ) ^ e ≠ 0 := by positivity
    rw [value_finite]
    cases negative <;> simp [isZero, hunit]

/-- **A double is its own rounding**, unless it is zero. -/
theorem round_value (s : Bool) {x : Double} (hfinite : x.isFinite = true)
    (hzero : x.isZero = false) : round s x.value = x := by
  have hne : x.value ≠ 0 := by
    rw [ne_eq, value_eq_zero_iff hfinite, hzero]
    simp
  rw [round_of_ne_zero s hne]
  cases x with
  | nan | infinity negative => cases hfinite
  | finite negative m e h =>
    have hm : 0 < m := Nat.pos_of_ne_zero (by simpa [isZero] using hzero)
    have hpos : (0 : ℚ) < m * 2 ^ e := by positivity
    have hnegative : decide ((finite negative m e h).value < 0) = negative := by
      cases negative
      · simpa [value_finite] using hpos.le
      · simpa [value_finite] using hpos
    rw [hnegative]
    exact roundQuotient_of_eq negative h hm (Rat.den_pos _)
      ((natAbs_num_div_den _).trans (abs_value_finite ..))

end Double

end Stepwise
