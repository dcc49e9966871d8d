/-
# Rationals too large for a double

A rational is rounded to a finite double as long as it stays below the threshold that lies half a
unit of the last place above the largest one; from there on it is rounded to an infinity.

* `Double.overflowThreshold` : the threshold;
* `Double.isFinite_round_iff` : which rationals are rounded to finite doubles;
* `Double.abs_value_lt` : finite doubles stay below the threshold;
* `Double.exists_power`, `Double.power_overflow` : which whole powers succeed.
-/
import Stepwise.Proofs.Double.Nearest
import Stepwise.Proofs.Double.Power

namespace Stepwise.Double

/-- Half a unit of the last place above the largest finite double; its size is `1.8e308`. -/
def overflowThreshold : ℚ := (2 ^ 53 - 1 / 2) * 2 ^ (971 : ℤ)

/-! ## The threshold -/

theorem two_pow_mul_zpow (k : ℕ) (e : ℤ) : (2 : ℚ) ^ k * 2 ^ e = 2 ^ (k + e) := by
  rw [← zpow_natCast, ← zpow_add₀ (by norm_num)]

theorem one_lt_overflowThreshold : 1 < overflowThreshold := by
  have hunit : (1 : ℚ) ≤ 2 ^ (971 : ℤ) := one_le_zpow₀ (by norm_num) (by norm_num)
  exact one_lt_mul_of_lt_of_le (by norm_num) hunit

theorem overflowThreshold_lt : overflowThreshold < 2 ^ (1024 : ℤ) :=
  calc overflowThreshold < 2 ^ 53 * 2 ^ (971 : ℤ) :=
        mul_lt_mul_of_pos_right (by norm_num) (by positivity)
    _ = 2 ^ (1024 : ℤ) := two_pow_mul_zpow 53 971

variable {q : ℚ}

/-- Below the threshold, in the last binade, the mantissa stays below `2 ^ 53`. -/
theorem roundingMantissa_lt (hq : 0 < q) (h : q < overflowThreshold)
    (hexponent : roundingExponent q = 971) : (roundingMantissa q : ℚ) < 2 ^ 53 := by
  -- In units of the last place the number is less than `2 ^ 53 - 1 / 2`, and the mantissa is at
  -- most one half away.
  have hscaled : scaled q < 2 ^ 53 - 1 / 2 := by
    have hself := scaled_mul q
    rw [hexponent] at hself
    rw [← hself, overflowThreshold] at h
    exact lt_of_mul_lt_mul_right h (by positivity)
  have hnear := abs_roundDivision_sub_le (n := (scaled q).num.natAbs) (Rat.den_pos (scaled q))
  rw [scaled_quotient hq] at hnear
  have hupper := (abs_le.mp hnear).2
  unfold roundingMantissa
  linarith only [hupper, hscaled]

/-- From the threshold on, in the last binade, the mantissa is rounded up to `2 ^ 53`. -/
theorem roundingMantissa_full (hq : 0 < q) (h : overflowThreshold ≤ q)
    (hexponent : roundingExponent q = 971) : roundingMantissa q = 2 ^ 53 := by
  have hscaled : ((2 ^ 54 - 1 : Nat) : ℚ) / (2 : Nat) ≤
      ((scaled q).num.natAbs : ℚ) / (scaled q).den := by
    have hself := scaled_mul q
    rw [hexponent] at hself
    rw [← hself, overflowThreshold] at h
    have hle := le_of_mul_le_mul_right h (by positivity)
    rw [scaled_quotient hq]
    norm_num at hle ⊢
    linarith only [hle]
  have hround : 2 ^ 53 ≤ roundDivision (2 ^ 54 - 1) 2 := by decide +kernel
  exact le_antisymm (roundingMantissa_le hq)
    (hround.trans (roundDivision_mono (by norm_num) (Rat.den_pos _) hscaled))

/-- From the threshold on the exponent is that of the last binade, or greater. -/
theorem le_roundingExponent (hq : 0 < q) (h : overflowThreshold ≤ q) :
    971 ≤ roundingExponent q := by
  have hlog : 1023 ≤ Int.log 2 q := by
    refine (Int.zpow_le_iff_le_log (by norm_num) hq).mp (le_trans ?_ h)
    calc ((2 : ℕ) : ℚ) ^ (1023 : ℤ) = 2 ^ 52 * 2 ^ (971 : ℤ) := (two_pow_mul_zpow 52 971).symm
      _ ≤ overflowThreshold := by
          unfold overflowThreshold
          gcongr
          norm_num
  unfold roundingExponent
  omega

/-- Below the threshold the rounding stays below `2 ^ 1024`. -/
theorem nearest_lt_of_lt (hq : 0 < q) (h : q < overflowThreshold) : nearest q < 2 ^ (1024 : ℤ) := by
  have hmantissa : (roundingMantissa q : ℚ) ≤ 2 ^ 53 := by exact_mod_cast roundingMantissa_le hq
  have hlog : Int.log 2 q < 1024 := by
    refine (Int.lt_zpow_iff_log_lt (by norm_num) hq).mp ?_
    exact_mod_cast h.trans overflowThreshold_lt
  have hexponent : roundingExponent q ≤ 971 := by
    unfold roundingExponent
    omega
  unfold nearest
  rcases hexponent.lt_or_eq with hlt | heq
  · calc (roundingMantissa q : ℚ) * 2 ^ roundingExponent q
        ≤ 2 ^ 53 * 2 ^ (970 : ℤ) := by
          gcongr
          · norm_num
          · omega
      _ = 2 ^ (1023 : ℤ) := two_pow_mul_zpow 53 970
      _ < 2 ^ (1024 : ℤ) := zpow_lt_zpow_right₀ (by norm_num) (by norm_num)
  · have hbelow := roundingMantissa_lt hq h heq
    calc (roundingMantissa q : ℚ) * 2 ^ roundingExponent q < 2 ^ 53 * 2 ^ (971 : ℤ) := by
          rw [heq]
          gcongr
      _ = 2 ^ (1024 : ℤ) := two_pow_mul_zpow 53 971

/-- Beyond the last exponent there are infinities only. -/
theorem ofParts_eq_infinity (s : Bool) (m : Nat) {e : Int} (he : 971 < e) :
    ofParts s m e = .infinity s := by
  rw [ofParts, dif_neg]
  intro hparts
  exact absurd hparts.2.2.1 (Int.not_le.mpr he)

/-- From the threshold on a quotient is rounded to an infinity. -/
theorem roundQuotient_overflow (s : Bool) {n d : Nat} (hd : 0 < d)
    (h : overflowThreshold ≤ (n : ℚ) / d) : roundQuotient s n d = .infinity s := by
  set q : ℚ := n / d with hqdef
  have hq : 0 < q := (zero_lt_one.trans one_lt_overflowThreshold).trans_le h
  have hn : 0 < n := by
    rcases Nat.eq_zero_or_pos n with rfl | hn
    · simp [hqdef] at hq
    · exact hn
  have hround := roundQuotient_eq s hn hd rfl (Rat.den_pos (scaled q)) (scaled_quotient hq)
  change roundQuotient s n d =
    if roundingMantissa q = 2 ^ 53 then ofParts s (2 ^ 52) (roundingExponent q + 1)
    else ofParts s (roundingMantissa q) (roundingExponent q) at hround
  rw [hround]
  rcases (le_roundingExponent hq h).eq_or_lt with heq | hlt
  · rw [if_pos (roundingMantissa_full hq h heq.symm)]
    exact ofParts_eq_infinity s _ (by omega)
  · split_ifs
    · exact ofParts_eq_infinity s _ (by omega)
    · exact ofParts_eq_infinity s _ hlt

/-- **Below the threshold**, and only there, a rational is rounded to a finite double. -/
theorem isFinite_round_iff (s : Bool) (q : ℚ) :
    (round s q).isFinite = true ↔ |q| < overflowThreshold := by
  by_cases hzero : q = 0
  · subst hzero
    rw [abs_zero]
    exact iff_of_true rfl (zero_lt_one.trans one_lt_overflowThreshold)
  · rw [round_of_ne_zero s hzero, ← natAbs_num_div_den]
    constructor
    · intro hfinite
      by_contra hlarge
      rw [roundQuotient_overflow _ q.den_pos (not_lt.mp hlarge)] at hfinite
      cases hfinite
    · intro hsmall
      have hpos : (0 : ℚ) < q.num.natAbs / q.den := by
        rw [natAbs_num_div_den]
        exact abs_pos.mpr hzero
      exact (roundQuotient_nearest _ q.den_pos hpos (nearest_lt_of_lt hpos hsmall)).1

/-- Finite doubles stay below the threshold. -/
theorem abs_value_lt {x : Double} (hx : x.isFinite = true) : |x.value| < overflowThreshold := by
  cases x with
  | nan | infinity negative => cases hx
  | finite negative m e h =>
    have hmantissa : (m : ℚ) + 1 ≤ 2 ^ 53 := by
      have hlt : m + 1 ≤ 2 ^ 53 := h.1
      exact_mod_cast hlt
    rw [abs_value_finite]
    calc (m : ℚ) * 2 ^ e ≤ m * 2 ^ (971 : ℤ) := by
          gcongr
          · norm_num
          · exact h.2.2.1
      _ < overflowThreshold := by
          unfold overflowThreshold
          gcongr
          linarith only [hmantissa]

/-- A rational below the threshold is rounded to the nearest magnitude. -/
theorem abs_value_round (s : Bool) (hq : q ≠ 0) (h : |q| < overflowThreshold) :
    |(round s q).value| = nearest |q| := by
  have hpos : 0 < |q| := abs_pos.mpr hq
  obtain ⟨-, hvalue⟩ := roundQuotient_nearest (decide (q < 0)) q.den_pos
    (by rwa [natAbs_num_div_den]) (by rw [natAbs_num_div_den]; exact nearest_lt_of_lt hpos h)
  rw [round_of_ne_zero s hq, hvalue, natAbs_num_div_den, abs_mul,
    abs_of_nonneg (nearest_nonneg _)]
  split <;> simp

/-- The magnitude of a double is its own nearest one. -/
theorem nearest_abs_value {x : Double} (hx : x.isFinite = true) (hne : x.value ≠ 0) :
    nearest |x.value| = |x.value| := by
  have hzero : x.isZero = false := by
    rw [ne_eq, value_eq_zero_iff hx] at hne
    exact Bool.eq_false_iff.mpr hne
  rw [← abs_value_round false hne (abs_value_lt hx), round_value false hx hzero]

/-- Large doubles stand for whole numbers. -/
theorem exists_represents_of_large {x : Double} (hx : x.isFinite = true)
    (h : 2 ^ 53 ≤ |x.value|) : ∃ n : ℤ, x.Represents n := by
  cases x with
  | nan | infinity negative => cases hx
  | finite negative m e hc =>
    have hexponent : 0 ≤ e := by
      by_contra hneg
      rw [abs_value_finite] at h
      have hmantissa : (m : ℚ) < 2 ^ 53 := by exact_mod_cast hc.1
      have hunit : (2 : ℚ) ^ e ≤ 1 := zpow_le_one_of_nonpos₀ (by norm_num) (by omega)
      have hle : (m : ℚ) * 2 ^ e ≤ m := mul_le_of_le_one_right (by positivity) hunit
      linarith only [h, hmantissa, hle]
    obtain ⟨k, rfl⟩ := Int.eq_ofNat_of_zero_le hexponent
    refine ⟨(if negative then -1 else 1) * (m * 2 ^ k), rfl, ?_⟩
    rw [value_finite]
    cases negative <;> simp

/-- Powers of two below `2 ^ 1024` are doubles. -/
theorem representable_two_pow {k : ℕ} (hk : k ≤ 1023) : Representable (2 ^ k) := by
  have hcanonical : Canonical (2 ^ 52) ((k : ℤ) - 52) :=
    ⟨by norm_num, by omega, by omega, .inl (by norm_num)⟩
  refine ⟨finite false _ _ hcanonical, rfl, ?_⟩
  rw [value_finite, if_neg Bool.false_ne_true, one_mul, Nat.cast_pow, Nat.cast_ofNat,
    two_pow_mul_zpow, ← zpow_natCast]
  congr 1
  push_cast
  ring

theorem represents_two_pow {k : ℕ} (hk : k ≤ 1023) : (ofNat (2 ^ k)).Represents (2 ^ k) := by
  rw [ofNat, roundQuotient_eq_round one_pos, Nat.cast_one, div_one, Nat.cast_pow, Nat.cast_ofNat]
  exact represents_round false (representable_two_pow hk)

/-- A whole number other than zero keeps a magnitude of at least one. -/
theorem one_le_abs_value_round (s : Bool) {n : ℤ} (hn : n ≠ 0)
    (hfinite : (round s n).isFinite = true) : 1 ≤ |(round s n).value| := by
  have hone : (1 : ℚ) ≤ |(n : ℚ)| := by exact_mod_cast Int.one_le_abs hn
  have hnearest : nearest 1 = 1 := by
    have hself := nearest_abs_value represents_one.1 (by rw [represents_one.2]; exact one_ne_zero)
    rwa [represents_one.2, abs_one] at hself
  rw [abs_value_round s (by exact_mod_cast hn) ((isFinite_round_iff s _).mp hfinite), ← hnearest]
  exact nearest_mono zero_lt_one hone

/-! ## Whole powers -/

variable {x p : Double} {n : ℕ} (hx : x.isFinite = true) (hp : p.Represents n)
  (hn : n ≤ maxExactExponent)

include hx hp hn

/-- A whole power below the threshold is a number. -/
theorem exists_power (h : |x.value ^ n| < overflowThreshold) : ∃ y, x.power p = .ok y := by
  obtain ⟨y, hpower, -⟩ := power_whole hx hp hn ((isFinite_round_iff false _).mpr h)
  exact ⟨y, hpower⟩

/-- A whole power from the threshold on is too large. -/
theorem power_overflow (h : overflowThreshold ≤ |x.value ^ n|) :
    x.power p = .error .overflow := by
  have hlarge : 1 < |x.value ^ n| := one_lt_overflowThreshold.trans_le h
  have hpos : n ≠ 0 := by
    rintro rfl
    simp at hlarge
  have hbase : x.value ≠ 0 := by
    intro hzero
    rw [hzero, zero_pow hpos, abs_zero] at hlarge
    linarith only [hlarge]
  have hinfinite : ¬ (round false (x.value ^ n)).isFinite = true := by
    rw [isFinite_round_iff]
    exact not_lt.mpr h
  rw [power_of_ne_zero hx hbase hp hn hpos, finiteOrOverflow, if_neg hinfinite]

end Stepwise.Double
