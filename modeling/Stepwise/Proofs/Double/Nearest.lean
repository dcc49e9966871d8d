/-
# The error of a rounding

A rational is rounded to a whole multiple of a power of two, so that it moves by at most half that
power: by `2 ^ -53` of its size, or by `2 ^ -1075` where it is tiny.

* `abs_roundDivision_sub_le`, `roundDivision_mono` : the nearest natural number;
* `Double.nearest` : the rational that a positive rational is rounded to;
* `Double.abs_nearest_sub_le`, `Double.nearest_mono` : its distance and its order;
* `Double.roundQuotient_nearest` : a rounded quotient has the nearest value, unless it is too large;
* `Double.roundQuotient_near`, `Double.round_near` : what is rounded is finite and near;
* `Double.isZero_round` : what is not too near to zero is not rounded to zero.
-/
import Stepwise.Proofs.Double.Exact

namespace Stepwise

/-! ## The nearest natural number -/

/-- The nearest natural number is at most one half away. -/
theorem abs_roundDivision_sub_le {n d : Nat} (hd : 0 < d) :
    |(roundDivision n d : ℚ) - n / d| ≤ 1 / 2 := by
  have hpos : (0 : ℚ) < d := by exact_mod_cast hd
  have hsplit : ((n / d : Nat) : ℚ) + (n % d : Nat) / d = n / d := by
    rw [eq_div_iff hpos.ne', add_mul, div_mul_cancel₀ _ hpos.ne', mul_comm]
    exact_mod_cast Nat.div_add_mod n d
  have hmod : n % d < d := Nat.mod_lt n hd
  have hbelow (h : 2 * (n % d) ≤ d) : ((n % d : Nat) : ℚ) / d ≤ 1 / 2 := by
    have hcast : (2 : ℚ) * (n % d : Nat) ≤ d := by exact_mod_cast h
    rw [div_le_div_iff₀ hpos (by norm_num)]
    linarith
  have habove (h : d ≤ 2 * (n % d)) : 1 / 2 ≤ ((n % d : Nat) : ℚ) / d := by
    have hcast : (d : ℚ) ≤ 2 * (n % d : Nat) := by exact_mod_cast h
    rw [div_le_div_iff₀ (by norm_num) hpos]
    linarith
  have hnonneg : 0 ≤ ((n % d : Nat) : ℚ) / d := by positivity
  have hone : ((n % d : Nat) : ℚ) / d ≤ 1 := by
    rw [div_le_one hpos]
    exact_mod_cast hmod.le
  have hdown (h : 2 * (n % d) ≤ d) : |((n / d : Nat) : ℚ) - n / d| ≤ 1 / 2 := by
    have := hbelow h
    rw [abs_le]
    constructor <;> linarith
  have hup (h : d ≤ 2 * (n % d)) : |((n / d + 1 : Nat) : ℚ) - n / d| ≤ 1 / 2 := by
    have := habove h
    rw [abs_le]
    push_cast
    constructor <;> linarith
  simp only [roundDivision]
  split
  · exact hdown (by omega)
  · split
    · split
      · exact hdown (by omega)
      · exact hup (by omega)
    · exact hup (by omega)

@[simp] theorem roundDivision_one (n : Nat) : roundDivision n 1 = n :=
  roundDivision_eq_of_near one_pos (by simp)

/-- The nearest natural numbers are in the order of the quotients. -/
theorem roundDivision_mono {n d n' d' : Nat} (hd : 0 < d) (hd' : 0 < d')
    (h : (n : ℚ) / d ≤ n' / d') : roundDivision n d ≤ roundDivision n' d' := by
  by_contra hlt
  have hnext : (roundDivision n' d' : ℚ) + 1 ≤ roundDivision n d := by
    exact_mod_cast not_le.mp hlt
  obtain ⟨hlower, -⟩ := abs_le.mp (abs_roundDivision_sub_le (n := n') hd')
  obtain ⟨-, hupper⟩ := abs_le.mp (abs_roundDivision_sub_le (n := n) hd)
  -- Both quotients are one half away, hence equal.
  have hequal : (n : ℚ) / d = n' / d' := by linarith
  exact hlt (roundDivision_congr hd hd' hequal).le

namespace Double

/-! ## The nearest rational of at most 53 bits -/

/-- A positive rational in units of its last place. -/
def scaled (q : ℚ) : ℚ := q * 2 ^ (-roundingExponent q)

/-- The mantissa that a positive rational is rounded to. -/
def roundingMantissa (q : ℚ) : Nat := roundDivision (scaled q).num.natAbs (scaled q).den

/-- The rational that a positive rational is rounded to. -/
def nearest (q : ℚ) : ℚ := roundingMantissa q * 2 ^ roundingExponent q

variable {p q : ℚ}

theorem scaled_pos (hq : 0 < q) : 0 < scaled q := by
  unfold scaled
  positivity

theorem scaled_quotient (hq : 0 < q) :
    ((scaled q).num.natAbs : ℚ) / (scaled q).den = scaled q := by
  rw [natAbs_num_div_den, abs_of_pos (scaled_pos hq)]

theorem scaled_mul (q : ℚ) : scaled q * 2 ^ roundingExponent q = q := by
  unfold scaled
  rw [mul_assoc, ← zpow_add₀ (by norm_num), neg_add_cancel, zpow_zero, mul_one]

theorem two_pow_log_le (hq : 0 < q) : (2 : ℚ) ^ Int.log 2 q ≤ q := by
  exact_mod_cast Int.zpow_log_le_self (b := 2) (by norm_num) hq

theorem lt_two_pow_log (q : ℚ) : q < 2 ^ (Int.log 2 q + 1) := by
  exact_mod_cast Int.lt_zpow_succ_log_self (b := 2) (by norm_num) q

theorem scaled_lt (q : ℚ) : scaled q < 2 ^ 53 := by
  unfold scaled
  rw [zpow_neg, ← div_eq_mul_inv, div_lt_iff₀ (by positivity)]
  calc q < 2 ^ (Int.log 2 q + 1) := lt_two_pow_log q
    _ ≤ 2 ^ (53 + roundingExponent q) := by
      refine zpow_le_zpow_right₀ (by norm_num) ?_
      unfold roundingExponent
      omega
    _ = 2 ^ 53 * 2 ^ roundingExponent q := by
      rw [zpow_add₀ (by norm_num)]
      norm_num

theorem le_scaled (hq : 0 < q) (he : -1074 < roundingExponent q) : 2 ^ 52 ≤ scaled q := by
  unfold scaled
  rw [zpow_neg, ← div_eq_mul_inv, le_div_iff₀ (by positivity)]
  calc (2 : ℚ) ^ 52 * 2 ^ roundingExponent q = 2 ^ (52 + roundingExponent q) := by
        rw [zpow_add₀ (by norm_num)]
        norm_num
    _ ≤ 2 ^ Int.log 2 q := by
      refine zpow_le_zpow_right₀ (by norm_num) ?_
      unfold roundingExponent at he ⊢
      omega
    _ ≤ q := two_pow_log_le hq

theorem roundingMantissa_le (hq : 0 < q) : roundingMantissa q ≤ 2 ^ 53 := by
  have hle : ((scaled q).num.natAbs : ℚ) / (scaled q).den ≤ (2 ^ 53 : Nat) / (1 : Nat) := by
    rw [scaled_quotient hq, Nat.cast_one, div_one]
    exact_mod_cast (scaled_lt q).le
  calc roundingMantissa q
      ≤ roundDivision (2 ^ 53) 1 := roundDivision_mono (Rat.den_pos _) one_pos hle
    _ = 2 ^ 53 := roundDivision_one _

theorem le_roundingMantissa (hq : 0 < q) (he : -1074 < roundingExponent q) :
    2 ^ 52 ≤ roundingMantissa q := by
  have hle : ((2 ^ 52 : Nat) : ℚ) / (1 : Nat) ≤ (scaled q).num.natAbs / (scaled q).den := by
    rw [scaled_quotient hq, Nat.cast_one, div_one]
    exact_mod_cast le_scaled hq he
  calc 2 ^ 52 = roundDivision (2 ^ 52) 1 := (roundDivision_one _).symm
    _ ≤ roundingMantissa q := roundDivision_mono one_pos (Rat.den_pos _) hle

theorem nearest_nonneg (q : ℚ) : 0 ≤ nearest q := by
  unfold nearest
  positivity

/-- Half a unit of the last place is at most `2 ^ -53` of the number, or tiny. -/
theorem half_unit_le (hq : 0 < q) :
    (2 : ℚ) ^ roundingExponent q / 2 ≤ q * 2 ^ (-53 : ℤ) + 2 ^ (-1075 : ℤ) := by
  have hunit : (2 : ℚ) ^ roundingExponent q / 2 = 2 ^ (roundingExponent q - 1) := by
    rw [zpow_sub_one₀ (by norm_num), div_eq_mul_inv]
  have hleft : (0 : ℚ) ≤ q * 2 ^ (-53 : ℤ) := by positivity
  have hright : (0 : ℚ) ≤ 2 ^ (-1075 : ℤ) := by positivity
  rw [hunit]
  rcases le_total (-1074) (Int.log 2 q - 52) with hle | hge
  · have he : roundingExponent q = Int.log 2 q - 52 := max_eq_right hle
    have hlog : (2 : ℚ) ^ (roundingExponent q - 1) = 2 ^ Int.log 2 q * 2 ^ (-53 : ℤ) := by
      rw [he, ← zpow_add₀ (by norm_num)]
      congr 1
      ring
    rw [hlog]
    have hsmall : (2 : ℚ) ^ Int.log 2 q * 2 ^ (-53 : ℤ) ≤ q * 2 ^ (-53 : ℤ) := by
      gcongr
      exact two_pow_log_le hq
    linarith
  · have he : roundingExponent q = -1074 := max_eq_left hge
    rw [he]
    norm_num at hleft ⊢
    linarith

/-- **The distance of a rounding.** -/
theorem abs_nearest_sub_le (hq : 0 < q) :
    |nearest q - q| ≤ q * 2 ^ (-53 : ℤ) + 2 ^ (-1075 : ℤ) := by
  have hunit : (0 : ℚ) < 2 ^ roundingExponent q := by positivity
  have hnear := abs_roundDivision_sub_le (n := (scaled q).num.natAbs) (Rat.den_pos (scaled q))
  rw [scaled_quotient hq] at hnear
  have hdifference : nearest q - q = (roundingMantissa q - scaled q) * 2 ^ roundingExponent q := by
    rw [sub_mul, scaled_mul]
    rfl
  rw [hdifference, abs_mul, abs_of_pos hunit]
  calc |(roundingMantissa q : ℚ) - scaled q| * 2 ^ roundingExponent q
      ≤ 1 / 2 * 2 ^ roundingExponent q := by
        gcongr
        exact hnear
    _ = 2 ^ roundingExponent q / 2 := by ring
    _ ≤ q * 2 ^ (-53 : ℤ) + 2 ^ (-1075 : ℤ) := half_unit_le hq

theorem roundingExponent_mono (hp : 0 < p) (h : p ≤ q) :
    roundingExponent p ≤ roundingExponent q := by
  have hlog : Int.log 2 p ≤ Int.log 2 q := Int.log_mono_right hp h
  unfold roundingExponent
  omega

/-- **Rounding keeps the order.** -/
theorem nearest_mono (hp : 0 < p) (h : p ≤ q) : nearest p ≤ nearest q := by
  have hq : 0 < q := hp.trans_le h
  rcases (roundingExponent_mono hp h).eq_or_lt with heq | hlt
  · have hscaled : scaled p ≤ scaled q := by
      unfold scaled
      rw [heq]
      gcongr
    have hmantissa : roundingMantissa p ≤ roundingMantissa q :=
      roundDivision_mono (Rat.den_pos _) (Rat.den_pos _)
        (by rwa [scaled_quotient hp, scaled_quotient hq])
    unfold nearest
    rw [heq]
    gcongr
  · -- The power of two between the two exponents separates the results.
    have hleast : -1074 ≤ roundingExponent p := le_max_left _ _
    have hlow : (roundingMantissa p : ℚ) ≤ 2 ^ 53 := by exact_mod_cast roundingMantissa_le hp
    have hhigh : (2 : ℚ) ^ 52 ≤ roundingMantissa q := by
      exact_mod_cast le_roundingMantissa hq (by omega)
    calc nearest p ≤ 2 ^ 53 * 2 ^ roundingExponent p := by
          unfold nearest
          gcongr
      _ = 2 ^ 52 * 2 ^ (roundingExponent p + 1) := by
        rw [zpow_add_one₀ (by norm_num)]
        ring
      _ ≤ 2 ^ 52 * 2 ^ roundingExponent q := by
        gcongr
        · norm_num
        · omega
      _ ≤ nearest q := by
        unfold nearest
        gcongr

/-! ## Rounded quotients and rationals -/

/-- A rounded quotient has the nearest value, unless that is too large. -/
theorem roundQuotient_nearest (s : Bool) {n d : Nat} (hd : 0 < d) (hq : (0 : ℚ) < n / d)
    (hsmall : nearest ((n : ℚ) / d) < 2 ^ (1024 : ℤ)) :
    (roundQuotient s n d).isFinite = true ∧
      (roundQuotient s n d).value = (if s then -1 else 1) * nearest ((n : ℚ) / d) := by
  set q : ℚ := n / d with hqdef
  have hn : 0 < n := by
    rcases Nat.eq_zero_or_pos n with rfl | hn
    · simp [hqdef] at hq
    · exact hn
  have hround := roundQuotient_eq s hn hd rfl (Rat.den_pos (scaled q)) (scaled_quotient hq)
  have hleast : -1074 ≤ roundingExponent q := le_max_left _ _
  have hle : roundingMantissa q ≤ 2 ^ 53 := roundingMantissa_le hq
  -- A mantissa of `2 ^ k` or more keeps the exponent below `1024 - k`.
  have hexponent {k : Nat} (hmantissa : 2 ^ k ≤ roundingMantissa q) :
      (k : ℤ) + roundingExponent q < 1024 := by
    have hcast : (2 : ℚ) ^ k ≤ roundingMantissa q := by exact_mod_cast hmantissa
    have hpower : (2 : ℚ) ^ ((k : ℤ) + roundingExponent q) ≤ nearest q := by
      unfold nearest
      rw [zpow_add₀ (by norm_num), zpow_natCast]
      gcongr
    exact (zpow_lt_zpow_iff_right₀ (by norm_num)).mp (hpower.trans_lt hsmall)
  change roundQuotient s n d =
    if roundingMantissa q = 2 ^ 53 then ofParts s (2 ^ 52) (roundingExponent q + 1)
    else ofParts s (roundingMantissa q) (roundingExponent q) at hround
  by_cases hfull : roundingMantissa q = 2 ^ 53
  · have hfar := hexponent hfull.ge
    have hcanonical : Canonical (2 ^ 52) (roundingExponent q + 1) :=
      ⟨by norm_num, by omega, by omega, .inl (by norm_num)⟩
    rw [hround, if_pos hfull, ofParts_of_canonical s hcanonical]
    refine ⟨rfl, ?_⟩
    rw [value_finite, nearest, hfull, zpow_add_one₀ (by norm_num)]
    push_cast
    ring
  · have hcanonical : Canonical (roundingMantissa q) (roundingExponent q) := by
      have hlt : roundingMantissa q < 2 ^ 53 := lt_of_le_of_ne hle hfull
      rcases hleast.eq_or_lt with heq | hlt'
      · exact ⟨hlt, by omega, by omega, .inr heq.symm⟩
      · have hmantissa := le_roundingMantissa hq hlt'
        have hfar := hexponent hmantissa
        exact ⟨hlt, by omega, by omega, .inl hmantissa⟩
    rw [hround, if_neg hfull, ofParts_of_canonical s hcanonical]
    exact ⟨rfl, value_finite ..⟩

/-- A bound far below the largest finite double. -/
@[irreducible] def moderate : ℚ := 2 ^ (1000 : ℤ)

theorem le_moderate (h : q ≤ 2 ^ 200) : q ≤ moderate := by
  refine h.trans ?_
  unfold moderate
  rw [← zpow_natCast]
  exact zpow_le_zpow_right₀ (by norm_num) (by norm_num)

theorem four_moderate_lt : 4 * moderate < 2 ^ (1024 : ℤ) := by
  have hfour : 4 * moderate = 2 ^ (1002 : ℤ) := by
    unfold moderate
    rw [show (4 : ℚ) = 2 ^ (2 : ℤ) by norm_num, ← zpow_add₀ (by norm_num)]
    norm_num
  rw [hfour]
  exact zpow_lt_zpow_right₀ (by norm_num) (by norm_num)

/-- What is not too large is rounded to what is not too large. -/
theorem nearest_lt (hq : 0 < q) (h : q ≤ moderate) : nearest q < 2 ^ (1024 : ℤ) := by
  obtain ⟨-, hupper⟩ := abs_le.mp (abs_nearest_sub_le hq)
  have htiny : (2 : ℚ) ^ (-1075 : ℤ) ≤ moderate := by
    unfold moderate
    exact zpow_le_zpow_right₀ (by norm_num) (by norm_num)
  have hrelative : q * 2 ^ (-53 : ℤ) ≤ q :=
    mul_le_of_le_one_right hq.le (zpow_le_one_of_nonpos₀ (by norm_num) (by norm_num))
  refine lt_of_le_of_lt ?_ four_moderate_lt
  linarith only [hupper, htiny, hrelative, h, hq]

/-- **A rounded quotient is finite and near.** -/
theorem roundQuotient_near (s : Bool) {n d : Nat} (hd : 0 < d) (h : (n : ℚ) / d ≤ moderate) :
    (roundQuotient s n d).isFinite = true ∧
      |(roundQuotient s n d).value - (if s then -1 else 1) * (n / d)| ≤
        n / d * 2 ^ (-53 : ℤ) + 2 ^ (-1075 : ℤ) := by
  rcases Nat.eq_zero_or_pos n with rfl | hn
  · refine ⟨rfl, ?_⟩
    rw [show roundQuotient s 0 d = zero s from rfl, value_zero, Nat.cast_zero, zero_div, mul_zero,
      sub_zero, abs_zero, zero_mul, zero_add]
    positivity
  · have hq : (0 : ℚ) < n / d := by positivity
    obtain ⟨hfinite, hvalue⟩ := roundQuotient_nearest s hd hq (nearest_lt hq h)
    refine ⟨hfinite, le_of_eq_of_le ?_ (abs_nearest_sub_le hq)⟩
    rw [hvalue, ← mul_sub, abs_mul]
    cases s <;> simp

/-- **A rounded rational is finite and near.** -/
theorem round_near (s : Bool) (h : |q| ≤ moderate) :
    (round s q).isFinite = true ∧
      |(round s q).value - q| ≤ |q| * 2 ^ (-53 : ℤ) + 2 ^ (-1075 : ℤ) := by
  by_cases hzero : q = 0
  · rw [hzero, round_zero]
    refine ⟨rfl, ?_⟩
    rw [value_zero, sub_zero, abs_zero, zero_mul, zero_add]
    positivity
  · have hquotient := natAbs_num_div_den q
    have hself : (if decide (q < 0) then -1 else 1) * |q| = q := by
      by_cases hneg : q < 0
      · rw [decide_eq_true hneg, if_pos rfl, abs_of_neg hneg, neg_mul_neg, one_mul]
      · rw [decide_eq_false hneg, if_neg Bool.false_ne_true, abs_of_nonneg (not_lt.mp hneg),
          one_mul]
    have hnear := roundQuotient_near (decide (q < 0)) q.den_pos (hquotient.trans_le h)
    rw [hquotient, hself] at hnear
    rwa [round_of_ne_zero s hzero]

/-! ## Numbers that are not zero -/

/-- What is not too near to zero is not rounded to zero. -/
theorem isZero_roundQuotient (s : Bool) {n d : Nat} (hd : 0 < d)
    (hq : (2 : ℚ) ^ (-1074 : ℤ) ≤ n / d) : (roundQuotient s n d).isZero = false := by
  set q : ℚ := n / d with hqdef
  have hpos : 0 < q := lt_of_lt_of_le (by positivity) hq
  have hn : 0 < n := by
    rcases Nat.eq_zero_or_pos n with rfl | hn
    · simp [hqdef] at hpos
    · exact hn
  have hmantissa : roundingMantissa q ≠ 0 := by
    intro hzero
    have hnear := abs_nearest_sub_le hpos
    rw [nearest, hzero, Nat.cast_zero, zero_mul, zero_sub, abs_neg, abs_of_pos hpos] at hnear
    have hrelative : q * 2 ^ (-53 : ℤ) ≤ q * (1 / 4) := by
      gcongr
      norm_num
    have htiny : (2 : ℚ) ^ (-1075 : ℤ) ≤ q / 2 := by
      rw [show (-1075 : ℤ) = -1074 - 1 by norm_num, zpow_sub_one₀ (by norm_num)]
      linarith only [hq]
    have hfar : q ≤ q * (1 / 4) + q / 2 := hnear.trans (add_le_add hrelative htiny)
    linarith only [hfar, hpos]
  have hparts {m : Nat} (hm : m ≠ 0) (e : Int) : (ofParts s m e).isZero = false := by
    unfold ofParts
    split
    · exact beq_eq_false_iff_ne.mpr hm
    · rfl
  rw [roundQuotient_eq s hn hd rfl (Rat.den_pos (scaled q)) (scaled_quotient hpos)]
  split
  · exact hparts (by norm_num) _
  · exact hparts hmantissa _

/-- No double but zero is nearer to zero than the least positive one. -/
theorem le_abs_value {x : Double} (hfinite : x.isFinite = true) (hzero : x.isZero = false) :
    (2 : ℚ) ^ (-1074 : ℤ) ≤ |x.value| := by
  cases x with
  | nan | infinity negative => cases hfinite
  | finite negative m e h =>
    have hm : m ≠ 0 := by simpa [isZero] using hzero
    have hone : (1 : ℚ) ≤ m := by exact_mod_cast Nat.one_le_iff_ne_zero.mpr hm
    have hexponent : (2 : ℚ) ^ (-1074 : ℤ) ≤ 2 ^ e := zpow_le_zpow_right₀ (by norm_num) h.2.1
    rw [abs_value_finite]
    exact hexponent.trans (le_mul_of_one_le_left (by positivity) hone)

theorem isZero_round (s : Bool) (h : (2 : ℚ) ^ (-1074 : ℤ) ≤ |q|) : (round s q).isZero = false := by
  have hzero : q ≠ 0 := by
    rintro rfl
    rw [abs_zero] at h
    exact absurd h (not_le.mpr (by positivity))
  rw [round_of_ne_zero s hzero]
  exact isZero_roundQuotient _ q.den_pos (by rwa [natAbs_num_div_den])

end Double

end Stepwise
