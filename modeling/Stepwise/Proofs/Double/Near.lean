/-
# Calculations with small errors

A rounding moves a number by at most `2 ^ -53` of its size.  An error is counted in roundings of a
number of a given size: what is calculated by a few operations is a few roundings away from what
exact numbers would yield.  Sizes lie between `1` and a power of two far below the largest double,
so that nothing becomes infinite or tiny.

* `Close` : a number is a few roundings away from another one, with rules for sums and products;
* `Double.Near` : a finite double whose value is close to a real number;
* `Double.near_round` : rounding adds one rounding;
* `Double.Near.add`, `Double.Near.mul`, `Double.Near.div`, `Double.Near.power`,
  `Double.Near.sqrt` : the errors of the operations.
-/
import Mathlib.Analysis.Real.Sqrt
import Stepwise.Equation.Cubic
import Stepwise.Proofs.Double.Nearest
import Stepwise.Proofs.Double.Power

namespace Stepwise

/-! ## Close numbers -/

/-- The relative error of a rounding. -/
noncomputable def roundoff : ℝ := 1 / 2 ^ 53

theorem roundoff_pos : 0 < roundoff := by
  unfold roundoff
  positivity

/-- The number `r` is `k` roundings of a number of size `s` away from `q`. -/
structure Close (r q k s : ℝ) : Prop where
  size : |q| ≤ s
  error : |r - q| ≤ k * roundoff * s

/-- A number of roundings that is small enough for errors of the second order not to count. -/
def Few (k : ℝ) : Prop := 0 ≤ k ∧ k ≤ 1000

namespace Close

variable {r q k s r' q' k' s' l t : ℝ}

theorem refl (h : |q| ≤ s) : Close q q 0 s := ⟨h, by simp⟩

theorem size_nonneg (h : Close r q k s) : 0 ≤ s := (abs_nonneg q).trans h.size

/-- The same error at another size. -/
theorem resize (h : Close r q k s) (hsize : |q| ≤ t) (herror : k * s ≤ l * t) :
    Close r q l t := by
  refine ⟨hsize, h.error.trans ?_⟩
  have hscaled := mul_le_mul_of_nonneg_right herror roundoff_pos.le
  linarith only [hscaled]

theorem neg (h : Close r q k s) : Close (-r) (-q) k s := by
  refine ⟨by rw [abs_neg]; exact h.size, ?_⟩
  rw [neg_sub_neg, abs_sub_comm]
  exact h.error

theorem add (h : Close r q k s) (h' : Close r' q' k' s') (hsize : |q + q'| ≤ t)
    (herror : k * s + k' * s' ≤ l * t) : Close (r + r') (q + q') l t := by
  refine ⟨hsize, ?_⟩
  have hscaled := mul_le_mul_of_nonneg_right herror roundoff_pos.le
  calc |r + r' - (q + q')| = |(r - q) + (r' - q')| := by ring_nf
    _ ≤ |r - q| + |r' - q'| := abs_add_le _ _
    _ ≤ l * roundoff * t := by linarith only [h.error, h'.error, hscaled]

theorem mul (h : Close r q k s) (h' : Close r' q' k' s') (hk : Few k) (hk' : Few k') :
    Close (r * r') (q * q') (k + k' + 1 / 100) (s * s') := by
  obtain ⟨hk0, hk1⟩ := hk
  obtain ⟨hk0', hk1'⟩ := hk'
  have hs := h.size_nonneg
  have hs' := h'.size_nonneg
  have hu := roundoff_pos
  refine ⟨by rw [abs_mul]; exact mul_le_mul h.size h'.size (abs_nonneg _) hs, ?_⟩
  have hfirst : |r - q| * |q'| ≤ k * roundoff * s * s' :=
    mul_le_mul h.error h'.size (abs_nonneg _) (by positivity)
  have hsecond : |q| * |r' - q'| ≤ s * (k' * roundoff * s') :=
    mul_le_mul h.size h'.error (abs_nonneg _) hs
  have hboth : |r - q| * |r' - q'| ≤ (k * roundoff * s) * (k' * roundoff * s') :=
    mul_le_mul h.error h'.error (abs_nonneg _) (by positivity)
  -- The product of two errors is a small part of a rounding.
  have hsmall : (k * roundoff * s) * (k' * roundoff * s') ≤ 1 / 100 * roundoff * (s * s') := by
    have hcount : k * k' * roundoff ≤ 1 / 100 := by
      have hproduct : k * k' ≤ 1000 * 1000 := mul_le_mul hk1 hk1' hk0' (by norm_num)
      calc k * k' * roundoff ≤ 1000 * 1000 * roundoff := by gcongr
        _ ≤ 1 / 100 := by norm_num [roundoff]
    calc (k * roundoff * s) * (k' * roundoff * s')
        = k * k' * roundoff * (roundoff * (s * s')) := by ring
      _ ≤ 1 / 100 * (roundoff * (s * s')) := by gcongr
      _ = 1 / 100 * roundoff * (s * s') := by ring
  calc |r * r' - q * q'|
      = |(r - q) * q' + q * (r' - q') + (r - q) * (r' - q')| := by ring_nf
    _ ≤ |(r - q) * q'| + |q * (r' - q')| + |(r - q) * (r' - q')| := abs_add_three _ _ _
    _ = |r - q| * |q'| + |q| * |r' - q'| + |r - q| * |r' - q'| := by simp only [abs_mul]
    _ ≤ (k + k' + 1 / 100) * roundoff * (s * s') := by
      linarith only [hfirst, hsecond, hboth, hsmall]

theorem pow (h : Close r q k s) (hk : 0 ≤ k) {n : ℕ} (hn : Few (n * (k + 1 / 100))) :
    Close (r ^ n) (q ^ n) (n * (k + 1 / 100)) (s ^ n) := by
  induction n with
  | zero => simpa using refl (q := 1) (s := 1) (by simp)
  | succ n ih =>
    obtain ⟨-, hfew⟩ := hn
    push_cast at hfew ⊢
    have hprevious : Few (n * (k + 1 / 100)) := ⟨by positivity, by linarith only [hfew, hk]⟩
    have hsingle : Few k := by
      refine ⟨hk, ?_⟩
      have hnonneg := hprevious.1
      linarith only [hfew, hnonneg]
    have hproduct := (ih hprevious).mul h hprevious hsingle
    rw [pow_succ, pow_succ, pow_succ]
    convert hproduct using 1
    ring

theorem div (h : Close r q k s) {a : ℝ} : Close (r / a) (q / a) k (s / |a|) := by
  refine ⟨by rw [abs_div]; gcongr; exact h.size, ?_⟩
  rw [← sub_div, abs_div, ← mul_div_assoc]
  gcongr
  exact h.error

end Close

namespace Double

/-! ## Near doubles -/

/-- The double is finite, and its value is `k` roundings of a number of size `s` away from `q`. -/
structure Near (x : Double) (q k s : ℝ) : Prop where
  finite : x.isFinite = true
  close : Close x.value q k s

/-- A size at which results are neither tiny nor infinite. -/
def InRange (s : ℝ) : Prop := 1 ≤ s ∧ s ≤ 2 ^ 190

/-- The smallest double is a tiny part of a rounding. -/
theorem tiny_le : (2 : ℝ) ^ (-1075 : ℤ) ≤ 1 / 1000 * roundoff := by
  have hpower : (2 : ℝ) ^ (-1075 : ℤ) ≤ 2 ^ (-63 : ℤ) :=
    zpow_le_zpow_right₀ (by norm_num) (by norm_num)
  refine hpower.trans ?_
  norm_num [roundoff]

/-- The error of a rounding among real numbers. -/
theorem round_near_real (b : Bool) {r : ℚ} (h : |(r : ℝ)| ≤ 2 ^ 200) :
    (round b r).isFinite = true ∧
      |((round b r).value : ℝ) - r| ≤ (|(r : ℝ)| + 1 / 1000) * roundoff := by
  obtain ⟨hfinite, hnear⟩ := round_near b (le_moderate (q := |r|) (by exact_mod_cast h))
  refine ⟨hfinite, ?_⟩
  have hcast := (Rat.cast_le (K := ℝ)).mpr hnear
  simp only [Rat.cast_abs, Rat.cast_sub, Rat.cast_add, Rat.cast_mul, Rat.cast_zpow,
    Rat.cast_ofNat] at hcast
  have hunit : (2 : ℝ) ^ (-53 : ℤ) = roundoff := by norm_num [roundoff]
  rw [hunit] at hcast
  linarith only [hcast, tiny_le]

/-- **Rounding adds one rounding**, and a little more. -/
theorem near_round (b : Bool) {r : ℚ} {q k s l : ℝ} (h : Close r q k s) (hs : InRange s)
    (hl : k + 101 / 100 ≤ l) (hmany : l ≤ 2 ^ 40) : Near (round b r) q l s := by
  obtain ⟨hone, hlarge⟩ := hs
  have hu := roundoff_pos
  have herror : k * roundoff * s ≤ 1 / 1000 * s := by
    have hsmall : k * roundoff ≤ 1 / 1000 := by
      calc k * roundoff ≤ 2 ^ 40 * roundoff := by
            gcongr
            linarith only [hl, hmany]
        _ ≤ 1 / 1000 := by norm_num [roundoff]
    gcongr
  have hsize : |(r : ℝ)| ≤ 1001 / 1000 * s := by
    have htriangle : |(r : ℝ)| ≤ |(r : ℝ) - q| + |q| := by
      simpa using abs_add_le ((r : ℝ) - q) q
    linarith only [htriangle, h.error, h.size, herror]
  obtain ⟨hfinite, hnear⟩ := round_near_real b (r := r) (by linarith only [hsize, hlarge])
  refine ⟨hfinite, h.size, ?_⟩
  have hrounding : (|(r : ℝ)| + 1 / 1000) * roundoff ≤ 101 / 100 * roundoff * s := by
    calc (|(r : ℝ)| + 1 / 1000) * roundoff ≤ 101 / 100 * s * roundoff := by
          gcongr
          linarith only [hsize, hone]
      _ = 101 / 100 * roundoff * s := by ring
  calc |((round b r).value : ℝ) - q|
      ≤ |((round b r).value : ℝ) - r| + |(r : ℝ) - q| := abs_sub_le _ _ _
    _ ≤ (k + 101 / 100) * roundoff * s := by linarith only [hnear, h.error, hrounding]
    _ ≤ l * roundoff * s := by gcongr

namespace Near

variable {x y : Double} {p q k s k' s' l t : ℝ}

theorem of_represents {r : ℚ} (h : x.Represents r) : Near x r 0 |(r : ℝ)| :=
  ⟨h.1, by rw [h.2]; exact .refl le_rfl⟩

theorem of_whole {n : ℤ} (h : x.Represents n) : Near x n 0 |(n : ℝ)| := by
  simpa using of_represents h

theorem neg (h : Near x q k s) : Near (-x) (-q) k s := by
  refine ⟨(isFinite_neg x).trans h.finite, ?_⟩
  rw [value_neg, Rat.cast_neg]
  exact h.close.neg

/-- The same error at another size. -/
theorem resize (h : Near x q k s) (hsize : |q| ≤ t) (herror : k * s ≤ l * t) : Near x q l t :=
  ⟨h.finite, h.close.resize hsize herror⟩

theorem add (hx : Near x p k s) (hy : Near y q k' s') (ht : InRange t) (hsize : |p + q| ≤ t)
    (herror : k * s + k' * s' + 101 / 100 * t ≤ l * t) (hmany : l ≤ 2 ^ 40) :
    Near (x + y) (p + q) l t := by
  obtain ⟨b, hround⟩ := exists_add_eq_round hx.finite hy.finite
  have hsum := hx.close.add hy.close hsize (l := l - 101 / 100) (by linarith only [herror])
  rw [hround]
  exact near_round b (by rwa [Rat.cast_add]) ht (by linarith only) hmany

theorem sub (hx : Near x p k s) (hy : Near y q k' s') (ht : InRange t) (hsize : |p - q| ≤ t)
    (herror : k * s + k' * s' + 101 / 100 * t ≤ l * t) (hmany : l ≤ 2 ^ 40) :
    Near (x - y) (p - q) l t := by
  rw [sub_eq_add_neg] at hsize ⊢
  exact hx.add hy.neg ht hsize herror hmany

theorem mul (hx : Near x p k s) (hy : Near y q k' s') (hk : Few k) (hk' : Few k')
    (ht : InRange t) (hsize : s * s' ≤ t) (herror : k + k' + 51 / 50 ≤ l) (hmany : l ≤ 2 ^ 40) :
    Near (x * y) (p * q) l t := by
  obtain ⟨b, hround⟩ := exists_mul_eq_round hx.finite hy.finite
  have hclose := hx.close.mul hy.close hk hk'
  obtain ⟨hk0, -⟩ := hk
  obtain ⟨hk0', -⟩ := hk'
  have hresized : Close (x.value * y.value) (p * q) (k + k' + 1 / 100) t :=
    hclose.resize (hclose.size.trans hsize) (by gcongr)
  rw [hround]
  exact near_round b (by rwa [Rat.cast_mul]) ht (by linarith only [herror]) hmany

theorem div (hx : Near x p k s) {a : ℚ} (hy : y.Represents a) (ha : a ≠ 0) (ht : InRange t)
    (hsize : |p / a| ≤ t) (herror : k * (s / |(a : ℝ)|) + 101 / 100 * t ≤ l * t)
    (hmany : l ≤ 2 ^ 40) : Near (x / y) (p / a) l t := by
  obtain ⟨b, hround⟩ := exists_div_eq_round hx.finite hy.1 (hy.isZero_eq_false ha)
  have hquotient : Close (x.value / a) (p / a) (l - 101 / 100) t :=
    hx.close.div.resize hsize (by linarith only [herror])
  rw [hround, hy.2]
  exact near_round b (by rwa [Rat.cast_div]) ht (by linarith only) hmany

theorem power (hx : Near x q k s) (hk : 0 ≤ k) {n : ℕ} (hn : Few (n * (k + 1 / 100)))
    (hexponent : (ofNat n).Represents (n : ℚ)) (hmost : n ≤ maxExactExponent)
    (hs : InRange (s ^ n)) (herror : n * (k + 1 / 100) + 101 / 100 ≤ l) (hmany : l ≤ 2 ^ 40) :
    ∃ y, Cubic.doublePower x n = .ok y ∧ Near y (q ^ n) l (s ^ n) := by
  have hpower : Close ((x.value ^ n : ℚ) : ℝ) (q ^ n) (n * (k + 1 / 100)) (s ^ n) := by
    rw [Rat.cast_pow]
    exact hx.close.pow hk hn
  have hnear := near_round false hpower hs herror hmany
  obtain ⟨y, hresult, hsame⟩ := power_whole hx.finite hexponent hmost hnear.finite
  refine ⟨y, by rw [Cubic.doublePower, hresult], hsame.isFinite_eq.trans hnear.finite, ?_⟩
  rw [hsame.value_eq]
  exact hnear.close

end Near

/-! ## Square roots -/

/-- The integer square root with its last bit is at most one away from the root. -/
theorem abs_natSqrt_sub_le {n d : Nat} (hd : 0 < d) {sticky : ℝ} (hsticky : 0 ≤ sticky)
    (hsticky' : sticky ≤ 1) : |(natSqrt (n / d) + sticky : ℝ) - √(n / d)| ≤ 1 := by
  have hpos : (0 : ℝ) < d := by exact_mod_cast hd
  have hlower : (natSqrt (n / d) : ℝ) ≤ √(n / d) := by
    refine Real.le_sqrt_of_sq_le ?_
    rw [le_div_iff₀ hpos]
    have hnat : natSqrt (n / d) ^ 2 * d ≤ n := by
      rw [natSqrt_eq]
      exact (Nat.mul_le_mul_right d (Nat.sqrt_le' _)).trans (Nat.div_mul_le_self n d)
    exact_mod_cast hnat
  have hupper : √(n / d : ℝ) ≤ natSqrt (n / d) + 1 := by
    refine Real.sqrt_le_iff.mpr ⟨by positivity, ?_⟩
    rw [div_le_iff₀ hpos]
    have hnat : n ≤ (natSqrt (n / d) + 1) ^ 2 * d := by
      rw [natSqrt_eq]
      have hquotient : n / d + 1 ≤ (Nat.sqrt (n / d) + 1) ^ 2 := Nat.succ_le_succ_sqrt' _
      calc n ≤ (n / d + 1) * d := (Nat.lt_div_mul_add hd).le.trans_eq (by ring)
        _ ≤ _ := Nat.mul_le_mul_right d hquotient
    exact_mod_cast hnat
  rw [abs_le]
  constructor <;> linarith only [hlower, hupper, hsticky, hsticky']

/-- Half the binary exponent of a quotient tells the size of its root. -/
theorem two_zpow_le_sqrt {n d : Nat} (hn : 0 < n) (hd : 0 < d) :
    (2 : ℝ) ^ (floorLog2 n d / 2) ≤ √(n / d) := by
  have hpos : (0 : ℚ) < n / d := by positivity
  have hlog : (2 : ℝ) ^ floorLog2 n d ≤ n / d := by
    have hcast := (Rat.cast_le (K := ℝ)).mpr (two_pow_log_le hpos)
    rw [← floorLog2_eq_log hn hd] at hcast
    simpa only [Rat.cast_zpow, Rat.cast_div, Rat.cast_natCast, Rat.cast_ofNat] using hcast
  refine Real.le_sqrt_of_sq_le ?_
  rw [← zpow_natCast, ← zpow_mul]
  exact (zpow_le_zpow_right₀ (by norm_num) (by push_cast; omega)).trans hlog

/-- A shift by an even number of places comes out of the root. -/
theorem sqrt_shiftQuotient (n d : Nat) (half : ℤ) :
    √(((shiftQuotient n d (-(2 * half))).1 : ℝ) / (shiftQuotient n d (-(2 * half))).2) * 2 ^ half =
      √(n / d) := by
  have hquotient : ((shiftQuotient n d (-(2 * half))).1 : ℝ) / (shiftQuotient n d (-(2 * half))).2 =
      n / d * 2 ^ (-(2 * half)) := by
    have hcast := congrArg (Rat.cast (K := ℝ)) (shiftQuotient_div n d (-(2 * half)))
    simpa only [Rat.cast_div, Rat.cast_mul, Rat.cast_zpow, Rat.cast_natCast, Rat.cast_ofNat]
      using hcast
  have hsquare : (2 : ℝ) ^ (-(2 * half)) = (2 ^ (-half)) ^ 2 := by
    rw [← zpow_natCast, ← zpow_mul]
    congr 1
    push_cast
    ring
  rw [hquotient, hsquare, Real.sqrt_mul (by positivity), Real.sqrt_sq (by positivity), mul_assoc,
    ← zpow_add₀ (by norm_num), neg_add_cancel, zpow_zero, mul_one]

/-- Before it is rounded, the root of a quotient is exact to 60 bits. -/
theorem sqrtQuotient_close {n d : Nat} (hn : 0 < n) (hd : 0 < d) :
    ∃ w : ℚ, sqrtQuotient n d = round false w ∧ Close w √(n / d) (1 / 100) √(n / d) := by
  set half : ℤ := floorLog2 n d / 2 - 60 with hhalf
  set shifted := shiftQuotient n d (-(2 * half)) with hshifted
  have hshiftedpos : 0 < shifted.2 := shiftQuotient_pos hd _
  set root := natSqrt (shifted.1 / shifted.2)
  set sticky : Nat :=
    if root * root = shifted.1 / shifted.2 ∧ shifted.1 % shifted.2 = 0 then 0 else 1 with hstickydef
  have hsticky : (sticky : ℝ) ≤ 1 := by
    rw [hstickydef]
    split <;> simp
  set scaled := shiftQuotient (2 * root + sticky) 2 half with hscaled
  have hunit : (0 : ℝ) < 2 ^ half := by positivity
  have hvalue : (((scaled.1 : ℚ) / scaled.2 : ℚ) : ℝ) = (root + sticky / 2) * 2 ^ half := by
    rw [hscaled, shiftQuotient_div]
    push_cast
    ring
  have hexact : √((shifted.1 : ℝ) / shifted.2) * 2 ^ half = √(n / d) := sqrt_shiftQuotient n d half
  refine ⟨(scaled.1 : ℚ) / scaled.2, roundQuotient_eq_round (shiftQuotient_pos two_pos half), ?_⟩
  refine ⟨(abs_of_nonneg (Real.sqrt_nonneg _)).le, ?_⟩
  have hhalfbit : (sticky : ℝ) / 2 ≤ 1 := by linarith only [hsticky]
  have hnear := abs_natSqrt_sub_le hshiftedpos (n := shifted.1) (by positivity) hhalfbit
  have hsmall : (2 : ℝ) ^ half ≤ 1 / 100 * roundoff * √(n / d) := by
    have hsize := two_zpow_le_sqrt hn hd
    have hshift : (2 : ℝ) ^ half = 2 ^ (floorLog2 n d / 2) * (1 / 2 ^ 60) := by
      rw [hhalf, zpow_sub₀ (by norm_num)]
      norm_num
      ring
    rw [hshift]
    calc (2 : ℝ) ^ (floorLog2 n d / 2) * (1 / 2 ^ 60) ≤ √(n / d) * (1 / 2 ^ 60) := by gcongr
      _ ≤ √(n / d) * (1 / 100 * roundoff) := by
        gcongr
        norm_num [roundoff]
      _ = 1 / 100 * roundoff * √(n / d) := by ring
  rw [hvalue, ← hexact, ← sub_mul, abs_mul, abs_of_pos hunit, hexact]
  exact (mul_le_of_le_one_left hunit.le hnear).trans hsmall

/-- **The square root of a positive double** is rounded once, up to a small part. -/
theorem near_sqrt {x : Double} (hx : x.isFinite = true) (hpos : 0 < x.value) {s : ℝ}
    (hs : InRange s) (hsize : √(x.value : ℝ) ≤ s) : Near x.sqrt √(x.value : ℝ) (51 / 50) s := by
  have hsign := signBit_of_pos hpos
  cases x with
  | nan | infinity negative => cases hx
  | finite negative m e hc =>
    obtain rfl : negative = false := hsign
    have hm : m ≠ 0 := by
      rintro rfl
      rw [value_noMantissa] at hpos
      exact lt_irrefl _ hpos
    have hnum : 0 < (finite false m e hc).value.num.natAbs :=
      Int.natAbs_pos.mpr (Rat.num_ne_zero.mpr hpos.ne')
    have hquotient : (((finite false m e hc).value.num.natAbs : ℕ) : ℝ) /
        (finite false m e hc).value.den = (finite false m e hc).value := by
      have hcast := congrArg (Rat.cast (K := ℝ)) (natAbs_num_div_den (finite false m e hc).value)
      rw [abs_of_pos hpos] at hcast
      simpa only [Rat.cast_div, Rat.cast_natCast] using hcast
    obtain ⟨w, hround, hclose⟩ := sqrtQuotient_close hnum (Rat.den_pos _)
    rw [hquotient] at hclose
    have hsqrt : (finite false m e hc).sqrt = round false w := by
      rw [← hround]
      exact if_neg hm
    rw [hsqrt]
    have hresized := hclose.resize (t := s) (l := 1 / 100) (hclose.size.trans hsize) (by gcongr)
    exact near_round false hresized hs (by norm_num) (by norm_num)

end Double

end Stepwise
