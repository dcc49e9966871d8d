/-
# Powers and roots of doubles

A whole power of moderate size is rounded once, from the exact power.  The square root of what is
greater than zero is a number; it is found through the integer square root.

* `Double.ratPow_eq` : the exact power;
* `Double.power_of_ne_zero`, `Double.power_whole`, `Double.power_of_whole` : whole powers, rounded
  and exact;
* `Double.natSqrt_eq` : the digit-by-digit square root is the integer square root;
* `Double.isNaN_sqrt` : square roots that are defined.
-/
import Mathlib.Data.Nat.Sqrt
import Stepwise.Double.Power
import Stepwise.Proofs.Decimal.Numeral
import Stepwise.Proofs.Double.Defined
import Stepwise.Proofs.Double.Exact

namespace Stepwise.Double

theorem ratPow_eq (q : ℚ) (n : ℕ) : ratPow q n = q ^ n := by
  show mkRat (q.num ^ n) (q.den ^ n) = q ^ n
  rw [Rat.mkRat_eq_div]
  push_cast
  rw [← div_pow, Rat.num_div_den]

theorem toInt?_of_represents {x : Double} {n : ℤ} (h : x.Represents n) : x.toInt? = some n := by
  obtain ⟨hfinite, hvalue⟩ := h
  cases x with
  | nan | infinity negative => cases hfinite
  | finite negative m e hc => exact toInt?_eq_some_iff.mpr hvalue

theorem represents_of_toInt? {x : Double} {n : ℤ} (h : x.toInt? = some n) : x.Represents n := by
  cases x with
  | nan | infinity negative => cases h
  | finite negative m e hc => exact ⟨rfl, toInt?_eq_some_iff.mp h⟩

/-- What is positive has no sign. -/
theorem signBit_of_pos {x : Double} (h : 0 < x.value) : x.signBit = false := by
  cases x with
  | nan | infinity negative => exact absurd h (lt_irrefl _)
  | finite negative m e hc =>
    cases negative with
    | false => rfl
    | true =>
      rw [value_finite, if_pos rfl] at h
      have hmagnitude : (0 : ℚ) ≤ m * 2 ^ e := by positivity
      linarith

theorem power_of_isFinite {x p : Double} (hx : x.isFinite = true) (hp : p.isFinite = true) :
    x.power p = finitePower x p := by
  cases x with
  | nan | infinity negative => cases hx
  | finite negative m e hc =>
    cases p with
    | nan | infinity negative => cases hp
    | finite negative' m' e' hc' => rfl

/-- A whole power is formed exactly, unless the base or the exponent is zero. -/
theorem power_of_ne_zero {x p : Double} {n : ℕ} (hx : x.isFinite = true) (hbase : x.value ≠ 0)
    (hp : p.Represents n) (hn : n ≤ maxExactExponent) (hpos : n ≠ 0) :
    x.power p = finiteOrOverflow (round false (x.value ^ n)) := by
  have hint : p.toInt? = some (n : ℤ) := toInt?_of_represents (by simpa using hp)
  have hexponent : p.value ≠ 0 := by
    rw [hp.2]
    exact_mod_cast hpos
  rw [ne_eq, value_eq_zero_iff hx] at hbase
  rw [ne_eq, value_eq_zero_iff hp.1] at hexponent
  rw [power_of_isFinite hx hp.1, finitePower, if_neg hexponent, if_neg hbase, hint]
  show wholePower x.value n = _
  rw [wholePower, if_pos (by simpa using hn), ratPow_eq]

/-- **A whole power is rounded once**, unless that makes it infinite. -/
theorem power_whole {x p : Double} {n : ℕ} (hx : x.isFinite = true) (hp : p.Represents n)
    (hn : n ≤ maxExactExponent) (h : (round false (x.value ^ n)).isFinite = true) :
    ∃ y, x.power p = .ok y ∧ y.Same (round false (x.value ^ n)) := by
  rcases Nat.eq_zero_or_pos n with rfl | hpos
  · have hzero : p.isZero = true := by
      rw [← value_eq_zero_iff hp.1, hp.2]
      rfl
    rw [power_of_isFinite hx hp.1, finitePower, if_pos hzero, pow_zero]
    exact ⟨1, rfl, represents_one.same (represents_round false ⟨1, represents_one⟩)⟩
  · by_cases hbase : x.value = 0
    · have hvalue : 0 < p.value := by
        rw [hp.2]
        exact_mod_cast hpos
      have hexponent : ¬ p.isZero = true := by
        rw [← value_eq_zero_iff hp.1]
        exact hvalue.ne'
      have hzero : x.isZero = true := (value_eq_zero_iff hx).mp hbase
      have hint : p.toInt? = some (n : ℤ) := toInt?_of_represents (by simpa using hp)
      rw [power_of_isFinite hx hp.1, finitePower, if_neg hexponent, hint, if_pos hzero,
        signBit_of_pos hvalue, if_neg Bool.false_ne_true, hbase, zero_pow hpos.ne', round_zero]
      refine ⟨_, rfl, ?_⟩
      split
      · exact .inr ⟨hzero, rfl⟩
      · exact .refl _
    · refine ⟨round false (x.value ^ n), ?_, .refl _⟩
      rw [power_of_ne_zero hx hbase hp hn hpos.ne', finiteOrOverflow, if_pos h]

/-- **A whole power is exact** if it is the value of a double. -/
theorem power_of_whole {x p : Double} {n : ℕ} (hx : x.isFinite = true) (hp : p.Represents n)
    (hn : n ≤ maxExactExponent) (h : Representable (x.value ^ n)) :
    ∃ y, x.power p = .ok y ∧ y.Represents (x.value ^ n) := by
  have hround := represents_round false h
  obtain ⟨y, hpower, hsame⟩ := power_whole hx hp hn hround.1
  exact ⟨y, hpower, hsame.isFinite_eq.trans hround.1, hsame.value_eq.trans hround.2⟩

/-! ## Square roots -/

/-- Bit after bit, the root stays between what it has and what it can still become. -/
theorem sqrtBits_bounds {n : Nat} {bits root : Nat} (hlower : root * root ≤ n)
    (hupper : n < (root + twoTo bits) * (root + twoTo bits)) :
    sqrtBits n bits root * sqrtBits n bits root ≤ n ∧
      n < (sqrtBits n bits root + 1) * (sqrtBits n bits root + 1) := by
  induction bits generalizing root with
  | zero => exact ⟨hlower, hupper⟩
  | succ bits ih =>
    have hdouble : twoTo (bits + 1) = twoTo bits + twoTo bits := by
      rw [twoTo_eq, twoTo_eq]
      omega
    by_cases hfits : (root + twoTo bits) * (root + twoTo bits) ≤ n
    · simp only [sqrtBits, if_pos hfits]
      refine ih hfits ?_
      rwa [add_assoc, ← hdouble]
    · simp only [sqrtBits, if_neg hfits]
      exact ih hlower (not_le.mp hfits)

theorem natSqrt_eq (n : Nat) : natSqrt n = Nat.sqrt n := by
  have hupper : n < (0 + twoTo (n.log2 / 2 + 1)) * (0 + twoTo (n.log2 / 2 + 1)) := by
    rw [zero_add, twoTo_eq, ← pow_add]
    calc n < 2 ^ (n.log2 + 1) := Nat.lt_log2_self
      _ ≤ 2 ^ (n.log2 / 2 + 1 + (n.log2 / 2 + 1)) :=
        Nat.pow_le_pow_right (by norm_num) (by omega)
  obtain ⟨hlow, hhigh⟩ := sqrtBits_bounds (Nat.zero_le n) hupper
  exact Nat.eq_sqrt.mpr ⟨hlow, hhigh⟩

/-- Finite doubles are in the order of their values. -/
theorem lt_iff {x y : Double} (hx : x.isFinite = true) (hy : y.isFinite = true) :
    x.lt y = true ↔ x.value < y.value := by
  cases x with
  | nan | infinity negative => cases hx
  | finite s m e hc =>
    cases y with
    | nan | infinity negative => cases hy
    | finite t n f hd => exact decide_eq_true_iff

/-- A finite double is greater than zero when its value is. -/
theorem zero_lt_iff {x : Double} (h : x.isFinite = true) : lt 0 x = true ↔ 0 < x.value := by
  have hzero : (0 : Double).value = 0 := value_zero false
  rw [lt_iff rfl h, hzero]

/-- The square root of what is greater than zero is a number. -/
theorem isNaN_sqrt {x : Double} (h : lt 0 x = true) : x.sqrt.isNaN = false := by
  cases x with
  | nan => cases h
  | infinity negative =>
    cases negative with
    | false => rfl
    | true => cases h
  | finite negative m e hc =>
    have hsign := signBit_of_pos ((zero_lt_iff rfl).mp h)
    obtain rfl : negative = false := hsign
    rw [sqrt]
    split
    · rfl
    · exact isNaN_roundQuotient ..

end Stepwise.Double
