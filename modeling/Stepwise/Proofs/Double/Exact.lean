/-
# Exact operations

An operation whose exact result is the value of a double yields that value.

* `Double.Represents` : a finite double of a given value;
* `representable_intCast` : whole numbers of at most 53 bits;
* `Double.represents_round` : what can be represented is rounded to itself;
* `Double.Represents.add`, `Double.Represents.mul`, `Double.Represents.div` : exact operations.
-/
import Stepwise.Double.Arithmetic
import Stepwise.Proofs.Double.Same

namespace Stepwise

namespace Double

/-! ## Representable numbers -/

/-- The double is finite and stands for the rational. -/
def Represents (x : Double) (q : ℚ) : Prop := x.isFinite = true ∧ x.value = q

end Double

/-- Some double stands for the rational. -/
def Representable (q : ℚ) : Prop := ∃ x : Double, x.Represents q

namespace Double

variable {x y : Double} {p q : ℚ}

theorem represents_zero (s : Bool) : (zero s).Represents 0 := ⟨rfl, value_zero s⟩

theorem represents_one : (1 : Double).Represents 1 := by
  have hone : (1 : Double) = finite false 0x10000000000000 (-52) (by decide) := by decide +kernel
  refine ⟨by rw [hone]; rfl, ?_⟩
  rw [hone, value_finite]
  norm_num

@[simp] theorem isFinite_neg (x : Double) : (-x).isFinite = x.isFinite := by
  cases x <;> rfl

@[simp] theorem value_neg (x : Double) : (-x).value = -x.value := by
  cases x with
  | nan | infinity negative => exact neg_zero.symm
  | finite negative m e hc =>
    show (finite (!negative) m e hc).value = _
    rw [value_finite, value_finite]
    cases negative <;> simp

/-- **What can be represented is rounded to itself.** -/
theorem represents_round (s : Bool) (h : Representable q) : (round s q).Represents q := by
  obtain ⟨x, hfinite, rfl⟩ := h
  cases hzero : x.isZero with
  | true =>
    obtain ⟨t, rfl⟩ := eq_zero_of_isZero hzero
    rw [value_zero, round_zero]
    exact represents_zero s
  | false =>
    rw [round_value s hfinite hzero]
    exact ⟨hfinite, rfl⟩

instance (x : Double) (q : ℚ) : Decidable (x.Represents q) :=
  inferInstanceAs (Decidable (x.isFinite = true ∧ x.value = q))

theorem representable_iff : Representable q ↔ (round false q).Represents q :=
  ⟨represents_round false, fun h => ⟨_, h⟩⟩

instance : DecidablePred Representable := fun _ => decidable_of_iff _ representable_iff.symm

namespace Represents

theorem isNaN_eq_false (h : x.Represents q) : x.isNaN = false := by
  cases x with
  | nan => exact absurd h.1 (by decide)
  | infinity negative | finite negative m e hc => rfl

theorem neg (h : x.Represents q) : (-x).Represents (-q) :=
  ⟨(isFinite_neg x).trans h.1, (value_neg x).trans (congrArg _ h.2)⟩

end Represents

end Double

theorem Representable.neg {q : ℚ} (h : Representable q) : Representable (-q) := by
  obtain ⟨x, hx⟩ := h
  exact ⟨-x, hx.neg⟩

/-! ## Whole numbers -/

/-- Whole numbers of at most 53 bits are doubles. -/
theorem representable_natCast {n : ℕ} (h : n < 2 ^ 53) : Representable n := by
  rcases Nat.eq_zero_or_pos n with rfl | hpos
  · exact ⟨Double.zero false, by simpa using Double.represents_zero false⟩
  · have hlow : 2 ^ n.log2 ≤ n := Nat.log2_self_le hpos.ne'
    have hlog : n.log2 ≤ 52 := by
      have hpower : 2 ^ n.log2 < 2 ^ 53 := lt_of_le_of_lt hlow h
      have := (Nat.pow_lt_pow_iff_right (by decide)).mp hpower
      omega
    have hhigh : n < 2 ^ (n.log2 + 1) := Nat.lt_log2_self
    -- The mantissa is moved up until it fills its 53 bits.
    obtain ⟨k, hk⟩ : ∃ k, n.log2 + k = 52 := ⟨52 - n.log2, by omega⟩
    have hmantissa : 2 ^ 52 ≤ n * 2 ^ k ∧ n * 2 ^ k < 2 ^ 53 := by
      constructor
      · rw [← hk, pow_add]
        exact Nat.mul_le_mul_right _ hlow
      · rw [show 53 = n.log2 + 1 + k by omega, pow_add]
        exact Nat.mul_lt_mul_of_pos_right hhigh (by positivity)
    have hcanonical : Canonical (n * 2 ^ k) (-(k : Int)) :=
      ⟨hmantissa.2, by omega, by omega, .inl hmantissa.1⟩
    refine ⟨Double.finite false _ _ hcanonical, rfl, ?_⟩
    rw [Double.value_finite, if_neg Bool.false_ne_true, one_mul, zpow_neg, zpow_natCast]
    push_cast
    rw [mul_assoc, mul_inv_cancel₀ (by positivity), mul_one]

theorem representable_intCast {n : ℤ} (h : |(n : ℚ)| < 2 ^ 53) : Representable n := by
  obtain ⟨m, rfl | rfl⟩ := n.eq_nat_or_neg
  · rw [Int.cast_natCast, Nat.abs_cast] at h
    rw [Int.cast_natCast]
    exact representable_natCast (by exact_mod_cast h)
  · rw [Int.cast_neg, Int.cast_natCast, abs_neg, Nat.abs_cast] at h
    rw [Int.cast_neg, Int.cast_natCast]
    exact (representable_natCast (by exact_mod_cast h)).neg

theorem representable_of_whole {q : ℚ} (hwhole : ∃ n : ℤ, q = n) (h : |q| < 2 ^ 53) :
    Representable q := by
  obtain ⟨n, rfl⟩ := hwhole
  exact representable_intCast h

/-- A sum of whole numbers is a double if their magnitudes add up to at most 53 bits. -/
theorem representable_sum {qs : List ℚ} (hwhole : ∀ q ∈ qs, ∃ n : ℤ, q = n)
    (hsmall : (qs.map (|·|)).sum < 2 ^ 53) : Representable qs.sum := by
  have hsum : (∃ n : ℤ, qs.sum = n) ∧ |qs.sum| ≤ (qs.map (|·|)).sum := by
    clear hsmall
    induction qs with
    | nil => exact ⟨⟨0, by simp⟩, by simp⟩
    | cons q qs ih =>
      obtain ⟨⟨n, hn⟩, hle⟩ := ih fun p hp => hwhole p (List.mem_cons_of_mem _ hp)
      obtain ⟨m, hm⟩ := hwhole q List.mem_cons_self
      simp only [List.map_cons, List.sum_cons]
      refine ⟨⟨m + n, by rw [hm, hn, Int.cast_add]⟩, (abs_add_le q qs.sum).trans ?_⟩
      exact add_le_add_right hle |q|
  exact representable_of_whole hsum.1 (hsum.2.trans_lt hsmall)

namespace Double.Represents

variable {x y : Double} {p q : ℚ}

/-- Two doubles of the same value are the same. -/
theorem same (hx : x.Represents q) (hy : y.Represents q) : x.Same y := by
  cases hzero : x.isZero with
  | true =>
    have hq : q = 0 := by rw [← hx.2, value_eq_zero_iff hx.1, hzero]
    have hzero' : y.isZero = true := by rw [← value_eq_zero_iff hy.1, hy.2, hq]
    exact .inr ⟨hzero, hzero'⟩
  | false =>
    have hq : q ≠ 0 := by
      rw [← hx.2, ne_eq, value_eq_zero_iff hx.1, hzero]
      simp
    have hzero' : y.isZero = false := by
      rw [← Bool.not_eq_true, ← value_eq_zero_iff hy.1, hy.2]
      exact hq
    have hround := round_value false hx.1 hzero
    rw [hx.2, ← hy.2, round_value false hy.1 hzero'] at hround
    exact .inl hround.symm

/-- There is one double of a value other than zero. -/
theorem eq_of_ne_zero (hx : x.Represents q) (hy : y.Represents q) (hq : q ≠ 0) : x = y := by
  rcases hx.same hy with h | ⟨hzero, -⟩
  · exact h
  · rw [← value_eq_zero_iff hx.1, hx.2] at hzero
    exact absurd hzero hq

end Double.Represents

/-- Finite doubles that are numerically equal are the same. -/
theorem Double.same_of_numericEq {x y : Double} (hx : x.isFinite = true) (hy : y.isFinite = true)
    (h : x.numericEq y = true) : x.Same y := by
  have hvalue : x.value = y.value := by
    cases x with
    | nan | infinity negative => cases hx
    | finite negative m e hc =>
      cases y with
      | nan | infinity negative => cases hy
      | finite negative' m' e' hc' => exact eq_of_beq h
  exact Represents.same ⟨hx, hvalue⟩ ⟨hy, rfl⟩

/-- The double of an integer of at most 53 bits. -/
theorem Double.represents_ofInt {n : ℤ} (h : |(n : ℚ)| < 2 ^ 53) : (ofInt n).Represents n := by
  rw [ofInt, Rat.mkRat_one]
  exact represents_round false (representable_intCast h)

/-- The double of a natural number of at most 53 bits. -/
theorem Double.represents_ofNat {n : ℕ} (h : n < 2 ^ 53) : (ofNat n).Represents n := by
  rw [ofNat, roundQuotient_eq_round one_pos, Nat.cast_one, div_one]
  exact represents_round false (representable_natCast h)

/-! ## Operations -/

namespace Double

variable {x y : Double}

/-- A sum of finite numbers is rounded once. -/
theorem exists_add_eq_round (hx : x.isFinite = true) (hy : y.isFinite = true) :
    ∃ s, x + y = round s (x.value + y.value) := by
  cases x with
  | nan | infinity negative => cases hx
  | finite s m e hc =>
    cases y with
    | nan | infinity negative => cases hy
    | finite t n f hd => exact ⟨s && t, rfl⟩

/-- A product of finite numbers is rounded once. -/
theorem exists_mul_eq_round (hx : x.isFinite = true) (hy : y.isFinite = true) :
    ∃ s, x * y = round s (x.value * y.value) := by
  cases x with
  | nan | infinity negative => cases hx
  | finite s m e hc =>
    cases y with
    | nan | infinity negative => cases hy
    | finite t n f hd => exact ⟨s != t, rfl⟩

/-- A quotient of finite numbers is rounded once, unless the divisor is zero. -/
theorem exists_div_eq_round (hx : x.isFinite = true) (hy : y.isFinite = true)
    (hzero : y.isZero = false) : ∃ s, x / y = round s (x.value / y.value) := by
  cases x with
  | nan | infinity negative => cases hx
  | finite s m e hc =>
    cases y with
    | nan | infinity negative => cases hy
    | finite t n f hd =>
      have hn : n ≠ 0 := by simpa [isZero] using hzero
      exact ⟨s != t, if_neg hn⟩

namespace Represents

variable {p q : ℚ}

/-- What stands for a number other than zero is not zero. -/
theorem isZero_eq_false (h : x.Represents q) (hq : q ≠ 0) : x.isZero = false := by
  rw [← Bool.not_eq_true, ← value_eq_zero_iff h.1, h.2]
  exact hq

theorem add (hx : x.Represents p) (hy : y.Represents q) (h : Representable (p + q)) :
    (x + y).Represents (p + q) := by
  obtain ⟨hxfinite, rfl⟩ := hx
  obtain ⟨hyfinite, rfl⟩ := hy
  obtain ⟨s, hround⟩ := exists_add_eq_round hxfinite hyfinite
  rw [hround]
  exact represents_round s h

theorem sub (hx : x.Represents p) (hy : y.Represents q) (h : Representable (p - q)) :
    (x - y).Represents (p - q) := by
  rw [sub_eq_add_neg] at h ⊢
  exact hx.add hy.neg h

theorem mul (hx : x.Represents p) (hy : y.Represents q) (h : Representable (p * q)) :
    (x * y).Represents (p * q) := by
  obtain ⟨hxfinite, rfl⟩ := hx
  obtain ⟨hyfinite, rfl⟩ := hy
  obtain ⟨s, hround⟩ := exists_mul_eq_round hxfinite hyfinite
  rw [hround]
  exact represents_round s h

theorem div (hx : x.Represents p) (hy : y.Represents q) (hq : q ≠ 0)
    (h : Representable (p / q)) : (x / y).Represents (p / q) := by
  have hzero := hy.isZero_eq_false hq
  obtain ⟨hxfinite, rfl⟩ := hx
  obtain ⟨hyfinite, rfl⟩ := hy
  obtain ⟨s, hround⟩ := exists_div_eq_round hxfinite hyfinite hzero
  rw [hround]
  exact represents_round s h

end Represents

end Double

end Stepwise
