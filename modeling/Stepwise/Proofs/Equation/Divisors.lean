/-
# Divisors

The divisors of a positive number are found completely.  Odd divisors come in pairs whose product is
the odd part, and the smaller one of a pair does not exceed the square root.

* `mem_oddDivisors` : the divisors of an odd number;
* `mem_divisors` : the divisors of a positive number.
-/
import Stepwise.Equation.Divisors
import Stepwise.Proofs.Double.Power

namespace Stepwise

/-! ## Odd divisors -/

/-- From `d` on the small divisors of the parity of `d` are found, if the fuel reaches the square
root. -/
theorem mem_smallOddDivisors {m fuel d k : Nat} {found : List Nat}
    (hfuel : Nat.sqrt m < d + 2 * fuel) :
    k ∈ smallOddDivisors m fuel d found ↔
      k ∈ found ∨ (k ∣ m ∧ d ≤ k ∧ k % 2 = d % 2 ∧ k * k ≤ m) := by
  have hroot {j : Nat} : j * j ≤ m ↔ j ≤ Nat.sqrt m := Nat.le_sqrt.symm
  induction fuel generalizing d found with
  | zero =>
    rw [smallOddDivisors, iff_self_or]
    rintro ⟨-, hle, -, hsquare⟩
    have := hroot.mp hsquare
    omega
  | succ fuel ih =>
    -- A divisor of the same parity is `d` itself or at least `d + 2`.
    have hnext : d ≤ k ∧ k % 2 = d % 2 ↔ k = d ∨ (d + 2 ≤ k ∧ k % 2 = (d + 2) % 2) := by omega
    have hreach : Nat.sqrt m < d + 2 + 2 * fuel := by omega
    simp only [smallOddDivisors]
    split
    · next hstop =>
      rw [iff_self_or]
      rintro ⟨-, hle, -, hsquare⟩
      exact absurd ((Nat.mul_le_mul hle hle).trans hsquare) (by omega)
    · next hgo =>
      have hsquare : d * d ≤ m := not_lt.mp hgo
      split
      · next hmod =>
        have hdvd : d ∣ m := Nat.dvd_of_mod_eq_zero hmod
        refine (ih hreach).trans ?_
        rw [List.mem_cons]
        constructor
        · rintro ((rfl | hfound) | ⟨hk, hle, hparity, hk2⟩)
          · exact .inr ⟨hdvd, le_refl _, rfl, hsquare⟩
          · exact .inl hfound
          · exact .inr ⟨hk, by omega, by omega, hk2⟩
        · rintro (hfound | ⟨hk, hle, hparity, hk2⟩)
          · exact .inl (.inr hfound)
          · rcases hnext.mp ⟨hle, hparity⟩ with rfl | ⟨hle', hparity'⟩
            · exact .inl (.inl rfl)
            · exact .inr ⟨hk, hle', hparity', hk2⟩
      · next hmod =>
        refine (ih hreach).trans (or_congr_right
          ⟨fun ⟨hk, hle, hparity, hk2⟩ => ⟨hk, by omega, by omega, hk2⟩, ?_⟩)
        rintro ⟨hk, hle, hparity, hk2⟩
        rcases hnext.mp ⟨hle, hparity⟩ with rfl | ⟨hle', hparity'⟩
        · exact absurd (Nat.mod_eq_zero_of_dvd hk) hmod
        · exact ⟨hk, hle', hparity', hk2⟩

theorem mem_oddDivisors {m k : Nat} (hodd : m % 2 = 1) : k ∈ oddDivisors m ↔ k ∣ m := by
  have hpos : 0 < m := by omega
  have hsmall (j : Nat) : j ∈ smallOddDivisors m (Double.natSqrt m / 2 + 1) 1 [] ↔
      j ∣ m ∧ j * j ≤ m := by
    rw [Double.natSqrt_eq, mem_smallOddDivisors (by omega)]
    have hparity (hj : j ∣ m) : j % 2 = 1 ∧ 1 ≤ j := by
      have : Odd j := Odd.of_dvd_nat (Nat.odd_iff.mpr hodd) hj
      exact ⟨Nat.odd_iff.mp this, this.pos⟩
    constructor
    · rintro (hnone | ⟨hj, -, -, hj2⟩)
      · cases hnone
      · exact ⟨hj, hj2⟩
    · rintro ⟨hj, hj2⟩
      exact .inr ⟨hj, (hparity hj).2, (hparity hj).1, hj2⟩
  simp only [oddDivisors, List.mem_append, List.mem_reverse, List.mem_map, List.mem_filter, hsmall]
  constructor
  · rintro (⟨hk, -⟩ | ⟨j, ⟨⟨hj, -⟩, -⟩, rfl⟩)
    · exact hk
    · exact Nat.div_dvd_of_dvd hj
  · intro hk
    rcases le_or_gt (k * k) m with hle | hgt
    · exact .inl ⟨hk, hle⟩
    · -- The partner of a large divisor is a small one, and not its own partner.
      obtain ⟨j, rfl⟩ := hk
      have hk0 : 0 < k := Nat.pos_of_mul_pos_right hpos
      have hlt : j < k := Nat.lt_of_mul_lt_mul_left hgt
      have hj0 : 0 < j := Nat.pos_of_mul_pos_left hpos
      refine .inr ⟨j, ⟨⟨Nat.dvd_mul_left j k, Nat.mul_le_mul_right j hlt.le⟩, ?_⟩,
        Nat.mul_div_cancel k hj0⟩
      simpa using (Nat.mul_lt_mul_of_pos_right hlt hj0).ne

/-! ## All divisors -/

/-- The number is the power of two that was taken out times the rest. -/
theorem splitTwos_eq (fuel n : Nat) :
    n = 2 ^ (splitTwos fuel n).1 * (splitTwos fuel n).2 := by
  induction fuel generalizing n with
  | zero => simp [splitTwos]
  | succ fuel ih =>
    simp only [splitTwos]
    split
    · next heven =>
      calc n = 2 * (n / 2) := by omega
        _ = 2 * (2 ^ (splitTwos fuel (n / 2)).1 * (splitTwos fuel (n / 2)).2) := by rw [← ih]
        _ = _ := by rw [pow_succ']; ring
    · simp

/-- The rest is odd, if the fuel suffices. -/
theorem splitTwos_odd {fuel n : Nat} (hn : 0 < n) (hfuel : n < 2 ^ (fuel + 1)) :
    (splitTwos fuel n).2 % 2 = 1 := by
  induction fuel generalizing n with
  | zero =>
    obtain rfl : n = 1 := by omega
    rfl
  | succ fuel ih =>
    simp only [splitTwos]
    split
    · exact ih (by omega) (by rw [pow_succ] at hfuel; omega)
    · next hodd => simpa using hodd

/-- **The divisors of a positive number are found, all of them and no other numbers.** -/
theorem mem_divisors {n k : Nat} (hn : 0 < n) : k ∈ divisors n ↔ k ∣ n := by
  have hodd := splitTwos_odd hn (Nat.lt_log2_self (n := n))
  have hsplit := splitTwos_eq n.log2 n
  simp only [divisors, List.mem_mergeSort, List.mem_flatMap, List.mem_range, List.mem_map, twoTo_eq,
    mem_oddDivisors hodd]
  set i := (splitTwos n.log2 n).1
  set m := (splitTwos n.log2 n).2
  rw [hsplit]
  constructor
  · rintro ⟨j, hj, l, hl, rfl⟩
    exact Nat.mul_dvd_mul (Nat.pow_dvd_pow 2 (by omega)) hl
  · intro hk
    obtain ⟨p, l, hp, hl, rfl⟩ := Nat.dvd_mul.mp hk
    obtain ⟨j, hj, rfl⟩ := (Nat.dvd_prime_pow Nat.prime_two).mp hp
    exact ⟨j, by omega, l, hl, rfl⟩

end Stepwise
