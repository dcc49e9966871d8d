/-
# Shortest decimals read back

The shortest decimal of a double is rounded to the double again.  Seventeen digits always suffice,
because the decimal nearest to a double with that many digits is closer to it than `2 ^ -54` of its
size.

* `Decimal.value` : the rational that a decimal stands for;
* `Double.ofDecimal_eq` : a decimal is rounded like any quotient of the same value;
* `Double.ofDecimal_shortest` : the shortest decimal of a double reads back.
-/
import Stepwise.Decimal.Shortest
import Stepwise.Proofs.Double.Rounding

namespace Stepwise

/-! ## Scaled quotients -/

theorem scaleQuotient_pos {n d : Nat} (hd : 0 < d) (k : Int) : 0 < (scaleQuotient n d k).2 := by
  cases k with
  | ofNat k => exact hd
  | negSucc k => exact Nat.mul_pos hd (Nat.pow_pos (by norm_num))

/-- A scaled quotient is the quotient times a power of ten. -/
theorem scaleQuotient_div (n d : Nat) (k : Int) :
    ((scaleQuotient n d k).1 : ℚ) / (scaleQuotient n d k).2 = n / d * (10 : ℚ) ^ k := by
  cases k with
  | ofNat k =>
    simp only [scaleQuotient, tenTo_eq, Int.ofNat_eq_natCast, zpow_natCast]
    push_cast
    ring
  | negSucc k =>
    simp only [scaleQuotient, tenTo_eq, zpow_negSucc]
    push_cast
    rw [← div_div, div_eq_mul_inv]

/-- The test for a power of ten. -/
theorem tenPowLe_iff {n d : Nat} (hd : 0 < d) (k : Int) :
    tenPowLe n d k = true ↔ (10 : ℚ) ^ k ≤ n / d := by
  have hpos : (0 : ℚ) < (scaleQuotient n d (-k)).2 := by exact_mod_cast scaleQuotient_pos hd (-k)
  have hdiv := scaleQuotient_div n d (-k)
  have hcast : (scaleQuotient n d (-k)).2 ≤ (scaleQuotient n d (-k)).1 ↔
      ((scaleQuotient n d (-k)).2 : ℚ) ≤ (scaleQuotient n d (-k)).1 := Nat.cast_le.symm
  rw [tenPowLe, decide_eq_true_iff, hcast, ← one_le_div hpos, hdiv, zpow_neg, ← div_eq_mul_inv,
    one_le_div (by positivity)]

/-! ## The decimal exponent -/

/-- The decimal exponent estimated from the binary one. -/
def estimate (k : Int) : Int := Int.fdiv (k * 30103) 100000

theorem estimate_natCast (k : Nat) : estimate k = (k * 30103 / 100000 : Nat) := by
  rw [estimate, Int.fdiv_eq_ediv_of_nonneg _ (by norm_num)]
  push_cast
  rfl

theorem estimate_neg (k : Nat) : estimate (-k) = -((k * 30103 + 99999) / 100000 : Nat) := by
  rw [estimate, Int.fdiv_eq_ediv_of_nonneg _ (by norm_num)]
  push_cast
  omega

/-- One below the estimate is small enough, for every exponent of a double. -/
theorem ten_pow_estimate_le {k : Int} (hlower : -1074 ≤ k) (hupper : k ≤ 1023) :
    (10 : ℚ) ^ (estimate k - 1) ≤ 2 ^ k := by
  rcases Int.le_total 0 k with hk | hk
  · obtain ⟨j, rfl⟩ := Int.eq_ofNat_of_zero_le hk
    -- There are finitely many exponents, so that each of them can be checked.
    have htable : ((List.range 1024).all fun j =>
        Nat.ble (10 ^ (j * 30103 / 100000)) (10 * 2 ^ j)) = true := by decide +kernel
    have hentry := Nat.le_of_ble_eq_true
      (List.all_eq_true.mp htable j (List.mem_range.mpr (by omega)))
    have hj : (10 : ℚ) ^ (j * 30103 / 100000) ≤ 10 * 2 ^ j := by
      exact_mod_cast hentry
    rw [estimate_natCast, zpow_sub₀ (by norm_num), zpow_natCast, zpow_natCast, zpow_one,
      div_le_iff₀ (by norm_num)]
    linarith
  · obtain ⟨j, rfl⟩ := Int.exists_eq_neg_ofNat hk
    have htable : ((List.range 1075).all fun j =>
        Nat.ble (2 ^ j) (10 ^ ((j * 30103 + 99999) / 100000 + 1))) = true := by decide +kernel
    have hentry := Nat.le_of_ble_eq_true
      (List.all_eq_true.mp htable j (List.mem_range.mpr (by omega)))
    have hj : (2 : ℚ) ^ j ≤ 10 ^ ((j * 30103 + 99999) / 100000 + 1) := by
      exact_mod_cast hentry
    rw [estimate_neg, ← neg_add', zpow_neg, zpow_neg, zpow_natCast]
    refine inv_anti₀ (by positivity) ?_
    exact_mod_cast hj

/-- The decimal exponent is not too large, for a quotient in the range of doubles. -/
theorem floorLog10_le {n d : Nat} (hn : 0 < n) (hd : 0 < d)
    (hlower : -1074 ≤ Int.log 2 ((n : ℚ) / d)) (hupper : Int.log 2 ((n : ℚ) / d) ≤ 1023) :
    (10 : ℚ) ^ floorLog10 n d ≤ n / d := by
  have hq : (0 : ℚ) < n / d := by positivity
  have hbelow : (10 : ℚ) ^ (estimate (floorLog2 n d) - 1) ≤ n / d := by
    rw [floorLog2_eq_log hn hd]
    exact (ten_pow_estimate_le hlower hupper).trans
      (by exact_mod_cast Int.zpow_log_le_self (b := 2) (by norm_num) hq)
  have hguess : Int.fdiv (floorLog2 n d * 30103) 100000 = estimate (floorLog2 n d) := rfl
  simp only [floorLog10, hguess]
  split
  · next h => exact (tenPowLe_iff hd _).mp h
  · split
    · next h => exact (tenPowLe_iff hd _).mp h
    · exact hbelow

/-! ## Decimals -/

namespace Decimal

/-- The rational that a decimal stands for. -/
def value (x : Decimal) : ℚ := x.digits * 10 ^ x.exponent

theorem value_nonneg (x : Decimal) : 0 ≤ x.value := by
  rw [value]
  positivity

theorem value_eq_div (x : Decimal) : x.value = ((x.value.num.natAbs : Nat) : ℚ) / x.value.den := by
  rw [Double.natAbs_num_div_den, abs_of_nonneg x.value_nonneg]

theorem value_dropZerosAux (fuel digits : Nat) (exponent : Int) :
    (dropZerosAux fuel digits exponent).value = digits * (10 : ℚ) ^ exponent := by
  induction fuel generalizing digits exponent with
  | zero => rfl
  | succ fuel ih =>
    rw [dropZerosAux]
    split
    · next h =>
      have hsplit : digits = digits / 10 * 10 := by omega
      have hcast : (digits : ℚ) = (digits / 10 : Nat) * 10 := by exact_mod_cast hsplit
      rw [ih, zpow_add₀ (by norm_num), zpow_one, hcast]
      ring
    · rfl

/-- Zeros at the end of the digits do not count. -/
theorem value_dropZeros (x : Decimal) : x.dropZeros.value = x.value :=
  value_dropZerosAux _ _ _

end Decimal

namespace Double

/-- A decimal is rounded like any quotient of the same value. -/
theorem ofDecimal_eq (negative : Bool) (x : Decimal) {n d : Nat} (hd : 0 < d)
    (h : x.value = (n : ℚ) / d) :
    ofDecimal negative x.digits x.exponent = roundQuotient negative n d := by
  rw [Decimal.value] at h
  cases hexponent : x.exponent with
  | ofNat k =>
    rw [hexponent, Int.ofNat_eq_natCast, zpow_natCast] at h
    refine roundQuotient_congr negative Nat.one_pos hd ?_
    rw [← h, tenTo_eq]
    push_cast
    ring
  | negSucc k =>
    rw [hexponent, zpow_negSucc] at h
    refine roundQuotient_congr negative (Nat.pow_pos (by norm_num)) hd ?_
    rw [← h, tenTo_eq]
    push_cast
    exact div_eq_mul_inv _ _

/-- Decimals of the same value are rounded alike. -/
theorem ofDecimal_congr (negative : Bool) {x y : Decimal} (h : x.value = y.value) :
    ofDecimal negative x.digits x.exponent = ofDecimal negative y.digits y.exponent := by
  rw [ofDecimal_eq negative x (Rat.den_pos _) (h.trans y.value_eq_div),
    ofDecimal_eq negative y (Rat.den_pos _) y.value_eq_div]

/-- A decimal close to a double is rounded to it. -/
theorem ofDecimal_of_near (negative : Bool) {m : Nat} {e : Int} (h : Canonical m e) (x : Decimal)
    (hnear : |x.value - m * 2 ^ e| * 2 ^ 54 < m * 2 ^ e) :
    ofDecimal negative x.digits x.exponent = .finite negative m e h := by
  rw [ofDecimal_eq negative x (Rat.den_pos _) x.value_eq_div]
  exact roundQuotient_of_near negative h (Rat.den_pos _) (by rwa [← x.value_eq_div])

/-! ## The search -/

/-- A rounded quotient is the one below or the one above. -/
theorem roundDivision_cases (a b : Nat) :
    roundDivision a b = a / b ∨ roundDivision a b = a / b + 1 := by
  simp only [roundDivision]
  split
  · exact .inl rfl
  · split
    · split <;> simp
    · exact .inr rfl

/-- What is found on a grid reads back. -/
theorem readsBack_of_shortestOnGrid? {x : Double} {n d : Nat} {unit : Int} {found : Decimal}
    (h : shortestOnGrid? x n d unit = some found) :
    ofDecimal false found.digits found.exponent = x := by
  simp only [shortestOnGrid?] at h
  split at h
  · cases h
  · next hbelow _ =>
    obtain rfl := Option.some.inj h
    exact of_decide_eq_true hbelow
  · next _ habove =>
    obtain rfl := Option.some.inj h
    exact of_decide_eq_true habove
  · next hbelow habove =>
    obtain rfl := Option.some.inj h
    -- If both decimals read back, the nearer one is taken, which is one of the two.
    rcases roundDivision_cases (scaleQuotient n d (-unit)).1 (scaleQuotient n d (-unit)).2 with
      heq | heq
    · rw [heq]
      exact of_decide_eq_true hbelow
    · rw [heq]
      exact of_decide_eq_true habove

/-- The search finds what reads back, if one of the grids it tries has it. -/
theorem readsBack_of_shortestFrom {x : Double} {n d : Nat} {fuel : Nat} {unit : Int} {k : Nat}
    (hk : k < fuel) (hgrid : shortestOnGrid? x n d (unit - k) ≠ none) :
    ofDecimal false (shortestFrom x n d fuel unit).digits (shortestFrom x n d fuel unit).exponent
      = x := by
  induction fuel generalizing unit k with
  | zero => exact absurd hk (Nat.not_lt_zero k)
  | succ fuel ih =>
    rw [shortestFrom]
    cases hfound : shortestOnGrid? x n d unit with
    | some found => exact readsBack_of_shortestOnGrid? hfound
    | none =>
      cases k with
      | zero => exact absurd (by simpa using hfound) hgrid
      | succ k =>
        refine ih (by omega) (k := k) ?_
        rw [show unit - 1 - (k : Int) = unit - (k + 1 : Nat) by push_cast; ring]
        exact hgrid

/-! ## Seventeen digits -/

/-- A grid with steps less than `10 ^ -16` of the size of a double has a decimal that reads back. -/
theorem shortestOnGrid?_ne_none {m : Nat} {e : Int} (h : Canonical m e) {n d : Nat} (hd : 0 < d)
    (hvalue : (n : ℚ) / d = m * 2 ^ e) {unit : Int}
    (hunit : (10 : ℚ) ^ unit * 10 ^ 16 ≤ m * 2 ^ e) :
    shortestOnGrid? (.finite false m e h) n d unit ≠ none := by
  obtain ⟨a, ha⟩ : ∃ a, a = (scaleQuotient n d (-unit)).1 := ⟨_, rfl⟩
  obtain ⟨b, hb⟩ : ∃ b, b = (scaleQuotient n d (-unit)).2 := ⟨_, rfl⟩
  have hbpos : 0 < b := hb ▸ scaleQuotient_pos hd (-unit)
  have hstep : (0 : ℚ) < 10 ^ unit := by positivity
  have hscaled : (m : ℚ) * 2 ^ e = a / b * 10 ^ unit := by
    rw [ha, hb, scaleQuotient_div, hvalue, mul_assoc, ← zpow_add₀ (by norm_num), neg_add_cancel,
      zpow_zero, mul_one]
  -- The double lies between the two decimals around it.
  have hfloor : ((a / b : Nat) : ℚ) ≤ a / b := Nat.cast_div_le
  have hceil : (a : ℚ) / b < (a / b : Nat) + 1 := by
    rw [div_lt_iff₀ (by exact_mod_cast hbpos)]
    exact_mod_cast Nat.lt_mul_of_div_lt (Nat.lt_succ_self (a / b)) hbpos
  -- The nearer one is at most half a step away, which is close enough to be rounded back.
  have hread {digits : Nat} (hhalf : |(digits : ℚ) - a / b| ≤ 1 / 2) :
      ofDecimal false digits unit = .finite false m e h := by
    refine ofDecimal_of_near false h ⟨digits, unit⟩ ?_
    have hdistance : |(digits : ℚ) * 10 ^ unit - m * 2 ^ e| ≤ 1 / 2 * 10 ^ unit := by
      rw [hscaled, ← sub_mul, abs_mul, abs_of_pos hstep]
      exact mul_le_mul_of_nonneg_right hhalf hstep.le
    rw [Decimal.value]
    nlinarith
  intro hnone
  simp only [shortestOnGrid?, ← ha, ← hb] at hnone
  rcases le_or_gt ((a : ℚ) / b) ((a / b : Nat) + 1 / 2) with hnear | hfar
  · have hbelow : ofDecimal false (a / b) unit = .finite false m e h :=
      hread (by rw [abs_le]; constructor <;> linarith)
    rw [hbelow] at hnone
    simp at hnone
    split at hnone <;> simp_all
  · have habove : ofDecimal false (a / b + 1) unit = .finite false m e h :=
      hread (by push_cast; rw [abs_le]; constructor <;> linarith)
    rw [habove] at hnone
    split at hnone <;> simp_all

/-- The bits of a finite double bound its binary logarithm. -/
theorem log_mem_range {m : Nat} {e : Int} (h : Canonical m e) (hm : 0 < m) :
    -1074 ≤ Int.log 2 ((m : ℚ) * 2 ^ e) ∧ Int.log 2 ((m : ℚ) * 2 ^ e) ≤ 1023 := by
  have hpos : (0 : ℚ) < m * 2 ^ e := by positivity
  obtain ⟨hmantissa, hleast, hgreatest, -⟩ := h
  constructor
  · refine (Int.zpow_le_iff_le_log (by norm_num) hpos).mp ?_
    calc ((2 : Nat) : ℚ) ^ (-1074 : Int) ≤ 2 ^ e := by
          rw [Nat.cast_ofNat]
          exact zpow_le_zpow_right₀ (by norm_num) hleast
      _ ≤ m * 2 ^ e := le_mul_of_one_le_left (by positivity) (by exact_mod_cast hm)
  · have hlt : (m : ℚ) * 2 ^ e < ((2 : Nat) : ℚ) ^ (1024 : Int) := by
      calc (m : ℚ) * 2 ^ e < 2 ^ (53 : Int) * 2 ^ e := by
            refine mul_lt_mul_of_pos_right ?_ (by positivity)
            exact_mod_cast hmantissa
        _ = 2 ^ (53 + e) := (zpow_add₀ (by norm_num) _ _).symm
        _ ≤ ((2 : Nat) : ℚ) ^ (1024 : Int) := by
          rw [Nat.cast_ofNat]
          exact zpow_le_zpow_right₀ (by norm_num) (by omega)
    have := (Int.lt_zpow_iff_log_lt (by norm_num) hpos).mp hlt
    omega

/-- **The shortest decimal of a double reads back**, up to the sign. -/
theorem ofDecimal_shortest (negative : Bool) {m : Nat} {e : Int} (h : Canonical m e) (hm : 0 < m) :
    ofDecimal false (finite negative m e h).shortest.digits
      (finite negative m e h).shortest.exponent = .finite false m e h := by
  have hpos : (0 : ℚ) < m * 2 ^ e := by positivity
  have hvalue : (finite false m e h).value = m * 2 ^ e := by
    rw [value_finite]
    simp
  obtain ⟨v, hv⟩ : ∃ v, v = (finite false m e h).value := ⟨_, rfl⟩
  have hquotient : ((v.num.natAbs : Nat) : ℚ) / v.den = m * 2 ^ e := by
    rw [natAbs_num_div_den, hv, hvalue, abs_of_pos hpos]
  have hnum : ¬ v.num = 0 := by
    rw [hv, hvalue, Rat.num_eq_zero]
    exact hpos.ne'
  have hshortest : (finite negative m e h).shortest =
      (shortestFrom (finite false m e h) v.num.natAbs v.den 17
        (floorLog10 v.num.natAbs v.den)).dropZeros := by
    simp only [shortest, abs, ← hv, if_neg hnum]
  have hlog := log_mem_range h hm
  rw [← hquotient] at hlog
  have hten := floorLog10_le (Int.natAbs_pos.mpr hnum) v.den_pos hlog.1 hlog.2
  rw [hshortest, ofDecimal_congr false (Decimal.value_dropZeros _)]
  -- The search may stop earlier, but the grid of seventeen digits is fine enough for certain.
  refine readsBack_of_shortestFrom (k := 16) (by norm_num) ?_
  refine shortestOnGrid?_ne_none h v.den_pos hquotient ?_
  rw [← hquotient]
  calc (10 : ℚ) ^ (floorLog10 v.num.natAbs v.den - (16 : Nat)) * 10 ^ 16
      = 10 ^ floorLog10 v.num.natAbs v.den := by
        rw [zpow_sub₀ (by norm_num), zpow_natCast]
        field_simp
    _ ≤ v.num.natAbs / v.den := hten

end Double

end Stepwise
