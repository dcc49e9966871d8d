/-
# Numbers shown without an exponent

A finite double of a size from `10 ^ -4` to below `10 ^ 16` is shown positionally.  The layout is
chosen by the leading digit of the shortest decimal, which need not be the leading digit of the
double.  The shortest decimal is a neighbour of the double on a decimal grid, so it does not fall
below a power of ten that the double reaches; and it does not reach `10 ^ 16` from below, because it
would not read back.

* `Decimal.Neighbour` : a decimal next to a quotient on its own grid;
* `Double.le_value_shortest`, `Double.value_shortest_lt` : the size of the shortest decimal;
* `Double.plain_iff_size` : the numbers that are shown without letters.
-/
import Mathlib.Algebra.Order.Floor.Semifield
import Stepwise.Proofs.Decimal.Places
import Stepwise.Proofs.Expr.Token

namespace Stepwise

/-! ## Neighbours on a grid -/

/-- The decimal is next to the quotient on the grid of its own last digit, and the quotient is at
least one step of this grid. -/
structure Decimal.Neighbour (q : ℚ) (d : Decimal) : Prop where
  step_le : (10 : ℚ) ^ d.exponent ≤ q
  digits : d.digits = ⌊q / 10 ^ d.exponent⌋₊ ∨ d.digits = ⌊q / 10 ^ d.exponent⌋₊ + 1

namespace Decimal.Neighbour

variable {q : ℚ} {d : Decimal} {j : Int}

theorem floor_le_digits (h : d.Neighbour q) : ⌊q / 10 ^ d.exponent⌋₊ ≤ d.digits := by
  rcases h.digits with hdigits | hdigits <;> omega

/-- A neighbour does not fall below a power of ten that the quotient reaches. -/
theorem le_value (h : d.Neighbour q) (hj : (10 : ℚ) ^ j ≤ q) : (10 : ℚ) ^ j ≤ d.value := by
  have hstep : (0 : ℚ) < 10 ^ d.exponent := by positivity
  rcases le_total j d.exponent with hle | hle
  · have hone : 1 ≤ d.digits := by
      refine le_trans (Nat.le_floor ?_) h.floor_le_digits
      rw [Nat.cast_one, one_le_div hstep]
      exact h.step_le
    calc (10 : ℚ) ^ j ≤ 10 ^ d.exponent := zpow_le_zpow_right₀ (by norm_num) hle
      _ ≤ d.value := le_mul_of_one_le_left hstep.le (by exact_mod_cast hone)
  · -- The power of ten is itself on the grid.
    obtain ⟨k, hk⟩ := Int.eq_ofNat_of_zero_le (sub_nonneg.mpr hle)
    have hpower : (10 : ℚ) ^ j = (10 ^ k : Nat) * 10 ^ d.exponent := by
      rw [Nat.cast_pow, Nat.cast_ofNat, ← zpow_natCast, ← zpow_add₀ (by norm_num), ← hk,
        sub_add_cancel]
    have hdigits : 10 ^ k ≤ d.digits := by
      refine le_trans (Nat.le_floor ?_) h.floor_le_digits
      rw [le_div_iff₀ hstep, ← hpower]
      exact hj
    rw [hpower, Decimal.value]
    exact mul_le_mul_of_nonneg_right (by exact_mod_cast hdigits) hstep.le

/-- A neighbour is at most twice the quotient. -/
theorem value_le (h : d.Neighbour q) : d.value ≤ 2 * q := by
  have hstep : (0 : ℚ) < 10 ^ d.exponent := by positivity
  have hfloor : (⌊q / 10 ^ d.exponent⌋₊ : ℚ) ≤ q / 10 ^ d.exponent :=
    Nat.floor_le (div_nonneg (hstep.le.trans h.step_le) hstep.le)
  have hdigits : (d.digits : ℚ) ≤ q / 10 ^ d.exponent + 1 := by
    rcases h.digits with hdigits | hdigits
    · rw [hdigits]
      linarith only [hfloor]
    · rw [hdigits, Nat.cast_add_one]
      linarith only [hfloor]
  calc d.value ≤ (q / 10 ^ d.exponent + 1) * 10 ^ d.exponent :=
        mul_le_mul_of_nonneg_right hdigits hstep.le
    _ = q + 10 ^ d.exponent := by
      field_simp
    _ ≤ 2 * q := by
      linarith only [h.step_le]

end Decimal.Neighbour

namespace Double

/-! ## The shortest decimal -/

variable {x : Double} {n d : Nat} {unit : Int}

/-- The quotient in units of a grid, rounded down. -/
theorem scaleQuotient_floor (n d : Nat) (unit : Int) :
    (scaleQuotient n d (-unit)).1 / (scaleQuotient n d (-unit)).2 =
      ⌊(n : ℚ) / d / 10 ^ unit⌋₊ := by
  rw [← Nat.floor_div_eq_div (K := ℚ), scaleQuotient_div, zpow_neg, ← div_eq_mul_inv]

/-- What is found on a grid is a neighbour. -/
theorem neighbour_of_shortestOnGrid? {found : Decimal} (hunit : (10 : ℚ) ^ unit ≤ n / d)
    (h : shortestOnGrid? x n d unit = some found) : found.Neighbour ((n : ℚ) / d) := by
  simp only [shortestOnGrid?] at h
  split at h
  · cases h
  · obtain rfl := Option.some.inj h
    exact ⟨hunit, .inl (scaleQuotient_floor n d unit)⟩
  · obtain rfl := Option.some.inj h
    exact ⟨hunit, .inr (congrArg (· + 1) (scaleQuotient_floor n d unit))⟩
  · obtain rfl := Option.some.inj h
    refine ⟨hunit, ?_⟩
    rw [← scaleQuotient_floor]
    exact roundDivision_cases _ _

/-- The search finds a neighbour. -/
theorem neighbour_shortestFrom (x : Double) (fuel : Nat) (hunit : (10 : ℚ) ^ unit ≤ n / d) :
    (shortestFrom x n d fuel unit).Neighbour ((n : ℚ) / d) := by
  induction fuel generalizing unit with
  | zero => exact ⟨hunit, .inl (scaleQuotient_floor n d unit)⟩
  | succ fuel ih =>
    rw [shortestFrom]
    cases hfound : shortestOnGrid? x n d unit with
    | some found => exact neighbour_of_shortestOnGrid? hunit hfound
    | none => exact ih ((zpow_le_zpow_right₀ (by norm_num) (by omega)).trans hunit)

variable {negative : Bool} {m : Nat} {e : Int} {h : Canonical m e}

/-- The shortest decimal is a neighbour with the zeros at its end dropped. -/
theorem exists_neighbour_shortest (negative : Bool) (h : Canonical m e) (hm : 0 < m) :
    ∃ d : Decimal, d.Neighbour (m * 2 ^ e) ∧ (finite negative m e h).shortest.value = d.value := by
  have hpos : (0 : ℚ) < m * 2 ^ e := by positivity
  have hvalue : (finite negative m e h).abs.value = m * 2 ^ e := by
    rw [value_abs, abs_value_finite]
  obtain ⟨v, hv⟩ : ∃ v, v = (finite negative m e h).abs.value := ⟨_, rfl⟩
  have hquotient : ((v.num.natAbs : Nat) : ℚ) / v.den = m * 2 ^ e := by
    rw [natAbs_num_div_den, hv, hvalue, abs_of_pos hpos]
  have hnum : ¬ v.num = 0 := by
    rw [hv, hvalue, Rat.num_eq_zero]
    exact hpos.ne'
  have hlog := log_mem_range h hm
  rw [← hquotient] at hlog
  have hunit := floorLog10_le (Int.natAbs_pos.mpr hnum) v.den_pos hlog.1 hlog.2
  have hneighbour := neighbour_shortestFrom (finite negative m e h).abs 17 hunit
  rw [hquotient] at hneighbour
  refine ⟨_, hneighbour, ?_⟩
  simp only [shortest, ← hv, if_neg hnum]
  exact Decimal.value_dropZeros _

/-- The shortest decimal reaches every power of ten that the double reaches. -/
theorem le_value_shortest (hm : 0 < m) {j : Int} (hj : (10 : ℚ) ^ j ≤ m * 2 ^ e) :
    (10 : ℚ) ^ j ≤ (finite negative m e h).shortest.value := by
  obtain ⟨d, hneighbour, hvalue⟩ := exists_neighbour_shortest negative h hm
  rw [hvalue]
  exact hneighbour.le_value hj

/-- A moderate decimal is read as the nearest number with 53 bits. -/
theorem value_ofDecimal {d : Decimal} (hpos : 0 < d.value) (hmoderate : d.value ≤ moderate) :
    (ofDecimal false d.digits d.exponent).value = nearest d.value := by
  have hquotient := d.value_eq_div
  rw [ofDecimal_eq false d (Rat.den_pos _) hquotient]
  have hnearest := (roundQuotient_nearest false (Rat.den_pos d.value)
    (hpos.trans_eq hquotient) (by rw [← hquotient]; exact nearest_lt hpos hmoderate)).2
  rwa [← hquotient, if_neg Bool.false_ne_true, one_mul] at hnearest

/-- The shortest decimal of a double below `2 ^ 53` is moderate. -/
theorem value_shortest_le_moderate (hm : 0 < m) (hsmall : (m : ℚ) * 2 ^ e < 2 ^ 53) :
    (finite negative m e h).shortest.value ≤ moderate := by
  obtain ⟨d, hneighbour, hvalue⟩ := exists_neighbour_shortest negative h hm
  refine le_moderate ?_
  have htwice := hneighbour.value_le
  rw [hvalue]
  linarith only [htwice, hsmall, show (2 : ℚ) * 2 ^ 53 ≤ 2 ^ 200 by norm_num]

/-- The shortest decimal of a double below `2 ^ 53` is below `10 ^ 16`. -/
theorem value_shortest_lt (hm : 0 < m) (hsmall : (m : ℚ) * 2 ^ e < 2 ^ 53) :
    (finite negative m e h).shortest.value < 10 ^ 16 := by
  have hupper : (finite negative m e h).shortest.value ≤ moderate :=
    value_shortest_le_moderate hm hsmall
  have hnear := (ofDecimal_near false _ hupper).2
  rw [ofDecimal_shortest negative h hm, value_finite, if_neg Bool.false_ne_true, one_mul,
    one_mul, abs_le] at hnear
  have htiny : (2 : ℚ) ^ (-1075 : ℤ) ≤ 1 := zpow_le_one_of_nonpos₀ (by norm_num) (by norm_num)
  have hunit : (2 : ℚ) ^ (-53 : ℤ) = 1 / 9007199254740992 := by norm_num
  rw [hunit] at hnear
  -- From `10 ^ 16` on, half a unit of the last place does not lead back below `2 ^ 53`.
  linarith only [hnear.1, hsmall, htiny]

/-- A double below `10 ^ -4` has a shortest decimal below it: that power of ten is read as a double
above itself, and reading keeps the order. -/
theorem value_shortest_lt_of_lt (hm : 0 < m) (hsmall : (m : ℚ) * 2 ^ e < 10 ^ (-4 : ℤ)) :
    (finite negative m e h).shortest.value < 10 ^ (-4 : ℤ) := by
  by_contra hle
  rw [not_lt] at hle
  have hmoderate : (finite negative m e h).shortest.value ≤ moderate :=
    value_shortest_le_moderate hm (hsmall.trans (by norm_num))
  have hread := value_ofDecimal (lt_of_lt_of_le (by positivity) hle) hmoderate
  rw [ofDecimal_shortest negative h hm, value_finite, if_neg Bool.false_ne_true, one_mul] at hread
  have hpower : (Decimal.mk 1 (-4)).value = (10 : ℚ) ^ (-4 : ℤ) := by
    rw [Decimal.value, Nat.cast_one, one_mul]
  have hbound := value_ofDecimal (d := ⟨1, -4⟩) (by rw [hpower]; positivity)
    (by rw [hpower]; exact hle.trans hmoderate)
  have hexact : (1 : ℚ) / 10000 ≤ (ofDecimal false 1 (-4)).value := by decide +kernel
  have hmono := nearest_mono (by positivity) hle
  rw [← hread, ← hpower, ← hbound] at hmono
  refine absurd (hexact.trans hmono) (not_le.mpr (hsmall.trans_eq ?_))
  norm_num

/-! ## Layouts -/

/-- A decimal is set out positionally from `10 ^ -4` to below `10 ^ 16`. -/
theorem positional_leading_iff {d : Decimal} (hpos : 0 < d.value) :
    reprLayout.positional d.leading = true ↔
      (10 : ℚ) ^ (-4 : ℤ) ≤ d.value ∧ d.value < 10 ^ 16 := by
  have hdigits : d.digits ≠ 0 := fun hzero => hpos.ne' ((d.digits_eq_zero_iff).mp hzero)
  have hlower := Int.zpow_le_iff_le_log (b := 10) (x := -4) (by norm_num) hpos
  have hupper := Int.lt_zpow_iff_log_lt (b := 10) (x := 16) (by norm_num) hpos
  rw [← Decimal.leading_eq_log hdigits] at hlower hupper
  have hnorm : ((10 : ℕ) : ℚ) = 10 := by norm_num
  rw [hnorm] at hlower hupper
  have hsixteen : (10 : ℚ) ^ (16 : ℤ) = 10 ^ 16 := by norm_num
  rw [hsixteen] at hupper
  rw [hlower, hupper]
  simp [reprLayout]

/-- A shortest decimal from `10 ^ -4` to below `10 ^ 16` is written without letters. -/
theorem isLetter_of_mem_repr {c : Char} (hlower : (10 : ℚ) ^ (-4 : ℤ) ≤
      (finite negative m e h).shortest.value)
    (hupper : (finite negative m e h).shortest.value < 10 ^ 16)
    (hc : c ∈ (finite negative m e h).repr) : Text.isLetter c = false := by
  have hpos := lt_of_lt_of_le (by positivity) hlower
  have hpositional := (positional_leading_iff hpos).mpr ⟨hlower, hupper⟩
  rw [repr, signed, Decimal.write, if_pos hpositional] at hc
  rcases List.mem_append.mp hc with hc | hc
  · have hminus : c = '-' := by
      cases negative <;> simp_all
    rw [hminus]
    decide
  · exact Token.isLetter_of_mem_written (Decimal.positionalChars_written (.inr rfl) _).1 c hc

/-- Every other shortest decimal is written with the letter of an exponent. -/
theorem mem_repr_of_size (hpos : 0 < (finite negative m e h).shortest.value)
    (hsize : ¬ ((10 : ℚ) ^ (-4 : ℤ) ≤ (finite negative m e h).shortest.value ∧
      (finite negative m e h).shortest.value < 10 ^ 16)) :
    'e' ∈ (finite negative m e h).repr := by
  rw [← positional_leading_iff hpos] at hsize
  obtain ⟨s, c, digits, hchars, -⟩ := (finite negative m e h).shortest.scientificChars_eq
  rw [repr, signed, Decimal.write, if_neg hsize, hchars]
  simp

/-- The text of an integer has no letters. -/
theorem isLetter_of_mem_integerChars {n : Int} {c : Char} (hc : c ∈ integerChars n) :
    Text.isLetter c = false := by
  rw [integerChars] at hc
  split at hc
  · rcases List.mem_cons.mp hc with rfl | hc
    · decide
    · exact Token.isLetter_of_isDigit (isDigit_of_mem_digitChars hc)
  · exact Token.isLetter_of_isDigit (isDigit_of_mem_digitChars hc)

/-- A double that is not an integer is below `2 ^ 53`. -/
theorem abs_value_lt_of_toInt?_eq_none (hint : (finite negative m e h).toInt? = none) :
    (m : ℚ) * 2 ^ e < 2 ^ 53 := by
  have hexponent : e < 0 := by
    by_contra hnonneg
    obtain ⟨k, rfl⟩ := Int.eq_ofNat_of_zero_le (not_lt.mp hnonneg)
    have hwhole : (finite negative m k h).toInt? =
        some ((if negative then -1 else 1 : Int) * (m * 2 ^ k)) := by
      rw [toInt?_eq_some_iff, value_finite]
      push_cast
      rw [zpow_natCast]
    rw [hint] at hwhole
    cases hwhole
  calc (m : ℚ) * 2 ^ e ≤ m * 1 :=
        mul_le_mul_of_nonneg_left (zpow_le_one_of_nonpos₀ (by norm_num) hexponent.le)
          (Nat.cast_nonneg m)
    _ < 2 ^ 53 := by
      rw [mul_one]
      exact_mod_cast h.1

/-- **A finite number is shown without letters if it is zero or has a size from `10 ^ -4` to below
`10 ^ 16`.** -/
theorem plain_of_size {x : Double} (hfinite : x.isFinite = true)
    (hsize : x.value = 0 ∨ (10 : ℚ) ^ (-4 : ℤ) ≤ |x.value| ∧ |x.value| < 10 ^ 16) : x.Plain := by
  cases x with
  | nan | infinity negative => cases hfinite
  | finite negative m e h =>
    intro c hc
    rw [display] at hc
    cases hint : (finite negative m e h).toInt? with
    | some n =>
      have hvalue := toInt?_eq_some_iff.mp hint
      have hbound : n.natAbs < tenTo 16 := by
        have hlt : |(n : ℚ)| < 10 ^ 16 := by
          rcases hsize with hzero | ⟨-, hlt⟩
          · rw [← hvalue, hzero, abs_zero]
            positivity
          · rwa [hvalue] at hlt
        rw [tenTo_eq]
        have habs : ((n.natAbs : Nat) : ℚ) < 10 ^ 16 := by
          rwa [Nat.cast_natAbs, Int.cast_abs]
        exact_mod_cast habs
      simp only [hint, if_pos hbound] at hc
      exact isLetter_of_mem_integerChars hc
    | none =>
      simp only [hint] at hc
      have hsmall := abs_value_lt_of_toInt?_eq_none hint
      rcases hsize with hzero | ⟨hlower, -⟩
      · have hwhole : (finite negative m e h).toInt? = some 0 := by
          rw [toInt?_eq_some_iff, hzero, Int.cast_zero]
        rw [hint] at hwhole
        cases hwhole
      · rw [abs_value_finite] at hlower
        have hm : 0 < m := by
          refine Nat.pos_of_ne_zero ?_
          rintro rfl
          rw [Nat.cast_zero, zero_mul] at hlower
          exact absurd hlower (by norm_num)
        exact isLetter_of_mem_repr (le_value_shortest hm hlower) (value_shortest_lt hm hsmall) hc

/-- **No other finite number is shown without letters.** -/
theorem plain_iff_size {x : Double} (hfinite : x.isFinite = true) :
    x.Plain ↔ x.value = 0 ∨ (10 : ℚ) ^ (-4 : ℤ) ≤ |x.value| ∧ |x.value| < 10 ^ 16 := by
  refine ⟨fun hplain => ?_, plain_of_size hfinite⟩
  cases x with
  | nan | infinity negative => cases hfinite
  | finite negative m e h =>
    rw [or_iff_not_imp_left]
    intro hne
    have hm : 0 < m := by
      refine Nat.pos_of_ne_zero ?_
      rintro rfl
      exact hne (value_noMantissa negative h)
    rw [abs_value_finite]
    by_contra hsize
    -- Neither a small number nor a large one is written as an integer.
    have hrepr : (finite negative m e h).display = (finite negative m e h).repr := by
      rw [display]
      cases hint : (finite negative m e h).toInt? with
      | none => rfl
      | some n =>
        refine if_neg fun hbound => hsize ?_
        have hvalue := toInt?_eq_some_iff.mp hint
        have habs : (m : ℚ) * 2 ^ e = (n.natAbs : ℕ) := by
          rw [← abs_value_finite negative m e h, hvalue, Nat.cast_natAbs, Int.cast_abs]
        have hone : 1 ≤ n.natAbs := by
          rw [Nat.one_le_iff_ne_zero, Int.natAbs_ne_zero]
          rintro rfl
          exact hne (hvalue.trans Int.cast_zero)
        rw [habs]
        rw [tenTo_eq] at hbound
        refine ⟨le_trans (by norm_num) (Nat.one_le_cast.mpr hone : (1 : ℚ) ≤ n.natAbs), ?_⟩
        exact_mod_cast hbound
    have hletter : 'e' ∈ (finite negative m e h).display := by
      rw [hrepr]
      have hlog := Int.zpow_log_le_self (b := 10) (by norm_num)
        (show (0 : ℚ) < m * 2 ^ e by positivity)
      have hpos : 0 < (finite negative m e h).shortest.value :=
        lt_of_lt_of_le (by positivity) (le_value_shortest hm (by exact_mod_cast hlog))
      refine mem_repr_of_size hpos fun hshortest => hsize ⟨?_, ?_⟩
      · by_contra hlt
        exact absurd hshortest.1 (not_le.mpr (value_shortest_lt_of_lt hm (not_le.mp hlt)))
      · by_contra hge
        have hreach : (10 : ℚ) ^ (16 : ℤ) ≤ (finite negative m e h).shortest.value :=
          le_value_shortest hm (by exact_mod_cast not_lt.mp hge)
        exact absurd hshortest.2 (not_lt.mpr (by exact_mod_cast hreach))
    exact absurd (hplain 'e' hletter) (by decide)

end Double

end Stepwise
