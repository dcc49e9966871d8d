/-
# Defined doubles

Rounding never yields the undefined number, and neither does reading a numeral.  An operation yields
it only where infinities meet, or an infinity and a zero.

* `Double.isNaN_round`, `Numeral.isNaN_unsignedValue`;
* `Double.isNaN_add`, `Double.isNaN_mul`, `Double.isNaN_div` : operations that are defined;
* `Double.isNaN_roundForDisplay` : numbers rounded for display.
-/
import Stepwise.Decimal.Numeral
import Stepwise.Decimal.Rounding
import Stepwise.Double.Arithmetic

namespace Stepwise

namespace Double

/-! ## Rounded numbers are defined -/

@[simp] theorem isNaN_ofParts (negative : Bool) (mantissa : Nat) (exponent : Int) :
    (ofParts negative mantissa exponent).isNaN = false := by
  unfold ofParts
  split <;> rfl

@[simp] theorem isNaN_roundQuotient (negative : Bool) (n d : Nat) :
    (roundQuotient negative n d).isNaN = false := by
  simp only [roundQuotient]
  split
  · rfl
  · split <;> exact isNaN_ofParts ..

@[simp] theorem isNaN_round (negative : Bool) (q : Rat) : (round negative q).isNaN = false := by
  rw [round]
  split
  · rfl
  · exact isNaN_roundQuotient ..

@[simp] theorem isNaN_ofDecimal (negative : Bool) (digits : Nat) (exponent : Int) :
    (ofDecimal negative digits exponent).isNaN = false := by
  cases exponent <;> exact isNaN_roundQuotient ..

end Double

theorem Decimal.isNaN_toDouble (negative : Bool) (x : Decimal) :
    (x.toDouble negative).isNaN = false := by
  unfold toDouble
  split
  · rfl
  · split
    · rfl
    · split
      · rfl
      · exact Double.isNaN_ofDecimal ..

/-- An unsigned numeral stands for a number. -/
theorem Numeral.isNaN_unsignedValue (s : List Char) : (unsignedValue s).isNaN = false := by
  unfold unsignedValue
  split
  · exact Decimal.isNaN_toDouble ..
  · rfl

/-- A hundredth of a number is a number. -/
theorem Double.isNaN_div_hundred {v : Double} (h : v.isNaN = false) : (v / 100).isNaN = false := by
  have hhundred : ∃ hc, (100 : Double) = .finite false 0x19000000000000 (-46) hc :=
    ⟨by decide, by decide +kernel⟩
  obtain ⟨hc, hhundred⟩ := hhundred
  rw [hhundred]
  cases v with
  | nan => cases h
  | infinity negative => rfl
  | finite negative mantissa exponent hc' => exact isNaN_round ..

namespace Double

/-! ## Operations that are defined -/

variable {x y : Double}

@[simp] theorem isNaN_neg (x : Double) : (-x).isNaN = x.isNaN := by
  cases x <;> rfl

theorem isNaN_of_isFinite (h : x.isFinite = true) : x.isNaN = false := by
  cases x with
  | nan | infinity negative => cases h
  | finite negative m e hc => rfl

/-- A sum is defined if one of its terms is finite. -/
theorem isNaN_add (hx : x.isFinite = true) (hy : y.isNaN = false) : (x + y).isNaN = false := by
  cases x with
  | nan | infinity negative => cases hx
  | finite negative m e hc =>
    cases y with
    | nan => cases hy
    | infinity negative' => rfl
    | finite negative' m' e' hc' => exact isNaN_round ..

theorem isNaN_add_of_finite (hx : x.isNaN = false) (hy : y.isFinite = true) :
    (x + y).isNaN = false := by
  cases y with
  | nan | infinity negative => cases hy
  | finite negative m e hc =>
    cases x with
    | nan => cases hx
    | infinity negative' => rfl
    | finite negative' m' e' hc' => exact isNaN_round ..

/-- Only finite numbers have a finite sum. -/
theorem isFinite_of_add (h : (x + y).isFinite = true) : x.isFinite = true ∧ y.isFinite = true := by
  cases x with
  | nan => cases h
  | infinity negative =>
    cases y with
    | nan | finite negative' m e hc => cases h
    | infinity negative' => cases negative <;> cases negative' <;> cases h
  | finite negative m e hc =>
    cases y with
    | nan | infinity negative' => cases h
    | finite negative' m' e' hc' => exact ⟨rfl, rfl⟩

/-- The opposite of a finite difference is defined. -/
theorem isNaN_sub_swap (h : (x - y).isFinite = true) : (y - x).isNaN = false := by
  obtain ⟨hx, hy⟩ := isFinite_of_add (y := -y) h
  refine isNaN_add (y := -x) ?_ ?_
  · cases y with
    | nan | infinity negative => cases hy
    | finite negative m e hc => rfl
  · rw [isNaN_neg]
    exact isNaN_of_isFinite hx

/-- What is added to an infinity is lost in it. -/
theorem add_infinity (hx : x.isFinite = true) (s : Bool) : x + .infinity s = .infinity s := by
  cases x with
  | nan | infinity negative => cases hx
  | finite negative m e hc => rfl

/-- A number that is not zero keeps a factor infinite. -/
theorem exists_mul_infinity (hx : x.isNaN = false) (hzero : x.isZero = false) (s : Bool) :
    (∃ t, x * .infinity s = .infinity t) ∧ ∃ t, .infinity s * x = .infinity t := by
  cases x with
  | nan => cases hx
  | infinity negative => exact ⟨⟨_, rfl⟩, ⟨_, rfl⟩⟩
  | finite negative m e hc =>
    have hm : m ≠ 0 := by simpa [isZero] using hzero
    exact ⟨⟨negative != s, if_neg hm⟩, ⟨s != negative, if_neg hm⟩⟩

/-- What is neither a finite number nor undefined is infinite. -/
theorem exists_infinity (hx : x.isNaN = false) (hnot : ¬ x.isFinite = true) :
    ∃ s, x = .infinity s := by
  cases x with
  | nan => cases hx
  | infinity negative => exact ⟨negative, rfl⟩
  | finite negative m e hc => exact absurd rfl hnot

theorem mul_nan (x : Double) : x * .nan = .nan := by
  cases x <;> rfl

theorem add_nan (x : Double) : x + .nan = .nan := by
  cases x <;> rfl

/-- A product is defined if its factors are finite. -/
theorem isNaN_mul (hx : x.isFinite = true) (hy : y.isFinite = true) : (x * y).isNaN = false := by
  cases x with
  | nan | infinity negative => cases hx
  | finite negative m e hc =>
    cases y with
    | nan | infinity negative' => cases hy
    | finite negative' m' e' hc' => exact isNaN_round ..

/-- A quotient is defined if its divisor is finite and not zero. -/
theorem isNaN_div (hx : x.isNaN = false) (hy : y.isFinite = true) (hzero : y.isZero = false) :
    (x / y).isNaN = false := by
  cases y with
  | nan | infinity negative => cases hy
  | finite negative m e hc =>
    cases x with
    | nan => cases hx
    | infinity negative' => rfl
    | finite negative' m' e' hc' =>
      have hm : m ≠ 0 := by simpa [isZero] using hzero
      show (if m = 0 then _ else round _ _).isNaN = false
      rw [if_neg hm]
      exact isNaN_round ..

/-- A quotient is defined if it is of a finite number and not by zero. -/
theorem isNaN_div_of_finite (hx : x.isFinite = true) (hy : y.isNaN = false)
    (hzero : y.isZero = false) : (x / y).isNaN = false := by
  by_cases hfinite : y.isFinite = true
  · exact isNaN_div (isNaN_of_isFinite hx) hfinite hzero
  · obtain ⟨s, rfl⟩ := exists_infinity hy hfinite
    cases x with
    | nan | infinity negative => cases hx
    | finite negative m e hc => rfl

/-- Rounding for display keeps a number a number. -/
theorem isNaN_roundForDisplay {places : Int} (hx : x.isNaN = false)
    (h : x.roundForDisplay places = .ok y) : y.isNaN = false := by
  have hplaces {z : Double} (hz : x.roundPlaces places = .ok z) : z.isNaN = false := by
    cases x with
    | nan => cases hx
    | infinity negative =>
      cases hz
      rfl
    | finite negative m e hc =>
      rw [roundPlaces] at hz
      split at hz
      · cases hz
        rfl
      · split at hz
        · cases hz
          rfl
        · simp only at hz
          split at hz
          · cases hz
            exact isNaN_ofDecimal ..
          · cases hz
  rw [roundForDisplay] at h
  cases hrounded : x.roundPlaces places with
  | error b =>
    rw [hrounded] at h
    cases h
  | ok z =>
    rw [hrounded] at h
    cases h
    exact isNaN_add_of_finite (hplaces hrounded) rfl

end Double

end Stepwise
