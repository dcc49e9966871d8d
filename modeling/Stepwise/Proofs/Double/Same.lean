/-
# Doubles up to the sign of zero

The operations on doubles do not tell the zeros apart, except in the sign of a zero that they yield.

* `Double.Same` : equal, or both zero;
* `Double.same_add`, `Double.same_mul`, `Double.same_div` : operations on what is the same;
* `Follows` : a computation that yields the same wherever another one yields a number;
* `Double.follows_power` : powers of what is the same.
-/
import Stepwise.Double.Power
import Stepwise.Proofs.Double.Rounding

namespace Stepwise

namespace Double

/-! ## The same up to the sign of zero -/

/-- The double with its sign dropped if it is zero. -/
def shown (x : Double) : Double := if x.isZero then .zero false else x

/-- Equal, or both zero. -/
def Same (x y : Double) : Prop := x = y ∨ (x.isZero = true ∧ y.isZero = true)

theorem same_zero (s t : Bool) : Same (zero s) (zero t) := .inr ⟨rfl, rfl⟩

theorem eq_zero_of_isZero {x : Double} (h : x.isZero = true) : ∃ s, x = zero s := by
  cases x with
  | nan | infinity negative => cases h
  | finite negative m e hc =>
    obtain rfl : m = 0 := by simpa [isZero] using h
    exact ⟨negative, eq_zero_of_mantissa hc⟩

theorem value_noMantissa (s : Bool) {e : Int} (h : Canonical 0 e) :
    (finite s 0 e h).value = 0 := by
  rw [value_finite]
  simp

theorem value_zero (s : Bool) : (zero s).value = 0 := value_noMantissa s _

namespace Same

variable {x y z : Double}

theorem refl (x : Double) : Same x x := .inl rfl

theorem trans (h : Same x y) (h' : Same y z) : Same x z := by
  rcases h with rfl | ⟨hx, hy⟩
  · exact h'
  · rcases h' with rfl | ⟨-, hz⟩
    · exact .inr ⟨hx, hy⟩
    · exact .inr ⟨hx, hz⟩

theorem symm (h : Same x y) : Same y x := by
  rcases h with rfl | ⟨hx, hy⟩
  · exact refl _
  · exact .inr ⟨hy, hx⟩

theorem isNaN_eq (h : Same x y) : x.isNaN = y.isNaN := by
  rcases h with rfl | ⟨hx, hy⟩
  · rfl
  · obtain ⟨s, rfl⟩ := eq_zero_of_isZero hx
    obtain ⟨t, rfl⟩ := eq_zero_of_isZero hy
    rfl

theorem isFinite_eq (h : Same x y) : x.isFinite = y.isFinite := by
  rcases h with rfl | ⟨hx, hy⟩
  · rfl
  · obtain ⟨s, rfl⟩ := eq_zero_of_isZero hx
    obtain ⟨t, rfl⟩ := eq_zero_of_isZero hy
    rfl

theorem value_eq (h : Same x y) : x.value = y.value := by
  rcases h with rfl | ⟨hx, hy⟩
  · rfl
  · obtain ⟨s, rfl⟩ := eq_zero_of_isZero hx
    obtain ⟨t, rfl⟩ := eq_zero_of_isZero hy
    rw [value_zero, value_zero]

theorem neg (h : Same x y) : Same (-x) (-y) := by
  rcases h with rfl | ⟨hx, hy⟩
  · exact refl _
  · obtain ⟨s, rfl⟩ := eq_zero_of_isZero hx
    obtain ⟨t, rfl⟩ := eq_zero_of_isZero hy
    exact same_zero _ _

/-- What is the same and a number is numerically equal. -/
theorem numericEq (h : Same x y) (hx : x.isNaN = false) : x.numericEq y = true := by
  rcases h with rfl | ⟨hx, hy⟩
  · cases x with
    | nan => cases hx
    | infinity negative | finite negative m e hc => simp [Double.numericEq]
  · obtain ⟨s, rfl⟩ := eq_zero_of_isZero hx
    obtain ⟨t, rfl⟩ := eq_zero_of_isZero hy
    change ((zero s).value == (zero t).value) = true
    simp [value_zero]

end Same

theorem same_shown (x : Double) : Same x x.shown := by
  rw [shown]
  split
  · next hzero => exact .inr ⟨hzero, rfl⟩
  · exact .refl x

/-- The sign given to a rounded number matters for zeros only. -/
theorem same_round (s t : Bool) (q : ℚ) : Same (round s q) (round t q) := by
  by_cases hq : q = 0
  · subst hq
    exact same_zero s t
  · rw [round_of_ne_zero s hq, round_of_ne_zero t hq]
    exact .refl _

/-- A function of two doubles yields the same if it does so for zeros on either side. -/
theorem same_binary {f : Double → Double → Double}
    (hleft : ∀ s t y, Same (f (zero s) y) (f (zero t) y))
    (hright : ∀ s t x, Same (f x (zero s)) (f x (zero t))) {x x' y y' : Double} (hx : Same x x')
    (hy : Same y y') : Same (f x y) (f x' y') := by
  have hfirst : Same (f x y) (f x' y) := by
    rcases hx with rfl | ⟨hx, hx'⟩
    · exact .refl _
    · obtain ⟨s, rfl⟩ := eq_zero_of_isZero hx
      obtain ⟨t, rfl⟩ := eq_zero_of_isZero hx'
      exact hleft s t y
  refine hfirst.trans ?_
  rcases hy with rfl | ⟨hy, hy'⟩
  · exact .refl _
  · obtain ⟨s, rfl⟩ := eq_zero_of_isZero hy
    obtain ⟨t, rfl⟩ := eq_zero_of_isZero hy'
    exact hright s t x'

variable {x x' y y' : Double}

theorem same_add (hx : Same x x') (hy : Same y y') : Same (x + y) (x' + y') := by
  refine same_binary (fun s t y => ?_) (fun s t x => ?_) hx hy
  · cases y with
    | nan | infinity negative => exact .refl _
    | finite negative m e hc =>
      change Same (round _ ((zero s).value + _)) (round _ ((zero t).value + _))
      rw [value_zero, value_zero]
      exact same_round _ _ _
  · cases x with
    | nan | infinity negative => exact .refl _
    | finite negative m e hc =>
      change Same (round _ (_ + (zero s).value)) (round _ (_ + (zero t).value))
      rw [value_zero, value_zero]
      exact same_round _ _ _

theorem same_sub (hx : Same x x') (hy : Same y y') : Same (x - y) (x' - y') :=
  same_add hx hy.neg

theorem same_mul (hx : Same x x') (hy : Same y y') : Same (x * y) (x' * y') := by
  refine same_binary (fun s t y => ?_) (fun s t x => ?_) hx hy
  · cases y with
    | nan | infinity negative => exact .refl _
    | finite negative m e hc =>
      change Same (round _ ((zero s).value * _)) (round _ ((zero t).value * _))
      rw [value_zero, value_zero]
      exact same_round _ _ _
  · cases x with
    | nan | infinity negative => exact .refl _
    | finite negative m e hc =>
      change Same (round _ (_ * (zero s).value)) (round _ (_ * (zero t).value))
      rw [value_zero, value_zero]
      exact same_round _ _ _

/-- Doubles that are the same divide alike by what is not zero. -/
theorem same_div (hx : Same x x') (hy : Same y y') (hzero : y.isZero = false) :
    Same (x / y) (x' / y') := by
  obtain rfl : y = y' := by
    rcases hy with h | ⟨h, -⟩
    · exact h
    · rw [hzero] at h
      cases h
  rcases hx with rfl | ⟨hx, hx'⟩
  · exact .refl _
  · obtain ⟨s, rfl⟩ := eq_zero_of_isZero hx
    obtain ⟨t, rfl⟩ := eq_zero_of_isZero hx'
    cases y with
    | nan => exact .refl _
    | infinity negative => exact same_zero _ _
    | finite negative m e hc =>
      have hm : m ≠ 0 := by simpa [isZero] using hzero
      change Same (if m = 0 then _ else round _ ((zero s).value / _))
        (if m = 0 then _ else round _ ((zero t).value / _))
      rw [if_neg hm, if_neg hm, value_zero, value_zero]
      exact same_round _ _ _

end Double

/-! ## Results up to the sign of zero -/

/-- Where the first yields a number, the second yields the same. -/
def Follows {ε δ : Type} (a : Except ε Double) (b : Except δ Double) : Prop :=
  ∀ x, a = .ok x → ∃ y, b = .ok y ∧ x.Same y

namespace Follows

variable {ε δ : Type} {a : Except ε Double}

theorem refl (a : Except ε Double) : Follows a a := fun x hx => ⟨x, hx, .refl x⟩

theorem ok {x y : Double} (h : x.Same y) :
    Follows (.ok x : Except ε Double) (.ok y : Except δ Double) := by
  rintro _ ⟨⟩
  exact ⟨y, rfl, h⟩

theorem error (f : ε) (b : Except δ Double) : Follows (.error f) b := fun _ hx => nomatch hx

end Follows

namespace Double

/-- Every number to the power of zero is one. -/
theorem power_zero (x : Double) (t : Bool) : x.power (zero t) = .ok 1 := by
  cases x <;> rfl

/-- A zero as a base counts without its sign. -/
theorem follows_power_zero (s t : Bool) (y : Double) :
    Follows ((zero s).power y) ((zero t).power y) := by
  cases y with
  | nan => cases s <;> cases t <;> exact .refl _
  | infinity negative => exact .refl _
  | finite negative m e hc =>
    change Follows (finitePower (zero s) _) (finitePower (zero t) _)
    simp only [finitePower]
    split
    · exact .refl _
    · simp only [show (zero s).isZero = true from rfl, show (zero t).isZero = true from rfl,
        if_true]
      split
      · exact .error _ _
      · split
        · refine .ok ?_
          split
          · exact same_zero s t
          · exact .refl _
        · exact .refl _

theorem follows_power {x x' y y' : Double} (hx : Same x x') (hy : Same y y') :
    Follows (x.power y) (x'.power y') := by
  rcases hy with rfl | ⟨hy, hy'⟩
  · rcases hx with rfl | ⟨hx, hx'⟩
    · exact .refl _
    · obtain ⟨s, rfl⟩ := eq_zero_of_isZero hx
      obtain ⟨t, rfl⟩ := eq_zero_of_isZero hx'
      exact follows_power_zero s t y
  · obtain ⟨s, rfl⟩ := eq_zero_of_isZero hy
    obtain ⟨t, rfl⟩ := eq_zero_of_isZero hy'
    rw [power_zero, power_zero]
    exact .refl _

end Double

end Stepwise
