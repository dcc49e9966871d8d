/-
# Doubles up to a common sign

Opposite operands have opposite or the same results, up to the sign of zero.  A double is mirrored
by another one if the two are the same, or opposite, up to that sign; which of the two it is adds up
in products and quotients.

* `Double.neg_add_same`, `Double.neg_mul`, `Double.neg_div` : the operations on opposite operands;
* `Double.Mirrored` : the same or the opposite double, up to the sign of zero;
* `Double.Mirrored.add`, `Double.Mirrored.mul`, `Double.Mirrored.div` : operations on mirrored
  doubles;
* `Double.Mirrored.abs_eq`, `Double.Mirrored.isZero_eq` : what both have in common.
-/
import Stepwise.Failure
import Stepwise.Proofs.Double.Exact

namespace Stepwise.Double

variable {s t : Bool} {x x' y y' z : Double}

/-! ## The same doubles -/

namespace Same

theorem isZero_eq (h : Same x y) : x.isZero = y.isZero := by
  rcases h with rfl | ⟨hx, hy⟩
  · rfl
  · rw [hx, hy]

/-- Numbers for display that are the same are equal. -/
theorem eq_of_shown (h : Same x y) (hx : x.shown = x) (hy : y.shown = y) : x = y := by
  rcases h with rfl | ⟨hzero, hzero'⟩
  · rfl
  · rw [← hx, ← hy, shown, shown, if_pos hzero, if_pos hzero']

/-- What does not tell the zeros apart is the same for doubles that are. -/
theorem map_eq {α : Type} {f : Double → α} (h : Same x y) (hf : ∀ s t, f (zero s) = f (zero t)) :
    f x = f y := by
  rcases h with rfl | ⟨hx, hy⟩
  · rfl
  · obtain ⟨s, rfl⟩ := eq_zero_of_isZero hx
    obtain ⟨t, rfl⟩ := eq_zero_of_isZero hy
    exact hf s t

theorem abs_eq (h : Same x y) : x.abs = y.abs := h.map_eq fun _ _ => rfl

theorem toInt?_eq (h : Same x y) : x.toInt? = y.toInt? := by
  refine h.map_eq fun s t => ?_
  cases s <;> cases t <;> decide +kernel

theorem lt_eq (h : Same x y) (z : Double) : z.lt x = z.lt y := by
  refine h.map_eq fun s t => ?_
  cases z with
  | nan | infinity negative => rfl
  | finite negative m e hc =>
    show decide (_ < (zero s).value) = decide (_ < (zero t).value)
    rw [value_zero, value_zero]

theorem sqrt (h : Same x y) : Same x.sqrt y.sqrt := by
  rcases h with rfl | ⟨hx, hy⟩
  · exact refl _
  · obtain ⟨s, rfl⟩ := eq_zero_of_isZero hx
    obtain ⟨t, rfl⟩ := eq_zero_of_isZero hy
    exact same_zero s t

/-- Numbers that are the same are written alike. -/
theorem text_eq (h : Same x y) : x.text = y.text := by
  refine h.map_eq fun s t => ?_
  cases s <;> cases t <;> decide +kernel

end Same

/-! ## Zero as an operand -/

theorem shown_shown (x : Double) : x.shown.shown = x.shown := by
  cases h : x.isZero <;> simp [shown, h]

/-- To add zero makes a zero positive and leaves the other doubles. -/
theorem add_zero_eq_shown (x : Double) : x + 0 = x.shown := by
  cases x with
  | nan | infinity negative => rfl
  | finite negative m e hc =>
    change round (negative && false) ((finite negative m e hc).value + (zero false).value) = _
    rw [value_zero, add_zero, Bool.and_false, shown]
    split
    · next hzero =>
      rw [(value_eq_zero_iff rfl).mpr hzero]
      rfl
    · next hzero => exact round_value false rfl (by simpa using hzero)

/-- Zero leaves what is added to it. -/
theorem same_add_zero (x : Double) : Same (x + 0) x := by
  rw [add_zero_eq_shown]
  exact (same_shown x).symm

theorem same_sub_zero (x : Double) : Same (x - 0) x :=
  (same_add (.refl x) (same_zero true false)).trans (same_add_zero x)

/-! ## Opposite operands -/

theorem isZero_neg (x : Double) : (-x).isZero = x.isZero := by
  cases x <;> rfl

protected theorem abs_neg (x : Double) : (-x).abs = x.abs := by
  cases x <;> rfl

theorem toInt?_neg (x : Double) : (-x).toInt? = x.toInt?.map (- ·) := by
  cases x with
  | nan | infinity negative => rfl
  | finite negative m e hc =>
    change (if (-finite negative m e hc).value.den = 1 then some (-finite negative m e hc).value.num
      else none) = _
    rw [value_neg, Rat.neg_den, Rat.neg_num, toInt?]
    split <;> rfl

/-- The sum of opposite numbers is the opposite sum. -/
theorem neg_add_same (x y : Double) : Same (-x + -y) (-(x + y)) := by
  cases x with
  | nan => exact .refl _
  | infinity s =>
    cases y with
    | nan => exact .refl _
    | infinity t => cases s <;> cases t <;> exact .refl _
    | finite t m e hc => exact .refl _
  | finite s m e hc =>
    cases y with
    | nan | infinity t => exact .refl _
    | finite t n f hd =>
      change Same (round _ ((-finite s m e hc).value + (-finite t n f hd).value))
        (-round _ ((finite s m e hc).value + (finite t n f hd).value))
      rw [value_neg, value_neg, ← neg_add]
      by_cases hq : (finite s m e hc).value + (finite t n f hd).value = 0
      · rw [hq, neg_zero]
        exact same_zero _ _
      · rw [← round_neg hq]
        exact same_round _ _ _

protected theorem add_comm (x y : Double) : x + y = y + x := by
  cases x with
  | nan => cases y <;> rfl
  | infinity s =>
    cases y with
    | nan => rfl
    | infinity t => cases s <;> cases t <;> rfl
    | finite t m e hc => rfl
  | finite s m e hc =>
    cases y with
    | nan | infinity t => rfl
    | finite t n f hd =>
      change round (s && t) _ = round (t && s) _
      rw [Bool.and_comm, add_comm]

theorem same_zero_add (x : Double) : Same (0 + x) x := by
  rw [Double.add_comm]
  exact same_add_zero x

/-- An opposite exact number is rounded to the opposite, the sign of a zero with it. -/
theorem round_not (s : Bool) (q : ℚ) : round (!s) (-q) = -round s q := by
  by_cases hq : q = 0
  · rw [hq, neg_zero]
    rfl
  · rw [← round_neg hq, round_of_ne_zero _ (neg_ne_zero.mpr hq),
      round_of_ne_zero _ (neg_ne_zero.mpr hq)]

protected theorem neg_mul (x y : Double) : -x * y = -(x * y) := by
  cases x with
  | nan => rfl
  | infinity s =>
    cases y with
    | nan => rfl
    | infinity t => cases s <;> cases t <;> rfl
    | finite t m e hc =>
      change (if m = 0 then nan else infinity ((!s) != t)) =
        -(if m = 0 then nan else infinity (s != t))
      split <;> cases s <;> cases t <;> rfl
  | finite s m e hc =>
    cases y with
    | nan => rfl
    | infinity t =>
      change (if m = 0 then nan else infinity ((!s) != t)) =
        -(if m = 0 then nan else infinity (s != t))
      split <;> cases s <;> cases t <;> rfl
    | finite t n f hd =>
      change round ((!s) != t) ((-finite s m e hc).value * _) = -round (s != t) _
      rw [value_neg, neg_mul, ← round_not]
      congr 1
      cases s <;> cases t <;> rfl

protected theorem mul_comm (x y : Double) : x * y = y * x := by
  cases x with
  | nan => cases y <;> rfl
  | infinity s =>
    cases y with
    | nan => rfl
    | infinity t => cases s <;> cases t <;> rfl
    | finite t m e hc =>
      change (if m = 0 then nan else infinity (s != t)) = if m = 0 then nan else infinity (t != s)
      rw [bne_comm]
  | finite s m e hc =>
    cases y with
    | nan => rfl
    | infinity t =>
      change (if m = 0 then nan else infinity (s != t)) = if m = 0 then nan else infinity (t != s)
      rw [bne_comm]
    | finite t n f hd =>
      change round (s != t) _ = round (t != s) _
      rw [bne_comm, mul_comm]

protected theorem mul_neg (x y : Double) : x * -y = -(x * y) := by
  rw [Double.mul_comm, Double.neg_mul, Double.mul_comm]

protected theorem neg_div (x y : Double) : -x / y = -(x / y) := by
  cases x with
  | nan => rfl
  | infinity s =>
    cases y with
    | nan | infinity t => rfl
    | finite t m e hc => cases s <;> cases t <;> rfl
  | finite s m e hc =>
    cases y with
    | nan => rfl
    | infinity t => cases s <;> cases t <;> rfl
    | finite t n f hd =>
      change (if n = 0 then (if m = 0 then nan else infinity ((!s) != t))
          else round ((!s) != t) ((-finite s m e hc).value / _)) =
        -(if n = 0 then (if m = 0 then nan else infinity (s != t)) else round (s != t) _)
      split
      · split <;> cases s <;> cases t <;> rfl
      · rw [value_neg, neg_div, ← round_not]
        cases s <;> cases t <;> rfl

protected theorem div_neg (x y : Double) : x / -y = -(x / y) := by
  cases x with
  | nan => rfl
  | infinity s =>
    cases y with
    | nan | infinity t => rfl
    | finite t m e hc => cases s <;> cases t <;> rfl
  | finite s m e hc =>
    cases y with
    | nan => rfl
    | infinity t => cases s <;> cases t <;> rfl
    | finite t n f hd =>
      change (if n = 0 then (if m = 0 then nan else infinity (s != !t))
          else round (s != !t) (_ / (-finite t n f hd).value)) =
        -(if n = 0 then (if m = 0 then nan else infinity (s != t)) else round (s != t) _)
      split
      · split <;> cases s <;> cases t <;> rfl
      · rw [value_neg, div_neg, ← round_not]
        cases s <;> cases t <;> rfl

/-! ## Mirrored doubles -/

/-- The double, or its opposite. -/
def mirror (s : Bool) (x : Double) : Double := if s then -x else x

/-- The second double is the first one, or its opposite, up to the sign of zero. -/
def Mirrored (s : Bool) (x y : Double) : Prop := Same (mirror s x) y

theorem Same.mirror (h : Same x y) (s : Bool) : Same (mirror s x) (mirror s y) := by
  cases s with
  | false => exact h
  | true => exact h.neg

theorem mirror_mirror (s t : Bool) (x : Double) : mirror t (mirror s x) = mirror (s ^^ t) x := by
  cases s <;> cases t
  · rfl
  · rfl
  · rfl
  · exact Double.neg_neg x

theorem mirror_mul_mirror (s t : Bool) (x y : Double) :
    mirror s x * mirror t y = mirror (s ^^ t) (x * y) := by
  cases s <;> cases t
  · rfl
  · exact Double.mul_neg x y
  · exact Double.neg_mul x y
  · show -x * -y = x * y
    rw [Double.neg_mul, Double.mul_neg, Double.neg_neg]

theorem mirror_div_mirror (s t : Bool) (x y : Double) :
    mirror s x / mirror t y = mirror (s ^^ t) (x / y) := by
  cases s <;> cases t
  · rfl
  · exact Double.div_neg x y
  · exact Double.neg_div x y
  · show -x / -y = x / y
    rw [Double.neg_div, Double.div_neg, Double.neg_neg]

/-- A difference with its operands swapped. -/
theorem mirrored_sub_swap (x y : Double) : Mirrored true (x - y) (y - x) := by
  have h : Same (-x + -(-y)) (-(x + -y)) := neg_add_same x (-y)
  rw [Double.neg_neg, Double.add_comm] at h
  exact h.symm

namespace Mirrored

theorem refl (x : Double) : Mirrored false x x := Same.refl x

theorem trans (h : Mirrored s x y) (h' : Mirrored t y z) : Mirrored (s ^^ t) x z := by
  rw [Mirrored, ← mirror_mirror]
  exact (h.mirror t).trans h'

theorem neg (h : Mirrored s x y) : Mirrored s (-x) (-y) := by
  cases s <;> exact Same.neg h

theorem add (h : Mirrored s x x') (h' : Mirrored s y y') : Mirrored s (x + y) (x' + y') := by
  refine Same.trans ?_ (same_add h h')
  cases s with
  | false => exact .refl _
  | true => exact (neg_add_same x y).symm

theorem sub (h : Mirrored s x x') (h' : Mirrored s y y') : Mirrored s (x - y) (x' - y') :=
  h.add h'.neg

theorem mul (h : Mirrored s x x') (h' : Mirrored t y y') :
    Mirrored (s ^^ t) (x * y) (x' * y') := by
  rw [Mirrored, ← mirror_mul_mirror]
  exact same_mul h h'

/-- The signs of two factors cancel. -/
theorem mul_same (h : Mirrored s x x') (h' : Mirrored s y y') : Same (x * y) (x' * y') := by
  have hmul := h.mul h'
  rwa [Bool.xor_self] at hmul

theorem const_mul (h : Mirrored s x x') (y : Double) : Mirrored s (y * x) (y * x') := by
  have hmul := (refl y).mul h
  rwa [Bool.false_xor] at hmul

theorem mul_const (h : Mirrored s x x') (y : Double) : Mirrored s (x * y) (x' * y) := by
  have hmul := h.mul (refl y)
  rwa [Bool.xor_false] at hmul

theorem isZero_eq (h : Mirrored s x y) : x.isZero = y.isZero := by
  rw [← Same.isZero_eq h]
  cases s with
  | false => rfl
  | true => exact (isZero_neg x).symm

theorem abs_eq (h : Mirrored s x y) : x.abs = y.abs := by
  rw [← Same.abs_eq h]
  cases s with
  | false => rfl
  | true => exact (Double.abs_neg x).symm

theorem toInt?_eq (h : Mirrored s x y) :
    y.toInt? = x.toInt?.map fun n => if s then -n else n := by
  rw [← Same.toInt?_eq h]
  cases s with
  | false => exact Option.map_id'.symm
  | true => exact toInt?_neg x

/-- Quotients of mirrored doubles, unless the divisor is zero. -/
theorem div (h : Mirrored s x x') (h' : Mirrored t y y') (hzero : y.isZero = false) :
    Mirrored (s ^^ t) (x / y) (x' / y') := by
  rw [Mirrored, ← mirror_div_mirror]
  refine same_div h h' ?_
  rw [Same.isZero_eq h', ← h'.isZero_eq, hzero]

/-- The signs of dividend and divisor cancel. -/
theorem div_same (h : Mirrored s x x') (h' : Mirrored s y y') (hzero : y.isZero = false) :
    Same (x / y) (x' / y') := by
  have hdiv := h.div h' hzero
  rwa [Bool.xor_self] at hdiv

end Mirrored

end Stepwise.Double
