/-
# Zeros with and without a sign

Negative zeros are shown without their sign, and so are read as positive ones.  The value of an
expression does not depend on it, except in the sign of a zero.

* `Operations.IgnoresSigns` : operations that yield the same for the same;
* `standardOperations_ignoresSigns` : those on doubles do;
* `Expr.follows_value` : an expression has the same value after its zeros are made positive.
-/
import Stepwise.Expr.Operations
import Stepwise.Proofs.Derivation.Value
import Stepwise.Proofs.Expr.Text

namespace Stepwise

/-! ## Operators -/

/-- Operators and functions tell the zeros apart in the sign of a zero at most. -/
structure Operations.IgnoresSigns (ops : Operations) : Prop where
  operator : ∀ (op : Operator) {x x' y y' : Double}, x.Same x' → y.Same y' →
    Follows (ops.operator op x y) (ops.operator op x' y')
  function : ∀ (f : FunctionName) {x x' : Double}, x.Same x' →
    Follows (ops.function f x) (ops.function f x')

/-- The operators on doubles tell the zeros apart in the sign of a zero at most. -/
theorem Operator.follows_apply (op : Operator) {x x' y y' : Double} (hx : x.Same x')
    (hy : y.Same y') : Follows (op.apply x y) (op.apply x' y') := by
  cases op with
  | add => exact .ok (Double.same_add hx hy)
  | sub => exact .ok (Double.same_sub hx hy)
  | mul => exact .ok (Double.same_mul hx hy)
  | div =>
    rw [apply, apply]
    cases hzero : y.isZero with
    | true => exact .error _ _
    | false =>
      have hzero' : y'.isZero = false := by
        rcases hy with rfl | ⟨h, -⟩
        · exact hzero
        · rw [hzero] at h
          cases h
      rw [hzero']
      exact .ok (Double.same_div hx hy hzero)
  | pow =>
    intro z hz
    rw [apply] at hz ⊢
    cases hpower : x.power y with
    | error fault =>
      rw [hpower] at hz
      cases hz
    | ok w =>
      obtain ⟨w', hw', hsame⟩ := Double.follows_power hx hy w hpower
      rw [hpower] at hz
      cases hz
      rw [hw']
      exact ⟨w', rfl, hsame⟩

/-! ## Functions of zero -/

namespace Double

theorem zero_lt_zero (s : Bool) : (zero s).lt 0 = false := by
  cases s <;> decide +kernel

theorem isNonPositive_zero (s : Bool) : (zero s).isNonPositive = true := by
  cases s <;> decide +kernel

theorem cos?_zero (s t : Bool) : (zero s).cos? = (zero t).cos? := by
  simp only [zero, cos?, value_noMantissa]

theorem acos?_zero (s t : Bool) : (zero s).acos? = (zero t).acos? := by
  simp only [zero, acos?, abs, value_noMantissa]

theorem cosh?_zero (s t : Bool) : (zero s).cosh? = (zero t).cosh? := by
  simp only [zero, cosh?, abs, value_noMantissa]

end Double

theorem factorial_zero (limit : Int) (s t : Bool) :
    factorial limit (.zero s) = factorial limit (.zero t) := by
  rw [factorial, factorial, Double.zero_lt_zero, Double.zero_lt_zero]
  simp only [Double.exceeds, Double.zero, Double.toInt?, Double.value_noMantissa]

namespace FunctionName

variable {f : FunctionName} {x y : Double}

/-- A function that has the same value, or none, at two numbers. -/
theorem follows_orUndefined {a b : Option Double} (h : a = b) :
    Follows (f.orUndefined x a) (f.orUndefined y b) := by
  subst h
  cases a with
  | none => exact .error _ _
  | some z => exact .ok (.refl z)

/-- The functions of a zero yield a zero or do not depend on its sign. -/
theorem follows_apply_zero (limit : Int) (f : FunctionName) (s t : Bool) :
    Follows (f.apply limit (.zero s)) (f.apply limit (.zero t)) := by
  cases f with
  | sin | tan | asin | sinh | atan | tanh => exact .ok (Double.same_zero s t)
  | cos =>
    rw [apply, apply]
    exact follows_orUndefined (Double.cos?_zero s t)
  | acos =>
    rw [apply, apply]
    exact follows_orUndefined (Double.acos?_zero s t)
  | cosh =>
    rw [apply, apply]
    exact follows_orUndefined (Double.cosh?_zero s t)
  | log | ln =>
    rw [apply, Double.isNonPositive_zero]
    exact .error _ _
  | sqrt =>
    rw [apply, apply, Double.zero_lt_zero, Double.zero_lt_zero]
    exact .ok (Double.same_zero s t)
  | fact =>
    rw [apply, apply, factorial_zero limit s t]
    split
    · exact .refl _
    · exact .refl _
    · exact .error _ _
  | degtorad | radtodeg => exact .ok (Double.same_mul (Double.same_zero s t) (.refl _))

theorem follows_apply (limit : Int) (f : FunctionName) (h : x.Same y) :
    Follows (f.apply limit x) (f.apply limit y) := by
  rcases h with rfl | ⟨hx, hy⟩
  · exact .refl _
  · obtain ⟨s, rfl⟩ := Double.eq_zero_of_isZero hx
    obtain ⟨t, rfl⟩ := Double.eq_zero_of_isZero hy
    exact follows_apply_zero limit f s t

end FunctionName

/-- **The operations on doubles tell the zeros apart in the sign of a zero at most.** -/
theorem standardOperations_ignoresSigns (limit : Int) :
    (standardOperations limit).IgnoresSigns where
  operator := fun op _ _ _ _ hx hy => op.follows_apply hx hy
  function := fun f _ _ h => f.follows_apply limit h

/-! ## Values of expressions -/

variable {ops : Operations}

namespace Follows

/-- Computations that go on alike from the same numbers. -/
theorem bind {a b : Except Failure Double} (h : Follows a b) {f g : Double → Except Failure Double}
    (hfg : ∀ {x y : Double}, x.Same y → Follows (f x) (g y)) : Follows (a >>= f) (b >>= g) := by
  intro z hz
  obtain ⟨x, hx, hfx⟩ := bind_eq_ok.mp hz
  obtain ⟨y, hy, hsame⟩ := h x hx
  obtain ⟨w, hw, hsame'⟩ := hfg hsame z hfx
  exact ⟨w, bind_eq_ok.mpr ⟨y, hy, hw⟩, hsame'⟩

theorem defined {x y : Double} (h : x.Same y) : Follows (defined x) (defined y) := by
  rw [Stepwise.defined, Stepwise.defined, h.isNaN_eq]
  split
  · exact .error _ _
  · exact .ok h

end Follows

namespace Expr

/-- An expression with its negative zeros positive has the same value. -/
theorem follows_valueAux (hops : ops.IgnoresSigns) (e : Expr) :
    Follows (e.valueAux ops) (e.shown.valueAux ops) := by
  induction e with
  | literal value => exact .ok (Double.same_shown value)
  | constant name => exact .refl _
  | percent value =>
    exact (hops.operator .div (Double.same_shown value) (.refl _)).bind .defined
  | negation operand ih => exact ih.bind fun h => .ok h.neg
  | binary op left right ihLeft ihRight =>
    exact ihLeft.bind fun hx => ihRight.bind fun hy => hops.operator op hx hy
  | call f argument ih => exact ih.bind fun hx => (Follows.defined hx).bind (hops.function f)
  | group inner ih => exact ih.bind .defined

theorem follows_value (hops : ops.IgnoresSigns) (e : Expr) :
    Follows (e.value ops) (e.shown.value ops) := (follows_valueAux hops e).bind .defined

end Expr

end Stepwise
