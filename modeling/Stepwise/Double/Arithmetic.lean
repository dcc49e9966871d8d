/-
# Arithmetic of doubles

Sum, difference, product, quotient and square root, each rounded once from the exact result.
Infinities and signed zeros follow the usual rules: opposite infinities have no sum, zero times
infinity and zero over zero are undefined, and a product or quotient carries the combined sign.
-/
import Stepwise.Double.Rounding

namespace Stepwise.Double

/-! ## The four operations -/

/-- The rounded sum; an exact zero is negative only if both operands are. -/
def add : Double → Double → Double
  | .nan, _ => .nan
  | _, .nan => .nan
  | .infinity s, .infinity t => if s = t then .infinity s else .nan
  | .infinity s, .finite .. => .infinity s
  | .finite .., .infinity t => .infinity t
  | x@(.finite s _ _ _), y@(.finite t _ _ _) => round (s && t) (x.value + y.value)

instance : Add Double := ⟨add⟩

/-- The sum with the negated second operand. -/
def sub (x y : Double) : Double := x + (-y)

instance : Sub Double := ⟨sub⟩

/-- The rounded product; its sign is negative when the operands' signs differ. -/
def mul : Double → Double → Double
  | .nan, _ => .nan
  | _, .nan => .nan
  | .infinity s, .infinity t => .infinity (s != t)
  | .infinity s, .finite t m _ _ => if m = 0 then .nan else .infinity (s != t)
  | .finite s m _ _, .infinity t => if m = 0 then .nan else .infinity (s != t)
  | x@(.finite s _ _ _), y@(.finite t _ _ _) => round (s != t) (x.value * y.value)

instance : Mul Double := ⟨mul⟩

/-- The rounded quotient; a nonzero number over zero is infinite, zero over zero undefined. -/
def div : Double → Double → Double
  | .nan, _ => .nan
  | _, .nan => .nan
  | .infinity _, .infinity _ => .nan
  | .infinity s, .finite t _ _ _ => .infinity (s != t)
  | .finite s _ _ _, .infinity t => zero (s != t)
  | x@(.finite s m _ _), y@(.finite t n _ _) =>
    if n = 0 then (if m = 0 then .nan else .infinity (s != t))
    else round (s != t) (x.value / y.value)

instance : Div Double := ⟨div⟩

/-! ## Square root -/

/-- One round of the digit-by-digit square root: `root` grows by the bit `2 ^ bit` if its square
stays within `n`. -/
def sqrtBits (n : Nat) : Nat → Nat → Nat
  | 0, root => root
  | bit + 1, root =>
    let next := root + twoTo bit
    sqrtBits n bit (if next * next ≤ n then next else root)

/-- The integer part of the square root. -/
def natSqrt (n : Nat) : Nat := sqrtBits n (n.log2 / 2 + 1) 0

/-- The nearest double to the square root of a positive quotient `n / d`: the integer part of the
root of a scaled quotient, with a last bit that tells whether the root was exact. -/
def sqrtQuotient (n d : Nat) : Double :=
  let half : Int := (floorLog2 n d) / 2 - 60
  let shifted := shiftQuotient n d (-(2 * half))
  let q := shifted.1 / shifted.2
  let root := natSqrt q
  let sticky := if root * root = q ∧ shifted.1 % shifted.2 = 0 then 0 else 1
  let scaled := shiftQuotient (2 * root + sticky) 2 half
  roundQuotient false scaled.1 scaled.2

/-- The rounded square root; negative numbers have none, and `-0` is its own root. -/
def sqrt : Double → Double
  | .nan => .nan
  | .infinity negative => if negative then .nan else .infinity false
  | x@(.finite negative m _ _) =>
    if m = 0 then x
    else if negative then .nan
    else sqrtQuotient x.value.num.natAbs x.value.den

end Stepwise.Double
