/-
# The value of an expression

The plain recursive value, for any choice of what the operators and functions compute.  A
percentage stands for a group in which its number is divided by a hundred.  An undefined number as
the value of a group, of an argument or of the whole is a failure.
-/
import Stepwise.Failure

namespace Stepwise

/-- What the operators and the functions compute. -/
structure Operations where
  operator : Operator → Double → Double → Except Failure Double
  function : FunctionName → Double → Except Failure Double

/-- The number, unless it is undefined. -/
def defined (x : Double) : Except Failure Double :=
  if x.isNaN then .error .invalidExpression else .ok x

namespace Expr

/-- The value of a subexpression. -/
def valueAux (ops : Operations) : Expr → Except Failure Double
  | literal value => .ok value
  | constant name => .ok name.value
  | percent value => do
    let x ← ops.operator .div value 100
    defined x
  | negation operand => do
    let x ← operand.valueAux ops
    pure (-x)
  | binary op left right => do
    let x ← left.valueAux ops
    let y ← right.valueAux ops
    ops.operator op x y
  | call f argument => do
    let x ← argument.valueAux ops
    let x ← defined x
    ops.function f x
  | group inner => do
    let x ← inner.valueAux ops
    defined x

/-- The value of a whole expression. -/
def value (ops : Operations) (e : Expr) : Except Failure Double := do
  let x ← e.valueAux ops
  defined x

end Expr

end Stepwise
