/-
# Text of expressions

The text of an expression.  Binary operators stand between blanks, and the only parentheses are
those of groups and calls, so that the text of a read expression can be read again.
-/
import Stepwise.Decimal.Layout
import Stepwise.Expr.Basic

namespace Stepwise.Expr

/-- The characters of an expression. -/
def chars : Expr → List Char
  | literal value => value.display
  | constant name => name.name.toList
  | percent value => value.display ++ ['%']
  | negation operand => '-' :: operand.chars
  | binary op left right => left.chars ++ ' ' :: op.symbol :: ' ' :: right.chars
  | call f argument => f.name.toList ++ '(' :: argument.chars ++ [')']
  | group inner => '(' :: inner.chars ++ [')']

/-- The text of an expression. -/
def text (e : Expr) : String := String.ofList e.chars

end Stepwise.Expr
