/-
# Nodes of an expression

The nodes of a tree in pre-order, which is the order in which their texts start.  A node is named
by its number in this order.

* `Expr.nodes` : the subtrees in pre-order;
* `Expr.setNode` : the tree with one node replaced;
* `Expr.mapLeaves` : the tree with its constants and percentages replaced.

Both ways of replacing keep the rule that a negated number is a number.
-/
import Stepwise.Expr.Basic

namespace Stepwise.Expr

/-- The subtrees in pre-order. -/
def nodes : Expr → List Expr
  | e@(literal _) => [e]
  | e@(constant _) => [e]
  | e@(percent _) => [e]
  | e@(negation operand) => e :: operand.nodes
  | e@(binary _ left right) => e :: (left.nodes ++ right.nodes)
  | e@(call _ argument) => e :: argument.nodes
  | e@(group inner) => e :: inner.nodes

/-- The number of nodes. -/
def size : Expr → Nat
  | literal _ => 1
  | constant _ => 1
  | percent _ => 1
  | negation operand => operand.size + 1
  | binary _ left right => left.size + right.size + 1
  | call _ argument => argument.size + 1
  | group inner => inner.size + 1

/-- The tree with the node of a given number replaced; a tree without that node is unchanged. -/
def setNode : Expr → Nat → Expr → Expr
  | _, 0, replacement => replacement
  | literal value, _ + 1, _ => literal value
  | constant name, _ + 1, _ => constant name
  | percent value, _ + 1, _ => percent value
  | negation operand, i + 1, replacement => negate (operand.setNode i replacement)
  | binary op left right, i + 1, replacement =>
    if i < left.size then binary op (left.setNode i replacement) right
    else binary op left (right.setNode (i - left.size) replacement)
  | call f argument, i + 1, replacement => call f (argument.setNode i replacement)
  | group inner, i + 1, replacement => group (inner.setNode i replacement)

/-- The tree with every constant and every percentage replaced. -/
def mapLeaves (onConstant : ConstantName → Expr) (onPercent : Double → Expr) : Expr → Expr
  | literal value => literal value
  | constant name => onConstant name
  | percent value => onPercent value
  | negation operand => negate (operand.mapLeaves onConstant onPercent)
  | binary op left right =>
    binary op (left.mapLeaves onConstant onPercent) (right.mapLeaves onConstant onPercent)
  | call f argument => call f (argument.mapLeaves onConstant onPercent)
  | group inner => group (inner.mapLeaves onConstant onPercent)

/-- The last position of a list at which a condition holds. -/
def lastIndex? (p : Expr → Bool) : List Expr → Option Nat
  | [] => none
  | e :: rest =>
    match lastIndex? p rest with
    | some i => some (i + 1)
    | none => if p e then some 0 else none

/-- The last node that satisfies a condition, with its number. -/
def lastNode? (p : Expr → Bool) (e : Expr) : Option (Nat × Expr) := do
  let i ← lastIndex? p e.nodes
  let node ← e.nodes[i]?
  pure (i, node)

/-- The first node that satisfies a condition, with its number. -/
def firstNode? (p : Expr → Bool) (e : Expr) : Option (Nat × Expr) := do
  let i ← e.nodes.findIdx? p
  let node ← e.nodes[i]?
  pure (i, node)

end Stepwise.Expr
