/-
# Derivations

A derivation reduces an expression to a number, one reduction at a time: constants and percentages
first, then calls from the right, then groups from the inside and the right, then the operators
tier by tier.  The argument of a call and the content of a group are reduced by derivations of
their own.

Reductions are kept as data, so that a value can be computed without writing text.

* `Phase.apply` : one phase of a derivation;
* `Expr.reduce` : the value of an expression with its reductions.
-/
import Stepwise.Expr.Nodes
import Stepwise.Expr.Value

namespace Stepwise

/-! ## Reductions -/

/-- What happened in one reduction. -/
inductive Reduction where
  | constants
  | percentages
  | argument (f : FunctionName) (argument : Expr)
  | call (f : FunctionName) (argument result : Double)
  | group (inner : Expr) (result : Double)
  | fold (title : String) (op : Operator) (left right result : Double)

/-- A reduction and the tree after it. -/
structure Entry where
  reduction : Reduction
  tree : Expr

/-- The working state of a derivation; after a failure it no longer changes. -/
structure Derivation where
  tree : Expr
  trace : List Entry := []
  failure : Option Failure := none

/-- A number with the reductions that led to it. -/
structure Reduced where
  value : Double
  trace : List Entry

namespace Derivation

/-- The next tree, with the reduction that led to it. -/
def record (d : Derivation) (tree : Expr) (reduction : Reduction) : Derivation :=
  { d with tree := tree, trace := d.trace ++ [⟨reduction, tree⟩] }

/-- The derivation stopped by a failure. -/
def stop (d : Derivation) (f : Failure) : Derivation := { d with failure := some f }

/-! ## Phases -/

/-- Replaces the constants by their values. -/
def evaluateConstants (d : Derivation) : Derivation :=
  if d.tree.nodes.any fun | .constant _ => true | _ => false then
    d.record (d.tree.mapLeaves (fun c => .literal c.value) .percent) .constants
  else d

/-- Replaces the percentages by groups that divide by a hundred. -/
def expandPercentages (d : Derivation) : Derivation :=
  if d.tree.nodes.any fun | .percent _ => true | _ => false then
    d.record
      (d.tree.mapLeaves .constant fun v => .group (.binary .div (.literal v) (.literal 100)))
      .percentages
  else d

/-- Replaces the calls by their results, the last one first, as long as there are any. -/
def reduceCalls (ops : Operations) (inner : Expr → Except Failure Reduced) :
    Nat → Derivation → Derivation
  | 0, d => d
  | fuel + 1, d =>
    match d.tree.lastNode? Expr.isCall with
    | some (i, .call f argument) =>
      match inner argument with
      | .error failure => d.stop failure
      | .ok reduced =>
        let d := if reduced.trace.isEmpty then d else d.record d.tree (.argument f argument)
        match ops.function f reduced.value with
        | .error failure => d.stop failure
        | .ok result =>
          reduceCalls ops inner fuel
            (d.record (d.tree.setNode i (.literal result)) (.call f reduced.value result))
    | _ => d

/-- A group that contains no other group. -/
def isInnermostGroup : Expr → Bool
  | .group inner => !inner.nodes.any Expr.isGroup
  | _ => false

/-- Replaces the groups by their values, the last innermost one first, as long as there are
any. -/
def reduceGroups (inner : Expr → Except Failure Reduced) : Nat → Derivation → Derivation
  | 0, d => d
  | fuel + 1, d =>
    match d.tree.lastNode? isInnermostGroup with
    | some (i, .group content) =>
      match inner content with
      | .error failure => d.stop failure
      | .ok reduced =>
        reduceGroups inner fuel
          (d.record (d.tree.setNode i (.literal reduced.value)) (.group content reduced.value))
    | _ => d

/-- One of the given operators between two numbers. -/
def isReducible (operators : List Operator) : Expr → Bool
  | .binary op (.literal _) (.literal _) => operators.contains op
  | _ => false

/-- Replaces the given operators between numbers by their results, the first one first, as long
as there are any. -/
def reduceOperators (ops : Operations) (operators : List Operator) (title : String) :
    Nat → Derivation → Derivation
  | 0, d => d
  | fuel + 1, d =>
    match d.tree.firstNode? (isReducible operators) with
    | some (i, .binary op (.literal left) (.literal right)) =>
      match ops.operator op left right with
      | .error failure => d.stop failure
      | .ok result =>
        reduceOperators ops operators title fuel
          (d.record (d.tree.setNode i (.literal result)) (.fold title op left right result))
    | _ => d

/-- The number that a derivation has reached; an undefined one is a failure. -/
def conclude (d : Derivation) : Except Failure Reduced :=
  match d.failure, d.tree with
  | some failure, _ => .error failure
  | none, .literal value =>
    if value.isNaN then .error .invalidExpression else .ok ⟨value, d.trace⟩
  | none, _ => .error .invalidExpression

end Derivation

/-- The phases of a derivation. -/
inductive Phase where
  | constants
  | percentages
  | calls
  | groups
  | fold (operators : List Operator) (title : String)

namespace Phase

/-- Runs a phase; `inner` reduces arguments and the contents of groups.  Every round of a phase
makes the tree smaller, so its size bounds the rounds. -/
def apply (ops : Operations) (inner : Expr → Except Failure Reduced) (d : Derivation) :
    Phase → Derivation
  | constants => if d.failure.isSome then d else d.evaluateConstants
  | percentages => if d.failure.isSome then d else d.expandPercentages
  | calls => if d.failure.isSome then d else d.reduceCalls ops inner d.tree.size
  | groups => if d.failure.isSome then d else d.reduceGroups inner d.tree.size
  | fold operators title =>
    if d.failure.isSome then d else d.reduceOperators ops operators title d.tree.size

/-- The phases in their usual order. -/
def all : List Phase :=
  [constants, percentages, calls, groups, fold [.pow] "Exponents",
    fold [.mul, .div] "Multiplication/Division", fold [.add, .sub] "Addition/Subtraction"]

/-- The phase of a given name; other names list operators to fold.  No solver asks for phases by
name: this is for programs that run them one at a time, in an order of their own. -/
def ofName (name : String) : Phase :=
  match name with
  | "constants" => constants
  | "percentages" => percentages
  | "functions" => calls
  | "groups" => groups
  | _ => fold (name.toList.filterMap Operator.ofChar?) ("Fold " ++ name)

end Phase

/-! ## Whole derivations -/

namespace Expr

/-- Reduces an expression, with derivations inside derivations up to a depth. -/
def reduceTo (ops : Operations) : Nat → Expr → Except Failure Reduced
  | 0, _ => .error .invalidExpression
  | depth + 1, e =>
    (Phase.all.foldl (Phase.apply ops (reduceTo ops depth)) { tree := e }).conclude

/-- Reduces an expression.  The call to be resolved next has no call in its argument, and the
group to be resolved next has no group inside, so three levels are enough. -/
def reduce (ops : Operations) (e : Expr) : Except Failure Reduced := reduceTo ops 3 e

end Expr

end Stepwise
