/-
# Arithmetic expressions

An expression is a tree of numbers, named constants, percentages, negations, binary operators,
calls of named functions and parenthesised groups.  Groups are nodes of their own, because a
derivation shows when a pair of parentheses is resolved.
-/
import Stepwise.Double.Elementary

namespace Stepwise

/-! ## Named constants -/

/-- The constants that an expression can name. -/
inductive ConstantName where
  | pi
  | e
  deriving DecidableEq

namespace ConstantName

/-- The constant as it is written. -/
def name : ConstantName → String
  | pi => "pi"
  | e => "e"

/-- The double that a constant stands for. -/
def value : ConstantName → Double
  | pi => Double.pi
  | e => Double.euler

/-- Every constant. -/
def all : List ConstantName := [pi, e]

/-- The constant written in a given way. -/
def ofChars? (s : List Char) : Option ConstantName := all.find? fun c => c.name.toList == s

end ConstantName

/-! ## Named functions -/

/-- The functions that an expression can call. -/
inductive FunctionName where
  | sin | cos | tan | log | ln | asin | acos | atan | sinh | cosh | tanh
  | sqrt | fact | degtorad | radtodeg
  deriving DecidableEq

namespace FunctionName

/-- The function as it is written. -/
def name : FunctionName → String
  | sin => "sin"
  | cos => "cos"
  | tan => "tan"
  | log => "log"
  | ln => "ln"
  | asin => "asin"
  | acos => "acos"
  | atan => "atan"
  | sinh => "sinh"
  | cosh => "cosh"
  | tanh => "tanh"
  | sqrt => "sqrt"
  | fact => "fact"
  | degtorad => "degtorad"
  | radtodeg => "radtodeg"

/-- Every function. -/
def all : List FunctionName :=
  [sin, cos, tan, log, ln, asin, acos, atan, sinh, cosh, tanh, sqrt, fact, degtorad, radtodeg]

/-- The function written in a given way. -/
def ofChars? (s : List Char) : Option FunctionName := all.find? fun f => f.name.toList == s

end FunctionName

/-! ## Operators -/

/-- The binary operators. -/
inductive Operator where
  | add | sub | mul | div | pow
  deriving DecidableEq

namespace Operator

/-- The operator's sign. -/
def symbol : Operator → Char
  | add => '+'
  | sub => '-'
  | mul => '*'
  | div => '/'
  | pow => '^'

/-- Every operator. -/
def all : List Operator := [add, sub, mul, div, pow]

/-- The operator with a given sign. -/
def ofChar? (c : Char) : Option Operator := all.find? fun op => op.symbol == c

end Operator

/-! ## Trees -/

/-- An arithmetic expression. -/
inductive Expr where
  | literal (value : Double)
  | constant (name : ConstantName)
  | percent (value : Double)
  | negation (operand : Expr)
  | binary (op : Operator) (left right : Expr)
  | call (f : FunctionName) (argument : Expr)
  | group (inner : Expr)
  deriving DecidableEq

instance : Inhabited Expr := ⟨.literal default⟩

namespace Expr

/-- The negated expression; a negated number is a number again. -/
def negate : Expr → Expr
  | literal value => literal (-value)
  | e => negation e

/-- The expression negated `n` times. -/
def negateTimes : Nat → Expr → Expr
  | 0, e => e
  | n + 1, e => negate (negateTimes n e)

/-- A function call. -/
def isCall : Expr → Bool
  | call .. => true
  | _ => false

/-- A parenthesised group. -/
def isGroup : Expr → Bool
  | group _ => true
  | _ => false

end Expr

end Stepwise
