/-
# What operators and functions compute

The operators and functions of expressions over doubles, with their domains: a division by zero, a
power without a real value and a function outside its domain are failures.
-/
import Stepwise.Double.Power
import Stepwise.Expr.Value

namespace Stepwise

/-! ## Operators -/

/-- Applies an operator. -/
def Operator.apply (op : Operator) (left right : Double) : Except Failure Double :=
  match op with
  | .add => .ok (left + right)
  | .sub => .ok (left - right)
  | .mul => .ok (left * right)
  | .div => if right.isZero then .error .divisionByZero else .ok (left / right)
  | .pow =>
    match left.power right with
    | .ok x => .ok x
    | .error _ => .error (.undefinedPower left right)

/-! ## Factorial -/

/-- The product of the natural numbers up to `n`. -/
def natFactorial : Nat → Nat
  | 0 => 1
  | n + 1 => (n + 1) * natFactorial n

/-- The largest natural number whose factorial is a finite double. -/
def lastFiniteFactorial : Nat := 170

/-- The number is greater than an integer; an undefined number is not. -/
def Double.exceeds (x : Double) (limit : Int) : Bool :=
  match x with
  | .nan => false
  | .infinity negative => !negative
  | .finite .. => decide (mkRat limit 1 < x.value)

/-- The factorial of a whole number from zero to `limit`. -/
def factorial (limit : Int) (x : Double) : Except Fault Double :=
  if x.lt 0 then .error (Failure.factorialOfNegative : Fault)
  else if x.exceeds limit then .error (Failure.factorialTooLarge limit : Fault)
  else
    match x.toInt? with
    | none => .error (Failure.factorialOfFraction : Fault)
    | some n =>
      if n.toNat ≤ lastFiniteFactorial then .ok (Double.ofNat (natFactorial n.toNat))
      else .error (Breakdown.overflow : Fault)

/-! ## Functions -/

/-- The number is zero or negative; an undefined number is not. -/
def Double.isNonPositive (x : Double) : Bool := x.le 0

namespace FunctionName

/-- One degree in radians. -/
def degree : Double := Double.pi / 180

/-- One radian in degrees. -/
def radian : Double := 180 / Double.pi

/-- The value where a function has one. -/
def orUndefined (f : FunctionName) (x : Double) : Option Double → Except Failure Double
  | some y => .ok y
  | none => .error (.undefinedCall f x)

/-- Applies a function; `limit` bounds the factorial. -/
def apply (limit : Int) (f : FunctionName) (x : Double) : Except Failure Double :=
  match f with
  | sin => f.orUndefined x x.sin?
  | cos => f.orUndefined x x.cos?
  | tan => f.orUndefined x x.tan?
  | asin => f.orUndefined x x.asin?
  | acos => f.orUndefined x x.acos?
  | atan => .ok x.atan
  | sinh => f.orUndefined x x.sinh?
  | cosh => f.orUndefined x x.cosh?
  | tanh => .ok x.tanh
  | log => if x.isNonPositive then .error .logOfNonPositive else .ok x.log10
  | ln => if x.isNonPositive then .error .lnOfNonPositive else .ok x.ln
  | sqrt => if x.lt 0 then .error .sqrtOfNegative else .ok x.sqrt
  | fact =>
    match factorial limit x with
    | .ok y => .ok y
    | .error (.failure g) => .error g
    | .error (.breakdown _) => .error (.undefinedCall f x)
  | degtorad => .ok (x * degree)
  | radtodeg => .ok (x * radian)

/-- The rule that a call goes by. -/
def rule : FunctionName → String
  | sin => "Sine Function"
  | cos => "Cosine Function"
  | tan => "Tangent Function"
  | asin => "Arcsine"
  | acos => "Arccosine"
  | atan => "Arctangent"
  | sinh => "Hyperbolic Sine"
  | cosh => "Hyperbolic Cosine"
  | tanh => "Hyperbolic Tangent"
  | log => "Logarithm (Base 10)"
  | ln => "Natural Logarithm"
  | sqrt => "Square Root"
  | fact => "Factorial"
  | degtorad => "Degrees to Radians"
  | radtodeg => "Radians to Degrees"

/-- What is done to the argument. -/
def deed : FunctionName → String
  | sin => "Calculate the sine (in radians)"
  | cos => "Calculate the cosine (in radians)"
  | tan => "Calculate the tangent (in radians)"
  | asin => "Calculate the arcsine"
  | acos => "Calculate the arccosine"
  | atan => "Calculate the arctangent"
  | sinh => "Calculate the hyperbolic sine"
  | cosh => "Calculate the hyperbolic cosine"
  | tanh => "Calculate the hyperbolic tangent"
  | log => "Calculate the base-10 logarithm"
  | ln => "Calculate the natural logarithm"
  | sqrt => "Calculate the square root"
  | fact => "Calculate the factorial"
  | degtorad => "Convert degrees to radians"
  | radtodeg => "Convert radians to degrees"

/-- The explanation of a call with its argument and its result. -/
def explain (f : FunctionName) (x result : Double) : String :=
  let rounded := String.ofList (result.general 8)
  match f with
  | degtorad =>
    s!"{f.deed}: ${x.text}^\\circ \\times \\frac\x7b\\pi\x7d\x7b180\x7d = " ++
      s!"{rounded} \\text\x7b rad\x7d$"
  | radtodeg =>
    s!"{f.deed}: ${x.text} \\text\x7b rad\x7d \\times \\frac\x7b180\x7d\x7b\\pi\x7d = " ++
      s!"{rounded}^\\circ$"
  | fact => s!"{f.deed}: $fact({x.text}) = {result.text}$"
  | _ => s!"{f.deed}: ${f.name}({x.text}) = {rounded}$"

end FunctionName

/-- The operations over doubles; `limit` bounds the factorial. -/
def standardOperations (limit : Int) : Operations := ⟨Operator.apply, FunctionName.apply limit⟩

end Stepwise
