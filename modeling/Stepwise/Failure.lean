/-
# Failures

Why a problem is refused.  Each cause is a constructor; its class, its code and its wording are
functions of it.

A `Breakdown` is different: it is an arithmetical accident that a solver does not foresee.  Whole
problems never end in one, since the dispatcher turns every breakdown into
`Failure.unsolvable`.
-/
import Stepwise.Decimal.Layout
import Stepwise.Expr.Basic

namespace Stepwise

/-- The number as it is shown to the user. -/
def Double.text (x : Double) : String := String.ofList x.display

/-! ## Foreseen failures -/

/-- The causes for which a problem is refused. -/
inductive Failure where
  /-- The input has more characters than `limit`. -/
  | tooLong (limit : Int)
  /-- The input has nothing but white space. -/
  | emptyInput
  /-- The parenthesis at a position has no partner. -/
  | unmatchedAt (position : Nat)
  /-- An equation has to have one equals sign; the wording is the solver's. -/
  | notOneEquals (wording : String)
  /-- A group is not closed, or closed without having been opened. -/
  | unmatchedParenthesis
  /-- The argument of a call is not closed. -/
  | unmatchedInCall (f : FunctionName)
  /-- A function's name stands without an argument. -/
  | malformedCall (f : FunctionName)
  /-- The text is not a derivative. -/
  | notDerivative
  /-- The text is not an integral. -/
  | notIntegral
  /-- The text is not an integral with bounds. -/
  | notDefiniteIntegral
  /-- The text is not an expression, or it has no value. -/
  | invalidExpression
  /-- A name is neither a function nor a constant. -/
  | unknownName (name : List Char)
  /-- No candidate is a root of a cubic equation. -/
  | noRationalRoot
  /-- The accepted root does not divide the cubic polynomial. -/
  | remainderLeft
  /-- A bound of an integral is not finite. -/
  | invalidBounds
  /-- The approximated integral is not finite. -/
  | nonFiniteIntegral
  /-- A solver broke down. -/
  | unsolvable
  /-- The factorial of a negative number. -/
  | factorialOfNegative
  /-- The factorial of a number above `limit`. -/
  | factorialTooLarge (limit : Int)
  /-- The factorial of a fraction. -/
  | factorialOfFraction
  /-- The decimal logarithm of a number that is not positive. -/
  | logOfNonPositive
  /-- The natural logarithm of a number that is not positive. -/
  | lnOfNonPositive
  /-- The square root of a negative number. -/
  | sqrtOfNegative
  /-- A function without a real value at its argument, or with one too large. -/
  | undefinedCall (f : FunctionName) (argument : Double)
  /-- A power that is not real, or too large. -/
  | undefinedPower (base exponent : Double)
  /-- A division by zero in an expression. -/
  | divisionByZero

namespace Failure

/-- The classes of failures. -/
inductive Kind where
  | validation
  | parse
  | solver
  | domain
  deriving DecidableEq

/-- The class of a failure. -/
def kind : Failure → Kind
  | tooLong _ | emptyInput | unmatchedAt _ | notOneEquals _ | unmatchedParenthesis
  | unmatchedInCall _ | malformedCall _ | notDerivative | notIntegral | notDefiniteIntegral =>
    .validation
  | invalidExpression | unknownName _ => .parse
  | noRationalRoot | remainderLeft | invalidBounds | nonFiniteIntegral | unsolvable => .solver
  | factorialOfNegative | factorialTooLarge _ | factorialOfFraction | logOfNonPositive
  | lnOfNonPositive | sqrtOfNegative | undefinedCall .. | undefinedPower .. | divisionByZero =>
    .domain

/-- The code of a failure, stable under changes of wording. -/
def code : Failure → String
  | tooLong _ => "TOO_LONG"
  | emptyInput => "EMPTY_INPUT"
  | unmatchedAt _ | unmatchedParenthesis | unmatchedInCall _ => "MISMATCHED_PARENS"
  | notOneEquals _ => "INVALID_EQUATION"
  | malformedCall _ | notDerivative | notIntegral | notDefiniteIntegral => "INVALID_FORMAT"
  | invalidExpression | unknownName _ => "PARSE_ERROR"
  | noRationalRoot => "NO_RATIONAL_ROOT"
  | remainderLeft => "INTERNAL_ERROR"
  | invalidBounds => "INVALID_BOUNDS"
  | nonFiniteIntegral => "NON_FINITE_RESULT"
  | unsolvable => "OFFLINE_UNSOLVABLE"
  | divisionByZero => "DIVISION_BY_ZERO"
  | factorialOfNegative | factorialTooLarge _ | factorialOfFraction | logOfNonPositive
  | lnOfNonPositive | sqrtOfNegative | undefinedCall .. | undefinedPower .. => "DOMAIN_ERROR"

/-- The wording of a failure. -/
def message : Failure → String
  | tooLong limit => s!"Input too long (max {limit} characters)"
  | emptyInput => "Empty input. Please enter a problem to solve."
  | unmatchedAt position => s!"Mismatched parentheses at position {position}."
  | notOneEquals wording => wording
  | unmatchedParenthesis => "Mismatched parentheses."
  | unmatchedInCall f => s!"Mismatched parentheses for function {f.name}."
  | malformedCall f => s!"Malformed call to function {f.name}: expected '('."
  | notDerivative => "Invalid derivative format. Use d/dx(...)"
  | notIntegral => "Invalid integral format. Use integrate(...)"
  | notDefiniteIntegral =>
    "Invalid definite integral format. Use integrate(expression, from, to)"
  | invalidExpression => "Invalid arithmetic expression."
  | unknownName name => s!"Unknown name '{String.ofList name}' in expression."
  | noRationalRoot =>
    "Could not find a rational root for this equation using the offline solver."
  | remainderLeft =>
    "Synthetic division resulted in a non-zero remainder. Calculation error."
  | invalidBounds => "Invalid integral bounds."
  | nonFiniteIntegral =>
    "Could not compute the integral. The expression may be invalid for the given range."
  | unsolvable => "The expression could not be solved by the offline engine."
  | factorialOfNegative => "Factorial is not defined for negative numbers."
  | factorialTooLarge limit =>
    s!"Factorial of numbers > {limit} is too large to calculate."
  | factorialOfFraction => "Factorial is only defined for whole numbers."
  | logOfNonPositive => "Logarithm of a non-positive number is undefined."
  | lnOfNonPositive => "Natural log of a non-positive number is undefined."
  | sqrtOfNegative => "Square root of a negative number is not a real number."
  | undefinedCall f argument =>
    s!"{f.name}({argument.text}) is undefined over the real numbers."
  | undefinedPower base exponent =>
    s!"{base.text} ^ {exponent.text} is undefined over the real numbers."
  | divisionByZero => "Division by zero is not allowed."

end Failure

/-! ## Breakdowns -/

/-- The arithmetical accidents inside a solver. -/
inductive Breakdown where
  /-- A division by zero outside of expressions. -/
  | zeroDivision
  /-- A power, a quotient of integers or a rounded number is too large. -/
  | overflow
  /-- A text that is no number, a format that does not exist or a negative count. -/
  | badValue
  /-- A root was asked for where there is none. -/
  | noRoots
  /-- Roots cannot be approximated from coefficients that are not finite. -/
  | nonFiniteCoefficient
  /-- The approximation of roots did not settle. -/
  | noConvergence
  deriving DecidableEq

/-- What can end a solver: a foreseen failure or a breakdown. -/
inductive Fault where
  | failure (f : Failure)
  | breakdown (b : Breakdown)

instance : Coe Failure Fault := ⟨.failure⟩

instance : Coe Breakdown Fault := ⟨.breakdown⟩

/-- A result in which only foreseen failures occur, among those with breakdowns. -/
def liftFailure {α : Type} : Except Failure α → Except Fault α
  | .ok a => .ok a
  | .error f => .error (.failure f)

/-- A result in which only breakdowns occur, among those with foreseen failures. -/
def liftBreakdown {α : Type} : Except Breakdown α → Except Fault α
  | .ok a => .ok a
  | .error b => .error (.breakdown b)

end Stepwise
