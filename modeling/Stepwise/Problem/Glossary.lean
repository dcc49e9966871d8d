/-
# Glossary of symbols

The operators and functions that occur in a problem, in the order of the glossary.
-/
import Stepwise.Answer
import Stepwise.Text.Basic
import Stepwise.Text.Lowercase

namespace Stepwise.Glossary

/-- The piece of text that stands for a derivative. -/
def derivativeToken : String := "d/dx"

/-- The piece of text that stands for a division. -/
def divisionToken : String := "/"

/-- The pieces of text that are explained, with their explanations. -/
def entries : List (String × GlossaryEntry) := [
  (derivativeToken, ⟨"d/dx", "Derivative",
    "Represents the rate of change of a function with respect to the variable x."⟩),
  ("integrate", ⟨"∫", "Integral",
    "Represents the area under a curve, or the antiderivative of a function."⟩),
  ("sqrt", ⟨"\\sqrt\x7bx\x7d", "Square Root",
    "Finds a number that, when multiplied by itself, equals x."⟩),
  ("=", ⟨"=", "Equals", "Represents equality between two expressions."⟩),
  ("^", ⟨"a^b", "Exponentiation", "Raises a base (a) to the power of an exponent (b)."⟩),
  ("+", ⟨"+", "Addition", "Adds two numbers or expressions."⟩),
  ("-", ⟨"-", "Subtraction", "Subtracts one number or expression from another."⟩),
  ("*", ⟨"*", "Multiplication", "Multiplies two numbers or expressions."⟩),
  (divisionToken, ⟨"/", "Division", "Divides one number or expression by another."⟩)]

/-- The entries whose text occurs in a problem.  Beside a derivative a slash is no division. -/
def ofProblem (problem : List Char) : List GlossaryEntry :=
  let text := Text.lower problem
  let occurs (token : String) : Bool := Text.contains token.toList text
  (entries.filter fun entry =>
    occurs entry.1 && !(entry.1 == divisionToken && occurs derivativeToken)).map Prod.snd

end Stepwise.Glossary
