/-
# Problem texts

How raw input becomes a problem: it is trimmed and lower-cased, a request to find roots becomes an
equation, and its surface tells which kind of problem it is.
-/
import Stepwise.Analysis.Call
import Stepwise.Failure
import Stepwise.Settings
import Stepwise.Text.Lowercase

namespace Stepwise.Problem

/-! ## Normal form -/

/-- The text trimmed and in lower case. -/
def normalize (s : List Char) : List Char := Text.lower (Text.trim s)

/-- The normal form of raw input, which must not be empty or too long. -/
def accept (settings : Settings) (s : List Char) : Except Failure (List Char) :=
  if settings.maxInputLength < s.length then .error (.tooLong settings.maxInputLength)
  else
    let normal := normalize s
    if normal.isEmpty then .error .emptyInput else .ok normal

/-! ## Requests to find roots -/

/-- What a request to find roots ends in. -/
def rootsSuffix : List Char := ", find roots".toList

/-- What an equation may begin with: the name of a function of `x`. -/
def functionName : List Char := ['f', '(', 'x', ')']

/-- The text without the first occurrence of `f(x) =`, with any white space before the equals
sign. -/
def dropFunctionName : List Char → List Char
  | [] => []
  | c :: s =>
    let rest := Text.trimStart ((c :: s).drop functionName.length)
    if functionName.isPrefixOf (c :: s) && rest.head? == some '=' then rest.drop 1
    else c :: dropFunctionName s

/-- Turns `f(x) = …, find roots` into `… = 0`; other text is unchanged. -/
def asEquation (s : List Char) : List Char :=
  if Text.contains rootsSuffix s then
    Text.trim (Text.replaceAll rootsSuffix " = 0".toList (dropFunctionName s))
  else s

/-! ## Kinds of problems -/

/-- The kinds of problems, one for each solver. -/
inductive Kind where
  | definiteIntegral
  | indefiniteIntegral
  | derivative
  | cubic
  | quadratic
  | linear
  | arithmetic
  deriving DecidableEq

namespace Kind

/-- The name of a kind. -/
def name : Kind → String
  | definiteIntegral => "definite_integral"
  | indefiniteIntegral => "indefinite_integral"
  | derivative => "derivative"
  | cubic => "cubic"
  | quadratic => "quadratic"
  | linear => "linear"
  | arithmetic => "arithmetic"

end Kind

/-- The text has an equals sign and a given piece. -/
def isEquationWith (piece s : List Char) : Bool := Text.contains piece s && s.contains '='

/-- The kind of a problem.  An integral with bounds comes before one without, because both begin in
the same way, and higher powers come before lower ones. -/
def classify (s : List Char) : Kind :=
  if (Call.definiteIntegral? s).isSome then .definiteIntegral
  else if (Call.integral? s).isSome then .indefiniteIntegral
  else if (Call.derivative? s).isSome then .derivative
  else if isEquationWith ['x', '^', '3'] s then .cubic
  else if isEquationWith ['x', '^', '2'] s then .quadratic
  else if isEquationWith ['x'] s then .linear
  else .arithmetic

/-- A character that plain problems are written in. -/
def isPlain (c : Char) : Bool :=
  c.isLower || c.isDigit || Text.isBlank c || "+-*/().^=,".toList.contains c

/-- Whether a problem looks like one that can be solved here.  Nothing is promised. -/
def looksSolvable (s : List Char) : Bool :=
  let normal := normalize s
  !normal.isEmpty &&
    (Text.contains ['x', '^', '3'] normal
      || (Call.definiteIntegral? normal).isSome
      || (Call.integral? normal).isSome
      || (Call.derivative? normal).isSome
      || normal.all isPlain)

end Stepwise.Problem
