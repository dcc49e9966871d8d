/-
# Reading polynomials

A polynomial text is cut into terms at its signs.  There are two readers.  `Polynomial.readTerms`
reads coefficients and powers of any size in their order.  `Coefficients.read` adds the terms up to
the third power into four coefficients.

Both are lenient: of each number they read as much as makes sense and skip the rest.
-/
import Stepwise.Decimal.Numeral
import Stepwise.Double.Arithmetic
import Stepwise.Failure
import Stepwise.Polynomial.Term

namespace Stepwise

namespace Polynomial

/-- The terms of a sum, each with its minus sign if it has one. -/
def termTexts (s : List Char) : List (List Char) :=
  let marked := (Text.removeBlanks s).flatMap fun c => if c = '-' then ['+', '-'] else [c]
  (Text.splitAtChar '+' marked).filter fun term => !term.isEmpty

/-- The number before `x`; one if it is left out. -/
def factorValue (s : List Char) : Double :=
  match s with
  | [] => 1
  | ['+'] => 1
  | ['-'] => -1
  | _ => Numeral.prefixValue s

/-- The power after `x`; one if there is no `^`. -/
def powerValue (s : List Char) : Double :=
  match s with
  | '^' :: exponent => Numeral.prefixValue exponent
  | _ => 1

/-- Reads a single term; a constant that is no number is skipped. -/
def readTerm? (s : List Char) : Option Term :=
  if s.contains 'x' then
    let (before, after) := Text.partitionAt 'x' s
    some ⟨factorValue before, powerValue after⟩
  else
    let constant := Numeral.prefixValue s
    if constant.isNaN then none else some ⟨constant, 0⟩

/-- The terms of a polynomial in their order, powers neither merged nor sorted. -/
def readTerms (s : List Char) : List Term := (termTexts s).filterMap readTerm?

end Polynomial

/-- The coefficients of `a * x ^ 3 + b * x ^ 2 + c * x + d`. -/
structure Coefficients where
  a : Double := 0
  b : Double := 0
  c : Double := 0
  d : Double := 0
  deriving DecidableEq

namespace Coefficients

/-- The coefficient of a term without its power of `x` and a multiplication sign. -/
def readFactor (power term : List Char) : Double :=
  Polynomial.factorValue (Text.removeFirst ['*'] (Text.removeFirst power term))

/-- Adds one term.  The highest power that occurs in its text decides where. -/
def addTerm (k : Coefficients) (term : List Char) : Coefficients :=
  let cube := ['x', '^', '3']
  let square := ['x', '^', '2']
  if Text.contains cube term then { k with a := k.a + readFactor cube term }
  else if Text.contains square term then { k with b := k.b + readFactor square term }
  else if Text.contains ['x'] term then { k with c := k.c + readFactor ['x'] term }
  else
    let constant := Numeral.prefixValue term
    if constant.isNaN then k else { k with d := k.d + constant }

/-- The coefficients of one side of an equation. -/
def read (s : List Char) : Coefficients := (Polynomial.termTexts s).foldl addTerm {}

/-- The differences of the coefficients. -/
def sub (k l : Coefficients) : Coefficients := ⟨k.a - l.a, k.b - l.b, k.c - l.c, k.d - l.d⟩

instance : Sub Coefficients := ⟨sub⟩

end Coefficients

/-! ## Equations -/

namespace Equation

/-- The two sides of an equation; there has to be one equals sign. -/
def sides (wording : String) (s : List Char) : Except Failure (List Char × List Char) :=
  match Text.splitAtChar '=' s with
  | [left, right] => .ok (left, right)
  | _ => .error (.notOneEquals wording)

/-- The coefficients of the left side less those of the right side. -/
def netCoefficients (wording : String) (s : List Char) : Except Failure Coefficients := do
  let (left, right) ← sides wording s
  pure (Coefficients.read left - Coefficients.read right)

end Equation

end Stepwise
