/-
# Terms of a polynomial

A term is a coefficient and a power of `x`.  A unit coefficient and a unit power are not written,
and a constant has no `x`.  A sum of terms is written with `+` and, before a negative coefficient,
with `-`.
-/
import Stepwise.Decimal.Layout
import Stepwise.Text.Basic

namespace Stepwise

/-- The number `coefficient * x ^ power`. -/
structure Term where
  coefficient : Double
  power : Double
  deriving DecidableEq

namespace Term

/-- The power of `x` as it is written. -/
def variableChars (power : Double) : List Char :=
  if power.numericEq 1 then ['x'] else 'x' :: '^' :: power.display

/-- The characters of a term. -/
def chars (t : Term) : List Char :=
  if t.power.isZero then t.coefficient.display
  else if t.coefficient.numericEq 1 then variableChars t.power
  else if t.coefficient.numericEq (-1) then '-' :: variableChars t.power
  else t.coefficient.display ++ variableChars t.power

end Term

namespace Polynomial

/-- Writes `a + -b` as `a - b`. -/
def mergeSigns (s : List Char) : List Char := Text.replaceAll ['+', ' ', '-'] ['-', ' '] s

/-- The sum of written terms; `0` if there are none. -/
def writeSum (terms : List (List Char)) : List Char :=
  let sum := mergeSigns (Text.join [' ', '+', ' '] terms)
  if sum.isEmpty then ['0'] else sum

/-- The polynomial whose coefficients are given from the highest power down, without its zero
terms. -/
def denseChars (coefficients : List Double) : List Char :=
  let powers := (List.range coefficients.length).reverse
  writeSum <|
    ((coefficients.zip powers).filter fun entry => !entry.1.isZero).map fun entry =>
      Term.chars ⟨entry.1, .ofNat entry.2⟩

end Polynomial

end Stepwise
