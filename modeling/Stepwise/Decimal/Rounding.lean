/-
# Rounding to decimal places

A double rounded to a number of decimal places is the double nearest to the rounded exact value; a
half goes to the even neighbour.  Beyond the precision of doubles nothing changes, and where no
digit is left the result is zero.  A result that is too large is a breakdown.
-/
import Stepwise.Decimal.Layout
import Stepwise.Double.Arithmetic
import Stepwise.Failure

namespace Stepwise.Double

/-- The most decimal places at which rounding can change a double. -/
def mostPlaces : Int := 323

/-- The fewest decimal places, counted negatively, at which a digit can be left. -/
def fewestPlaces : Int := -308

/-- The double rounded to decimal places, with the sign of a zero kept. -/
def roundPlaces (places : Int) : Double → Except Breakdown Double
  | .nan => .ok .nan
  | .infinity negative => .ok (.infinity negative)
  | x@(.finite negative _ _ _) =>
    if mostPlaces < places then .ok x
    else if places < fewestPlaces then .ok (zero negative)
    else
      let rounded := ofDecimal negative (x.unitsOf places) (-places)
      if rounded.isFinite then .ok rounded else .error .overflow

/-- The double rounded to decimal places for display; a zero is positive. -/
def roundForDisplay (places : Int) (x : Double) : Except Breakdown Double :=
  (x.roundPlaces places).map (· + 0)

/-- The most decimal places that a text can be asked for. -/
def mostWrittenPlaces : Int := 2147483647

/-- The text with a fixed number of decimal places, if the number of places makes sense. -/
def fixed? (places : Int) (x : Double) : Except Breakdown (List Char) :=
  if places < 0 ∨ mostWrittenPlaces < places then .error .badValue
  else .ok (x.fixed places.toNat)

end Stepwise.Double
