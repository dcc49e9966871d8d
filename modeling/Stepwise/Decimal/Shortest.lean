/-
# Shortest decimal of a double

The fewest digits that read back as the same double.  For each number of digits the two decimals
around the exact value are tried; the first number of digits with a hit is taken, and of two
hits the nearer one, or the one with an even last digit if they are equally near.

Main definition: `Double.shortest`.  Its result reads back, because every candidate is tested.
-/
import Stepwise.Decimal.Basic

namespace Stepwise.Double

/-- The decimals with `unit` as the exponent of their last digit that read back as the positive
double `x`, whose value is `n / d`. -/
def shortestOnGrid? (x : Double) (n d : Nat) (unit : Int) : Option Decimal :=
  let scaled := scaleQuotient n d (-unit)
  let below := scaled.1 / scaled.2
  let above := below + 1
  let readsBack (digits : Nat) : Bool := Double.ofDecimal false digits unit = x
  match readsBack below, readsBack above with
  | false, false => none
  | true, false => some ⟨below, unit⟩
  | false, true => some ⟨above, unit⟩
  | true, true => some ⟨roundDivision scaled.1 scaled.2, unit⟩

/-- Tries the grids from `unit` downwards. -/
def shortestFrom (x : Double) (n d : Nat) : Nat → Int → Decimal
  | 0, unit =>
    let scaled := scaleQuotient n d (-unit)
    ⟨scaled.1 / scaled.2, unit⟩
  | fuel + 1, unit =>
    match shortestOnGrid? x n d unit with
    | some found => found
    | none => shortestFrom x n d fuel (unit - 1)

/-- The shortest decimal of the magnitude of a finite double; `0` for the others. -/
def shortest (x : Double) : Decimal :=
  let v := x.abs.value
  if v.num = 0 then ⟨0, 0⟩
  else
    (shortestFrom x.abs v.num.natAbs v.den 17
      (floorLog10 v.num.natAbs v.den)).dropZeros

end Stepwise.Double
