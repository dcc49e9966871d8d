/-
# Display of roots

Roots are rounded, put in ascending order without repetition, and written as an equation for a
single root and as a set for several.  Only defined numbers have such an order; with an undefined
one among them, the roots stay in the order in which a set lists them.
-/
import Stepwise.Decimal.Rounding
import Stepwise.Settings

namespace Stepwise.Roots

/-- Inserts a number into an ascending list, unless an equal one is there. -/
def insert (x : Double) : List Double → List Double
  | [] => [x]
  | y :: rest =>
    if x.lt y then x :: y :: rest
    else if x.numericEq y then y :: rest
    else y :: insert x rest

/-- The numbers without repetition, in ascending order.  An undefined number neither equals nor
precedes any, so that sorting leaves the order to the arrangement where there is one. -/
def ascending (arrangement : Arrangement) (xs : List Double) : List Double :=
  if xs.any Double.isNaN then arrangement.list (xs.eraseDupsBy Double.numericEq)
  else xs.foldl (fun sorted x => insert x sorted) []

/-- The text of roots in the order of display. -/
def write : List Double → Except Breakdown String
  | [] => .error .noRoots
  | [x] => .ok s!"x = {x.text}"
  | xs => .ok ("x \\in \\\x7b" ++ String.intercalate ", " (xs.map Double.text) ++ "\\\x7d")

/-- The text of roots rounded to decimal places. -/
def text (places : Int) (roots : List Double) (arrangement : Arrangement := .usual) :
    Except Breakdown String := do
  let rounded ← roots.mapM (Double.roundForDisplay places)
  write (ascending arrangement rounded)

end Stepwise.Roots
