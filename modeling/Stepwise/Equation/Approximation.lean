/-
# Approximation of polynomial roots

This module stands for the root finder of a computer algebra package, which is no part of the
program: what the program itself does starts with the roots that are found.  The method and its
constants follow the package so that runs give the same digits, and no property of them is proved
or used; what is proved holds of any root finder in this place.

All complex roots of a polynomial are found at once: each approximation is moved by the value of the
polynomial there over the product of its differences to the others, round after round, until every
move is small.  Numbers are rounded to a fixed number of bits after each operation.
-/
import Stepwise.Double.Arithmetic
import Stepwise.Failure

namespace Stepwise.Approximation

/-! ## Complex numbers of limited precision -/

/-- A complex number with rational parts. -/
structure Complex where
  re : Rat
  im : Rat

/-- A rational rounded to a number of significant bits. -/
def roundBits (bits : Nat) (q : Rat) : Rat :=
  let n := q.num.natAbs
  if n = 0 then 0
  else
    let exponent := floorLog2 n q.den + 1 - bits
    let shifted := shiftQuotient n q.den (-exponent)
    let magnitude := mkRat (roundDivision shifted.1 shifted.2) 1 * Double.twoPow exponent
    if q.num < 0 then -magnitude else magnitude

/-- A rational cut off after a number of significant bits. -/
def cutBits (bits : Nat) (q : Rat) : Rat :=
  let n := q.num.natAbs
  if n = 0 then 0
  else
    let exponent := floorLog2 n q.den + 1 - bits
    let shifted := shiftQuotient n q.den (-exponent)
    let magnitude := mkRat (shifted.1 / shifted.2) 1 * Double.twoPow exponent
    if q.num < 0 then -magnitude else magnitude

namespace Complex

/-- The number with both parts rounded. -/
def round (bits : Nat) (z : Complex) : Complex := ⟨roundBits bits z.re, roundBits bits z.im⟩

/-- The rounded sum. -/
def add (bits : Nat) (z w : Complex) : Complex := round bits ⟨z.re + w.re, z.im + w.im⟩

/-- The rounded difference. -/
def sub (bits : Nat) (z w : Complex) : Complex := round bits ⟨z.re - w.re, z.im - w.im⟩

/-- The rounded product. -/
def mul (bits : Nat) (z w : Complex) : Complex :=
  round bits ⟨z.re * w.re - z.im * w.im, z.re * w.im + z.im * w.re⟩

/-- The square of the distance from zero. -/
def normSq (z : Complex) : Rat := z.re * z.re + z.im * z.im

/-- The rounded quotient; a division by zero leaves the number.  Both products are cut off ten bits
further down before they are divided. -/
def divOrKeep (bits : Nat) (z w : Complex) : Complex :=
  if w.normSq = 0 then z
  else
    let cut := cutBits (bits + 10)
    let size := cut w.normSq
    round bits
      ⟨cut (z.re * w.re + z.im * w.im) / size, cut (z.im * w.re - z.re * w.im) / size⟩

end Complex

/-! ## Rounds -/

/-- The value of a polynomial, its coefficients given from the highest power down. -/
def evaluate (bits : Nat) (coefficients : List Complex) (z : Complex) : Complex :=
  match coefficients with
  | [] => ⟨0, 0⟩
  | first :: rest => rest.foldl (fun value c => c.add bits (z.mul bits value)) first

/-- Moves each approximation once.  `moved` holds those already moved, `distance` the square of the
longest move so far. -/
def sweep (bits : Nat) (coefficients moved : List Complex) (distance : Rat) :
    List Complex → List Complex × Rat
  | [] => (moved, distance)
  | z :: rest =>
    let move :=
      (moved ++ rest).foldl (fun x w => x.divOrKeep bits (z.sub bits w))
        (evaluate bits coefficients z)
    sweep bits coefficients (moved ++ [z.sub bits move]) (max distance move.normSq) rest

/-- The distance below which a move, or a part of a root, counts as nothing. -/
def tolerance : Rat := mkRat 1 (twoTo 52)

/-- Moves the approximations, for at most a number of rounds, until every move is small. -/
def iterate (bits : Nat) (coefficients : List Complex) :
    Nat → List Complex → Rat → Option (List Complex)
  | 0, roots, distance => if distance < tolerance * tolerance then some roots else none
  | rounds + 1, roots, distance =>
    if distance < tolerance * tolerance then some roots
    else
      let (moved, farthest) := sweep bits coefficients [] 0 roots
      iterate bits coefficients rounds moved farthest

/-- The most rounds. -/
def maxRounds : Nat := 50

/-- Drops a real or imaginary part that counts as nothing. -/
def tidy (z : Complex) : Complex :=
  if z.normSq < tolerance * tolerance then ⟨0, 0⟩
  else if z.im.abs < tolerance then ⟨z.re, 0⟩
  else if z.re.abs < tolerance then ⟨0, z.im⟩
  else z

/-- The first approximations: powers of a number that is neither real nor a root of unity. -/
def start (degree : Nat) : List Complex :=
  let re := Double.ofDecimal false 4 (-1)
  let im := Double.ofDecimal false 9 (-1)
  [⟨1, 0⟩, ⟨re.value, im.value⟩, ⟨(re * re - im * im).value, (re * im + im * re).value⟩].take degree

/-- The complex roots of a cubic polynomial with rational coefficients, at a working precision. -/
def cubicRootsAt? (bits : Nat) (a b c d : Rat) : Option (List Complex) :=
  let monic := [a, b, c, d].map fun q => Complex.divOrKeep bits ⟨q, 0⟩ ⟨a, 0⟩
  (iterate bits monic maxRounds (start 3) 1).map (List.map tidy)

/-- The complex roots of a cubic polynomial, its coefficients given from the highest power down. -/
def cubicRoots (a b c d : Double) : Except Breakdown (List Complex) :=
  if !(a.isFinite && b.isFinite && c.isFinite && d.isFinite) then .error .nonFiniteCoefficient
  else
    let attempt (bits : Nat) := cubicRootsAt? bits a.value b.value c.value d.value
    match attempt 83 <|> attempt 98 with
    | none => .error .noConvergence
    | some roots => .ok roots

end Stepwise.Approximation
