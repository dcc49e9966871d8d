/-
# Divisors

The divisors of an integer, found in pairs up to the square root of its odd part, which are then
multiplied by the powers of two that divide it.
-/
import Stepwise.Double.Arithmetic

namespace Stepwise

/-- Takes out factors of two, at most `fuel` of them: their number and the rest. -/
def splitTwos : Nat → Nat → Nat × Nat
  | 0, n => (0, n)
  | fuel + 1, n =>
    if n % 2 = 0 then
      let (k, odd) := splitTwos fuel (n / 2)
      (k + 1, odd)
    else (0, n)

/-- Puts the odd divisors of `m` from `d` on in front of those already found, as long as their
squares do not exceed `m`. -/
def smallOddDivisors (m : Nat) : Nat → Nat → List Nat → List Nat
  | 0, _, found => found
  | fuel + 1, d, found =>
    if m < d * d then found
    else if m % d = 0 then smallOddDivisors m fuel (d + 2) (d :: found)
    else smallOddDivisors m fuel (d + 2) found

/-- The divisors of an odd number in ascending order. -/
def oddDivisors (m : Nat) : List Nat :=
  let small := smallOddDivisors m (Double.natSqrt m / 2 + 1) 1 []
  small.reverse ++ (small.filter fun d => d * d ≠ m).map (m / ·)

/-- The positive divisors of a positive number in ascending order. -/
def divisors (n : Nat) : List Nat :=
  let (k, odd) := splitTwos n.log2 n
  let odds := oddDivisors odd
  let products := (List.range (k + 1)).flatMap fun i => odds.map (twoTo i * ·)
  products.mergeSort (· ≤ ·)

/-- The divisors of a whole number, each followed by its negative.  Zero is its own only divisor
here, and a number that is not whole has none. -/
def signedDivisors (x : Double) : List Int :=
  match x.toInt? with
  | none => []
  | some n =>
    if n = 0 then [0]
    else (divisors n.natAbs).flatMap fun (d : Nat) => [(d : Int), -(d : Int)]

end Stepwise
