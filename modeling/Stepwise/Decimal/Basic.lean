/-
# Decimal numbers

A decimal number is a natural number of units of a power of ten.  This module has the digits of
a natural number, the decimal exponent of a quotient, and the double nearest to a decimal.
-/
import Stepwise.Double.Rounding

namespace Stepwise

/-- The number `digits * 10 ^ exponent`. -/
structure Decimal where
  digits : Nat
  exponent : Int
  deriving DecidableEq

/-- The decimal digits of a natural number. -/
def digitChars (n : Nat) : List Char := Nat.toDigits 10 n

/-- The decimal digits of an integer, with a minus sign if it is negative. -/
def integerChars (n : Int) : List Char :=
  if n < 0 then '-' :: digitChars n.natAbs else digitChars n.natAbs

/-- `n * 10 ^ k` and `d`, or `n` and `d * 10 ^ (-k)`: the quotient `n / d` times `10 ^ k`. -/
def scaleQuotient (n d : Nat) : Int → Nat × Nat
  | .ofNat k => (n * tenTo k, d)
  | .negSucc k => (n, d * tenTo (k + 1))

/-- `10 ^ k` is at most `n / d`. -/
def tenPowLe (n d : Nat) (k : Int) : Bool :=
  let scaled := scaleQuotient n d (-k)
  scaled.2 ≤ scaled.1

/-- The greatest `k` with `10 ^ k ≤ n / d`, for positive `n` and `d`.  It is first estimated from
the binary exponent, which can leave it one too small or, for huge quotients, one off. -/
def floorLog10 (n d : Nat) : Int :=
  let guess := Int.fdiv (floorLog2 n d * 30103) 100000
  if tenPowLe n d (guess + 1) then guess + 1
  else if tenPowLe n d guess then guess
  else guess - 1

namespace Decimal

/-- Drops up to `fuel` zeros from the end of the digits. -/
def dropZerosAux : Nat → Nat → Int → Decimal
  | 0, digits, exponent => ⟨digits, exponent⟩
  | fuel + 1, digits, exponent =>
    if digits ≠ 0 ∧ digits % 10 = 0 then dropZerosAux fuel (digits / 10) (exponent + 1)
    else ⟨digits, exponent⟩

/-- The same number without zeros at the end of its digits. -/
def dropZeros (x : Decimal) : Decimal :=
  dropZerosAux (digitChars x.digits).length x.digits x.exponent

/-- The exponent of the leading digit: the number is `d.ddd * 10 ^ leading`. -/
def leading (x : Decimal) : Int := (digitChars x.digits).length - 1 + x.exponent

/-- The nearest double, with a given sign.  Numbers far beyond the range of doubles are decided
by their leading digit alone. -/
def toDouble (negative : Bool) (x : Decimal) : Double :=
  if x.digits = 0 then .zero negative
  else if 400 < x.leading then .infinity negative
  else if x.leading < -400 then .zero negative
  else .ofDecimal negative x.digits x.exponent

end Decimal

end Stepwise
