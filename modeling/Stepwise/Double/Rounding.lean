/-
# Rounding to the nearest double

Every arithmetic operation on finite doubles is the exact rational operation followed by
`Double.round`, which picks the nearest double and, of two equally near ones, the one with the
even mantissa.  A magnitude that rounds beyond the largest finite double becomes an infinity.

* `roundDivision` : the nearest natural number to a quotient, a half going to the even one;
* `floorLog2` : the binary exponent of a positive quotient;
* `Double.round` : the nearest double to a rational.
-/
import Stepwise.Double.Basic

namespace Stepwise

/-- The nearest natural number to `n / d`; a half goes to the even neighbour. -/
def roundDivision (n d : Nat) : Nat :=
  let q := n / d
  let r := n % d
  if 2 * r < d then q
  else if 2 * r = d then (if q % 2 = 0 then q else q + 1)
  else q + 1

/-- `n * 2 ^ k` and `d`, or `n` and `d * 2 ^ (-k)`: the quotient `n / d` times `2 ^ k`. -/
def shiftQuotient (n d : Nat) : Int → Nat × Nat
  | .ofNat k => (n * twoTo k, d)
  | .negSucc k => (n, d * twoTo (k + 1))

/-- The greatest `k` with `2 ^ k ≤ n / d`, for positive `n` and `d`. -/
def floorLog2 (n d : Nat) : Int :=
  let k : Int := (n.log2 : Int) - (d.log2 : Int)
  let shifted := shiftQuotient n d (-k)
  if shifted.1 < shifted.2 then k - 1 else k

namespace Double

/-- The double of a given sign, mantissa and exponent; one out of range stands for an overflow. -/
def ofParts (negative : Bool) (mantissa : Nat) (exponent : Int) : Double :=
  if h : Canonical mantissa exponent then .finite negative mantissa exponent h
  else .infinity negative

/-- The nearest double to `n / d` with a given sign, for positive `d`. -/
def roundQuotient (negative : Bool) (n d : Nat) : Double :=
  if n = 0 then zero negative
  else
    let exponent := max (-1074) (floorLog2 n d - 52)
    let shifted := shiftQuotient n d (-exponent)
    let mantissa := roundDivision shifted.1 shifted.2
    if mantissa = twoTo 53 then ofParts negative (twoTo 52) (exponent + 1)
    else ofParts negative mantissa exponent

/-- The nearest double to a rational; `negative` is the sign of a result that is exactly zero. -/
def round (negative : Bool) (q : Rat) : Double :=
  if q.num = 0 then zero negative
  else roundQuotient (decide (q.num < 0)) q.num.natAbs q.den

/-- The nearest double to an integer. -/
def ofInt (n : Int) : Double := round false (mkRat n 1)

/-- The nearest double to a natural number. -/
def ofNat (n : Nat) : Double := roundQuotient false n 1

instance (n : Nat) : OfNat Double n := ⟨ofNat n⟩

/-- The nearest double to `digits * 10 ^ exponent`, for decimal literals. -/
def ofDecimal (negative : Bool) (digits : Nat) : Int → Double
  | .ofNat k => roundQuotient negative (digits * tenTo k) 1
  | .negSucc k => roundQuotient negative digits (tenTo (k + 1))

end Double

end Stepwise
