/-
# Powers of doubles

`Double.power x y` is the correctly rounded real power.  A whole exponent of moderate size is exact
before rounding; other exponents go through `exp (y * ln x)`, enclosed as the elementary functions
are.  A library whose powers are off by a unit in the last place is not followed in this.

Powers fail in two ways: where no real power exists, and where it is too large for a double.
Infinite operands never fail; they give the limit.
-/
import Stepwise.Double.Elementary

namespace Stepwise.Double

/-- Why a power has no double. -/
inductive PowerFault where
  | undefined
  | overflow
  deriving DecidableEq

/-! ## Finite operands -/

/-- The largest whole exponent for which the exact power is formed. -/
def maxExactExponent : Nat := 1100

/-- A rational to a whole power. -/
def ratPow (q : Rat) : Int → Rat
  | .ofNat n => mkRat (Int.pow q.num n) (Nat.pow q.den n)
  | .negSucc n => 1 / mkRat (Int.pow q.num (n + 1)) (Nat.pow q.den (n + 1))

/-- The number, unless it is infinite. -/
def finiteOrOverflow (x : Double) : Except PowerFault Double :=
  if x.isFinite then .ok x else .error .overflow

/-- The enclosure of a number times a power of two, rounded. -/
def ofScaledEnclosure? (p : Nat) (a : Enclosure) (k : Int) : Option Double :=
  let end? (n : Int) : Double := round false (mkRat n (twoTo p) * twoPow k)
  if end? a.lower = end? a.upper then some (end? a.lower) else none

/-- `exp (y * ln x)` for positive `x`, unless it is too large; below `2 ^ -1100` it is zero. -/
def expLn (x y : Rat) : Except PowerFault Double :=
  let extra := bitsAboveOne y
  let enclose (bits : Nat) : Enclosure × Int :=
    let p := bits + extra
    let exponent := (Enclosure.ln p x).mul p (.ofRat p y)
    Enclosure.exp p exponent
  let attempt (bits : Nat) : Option Double :=
    let (a, k) := enclose bits
    ofScaledEnclosure? (bits + extra) a k
  let estimate := (Enclosure.ln 128 x).mul 128 (.ofRat 128 y)
  if 720 * twoTo 128 < estimate.lower then .error .overflow
  else if estimate.upper < -760 * twoTo 128 then .ok (zero false)
  else
    match attempt 128 <|> attempt 256 <|> attempt 512 with
    | some z => finiteOrOverflow z
    | none =>
      let (a, k) := enclose 512
      finiteOrOverflow (roundTwice (mkRat (a.lower + a.upper) (twoTo (513 + extra)) * twoPow k))

/-- The power of a finite nonzero base with a whole exponent. -/
def wholePower (x : Rat) (n : Int) : Except PowerFault Double :=
  if n.natAbs ≤ maxExactExponent then finiteOrOverflow (round false (ratPow x n))
  else
    let negative := decide (x < 0) && n % 2 == 1
    let magnitude := if x < 0 then -x else x
    (expLn magnitude (mkRat n 1)).map fun z => if negative then -z else z

/-- The power of finite operands. -/
def finitePower (x y : Double) : Except PowerFault Double :=
  if y.isZero then .ok 1
  else if x.isZero then
    if y.signBit then .error .undefined
    else
      match y.toInt? with
      | some n => .ok (if n % 2 = 1 then x else zero false)
      | none => .ok (zero false)
  else
    match y.toInt? with
    | some n => wholePower x.value n
    | none => if x.signBit then .error .undefined else expLn x.value y.value

/-! ## All operands -/

/-- A finite odd integer. -/
def isOddInteger (x : Double) : Bool :=
  match x.toInt? with
  | some n => n % 2 == 1
  | none => false

/-- The power with an infinite base. -/
def infinitePower (negative : Bool) (y : Double) : Double :=
  if y.isZero then 1
  else if y.signBit then zero (negative && y.isOddInteger)
  else .infinity (negative && y.isOddInteger)

/-- The real power of two doubles. -/
def power : Double → Double → Except PowerFault Double
  | .nan, y => .ok (if y.isZero then 1 else .nan)
  | x, .nan => .ok (if x = 1 then 1 else .nan)
  | .infinity negative, y => .ok (infinitePower negative y)
  | x@(.finite ..), .infinity negative =>
    let magnitude := x.abs.value
    .ok (if magnitude = 1 then 1
      else if decide (1 < magnitude) = negative then zero false
      else .infinity false)
  | x@(.finite ..), y@(.finite ..) => finitePower x y

end Stepwise.Double
