/-
# Double-precision numbers

The numbers every solver works with: a sign, a mantissa of at most 53 bits and a binary
exponent, the two infinities, and one undefined number.  A finite double is stored in its only
canonical form, so two doubles are equal as values of the type exactly when no operation can
tell them apart; in particular `0` and `-0` differ, while `numericEq` identifies them.

* `Double.value` : the rational number that a finite double stands for;
* `Double.numericEq`, `Double.lt`, `Double.le` : the comparisons, all false on `nan`.
-/

namespace Stepwise

/-- `2 ^ n`. -/
def twoTo (n : Nat) : Nat := Nat.pow 2 n

/-- `10 ^ n`. -/
def tenTo (n : Nat) : Nat := Nat.pow 10 n

/-- A mantissa and an exponent are canonical when the mantissa fills its 53 bits, which is to lie
from `2 ^ 52` to below `2 ^ 53`, except at the least exponent, where smaller ones are allowed. -/
def Canonical (mantissa : Nat) (exponent : Int) : Prop :=
  mantissa < 0x20000000000000 ∧ -1074 ≤ exponent ∧ exponent ≤ 971 ∧
    (0x10000000000000 ≤ mantissa ∨ exponent = -1074)

instance (mantissa : Nat) (exponent : Int) : Decidable (Canonical mantissa exponent) := by
  unfold Canonical
  infer_instance

/-- A double-precision number; `negative` is its sign. -/
inductive Double where
  | nan
  | infinity (negative : Bool)
  | finite (negative : Bool) (mantissa : Nat) (exponent : Int)
      (canonical : Canonical mantissa exponent)
  deriving DecidableEq

namespace Double

/-! ## Values and classes -/

/-- The zero of a given sign. -/
def zero (negative : Bool) : Double :=
  .finite negative 0 (-1074) (by decide)

instance : Inhabited Double := ⟨zero false⟩

/-- Two to an integer power, as a rational. -/
def twoPow : Int → Rat
  | .ofNat n => mkRat (twoTo n) 1
  | .negSucc n => mkRat 1 (twoTo (n + 1))

/-- The rational number that a finite double stands for; `0` for the others. -/
def value : Double → Rat
  | .finite negative mantissa exponent _ =>
    let magnitude := mkRat mantissa 1 * twoPow exponent
    if negative then -magnitude else magnitude
  | _ => 0

/-- Neither infinite nor undefined. -/
def isFinite : Double → Bool
  | .finite .. => true
  | _ => false

/-- The undefined number. -/
def isNaN : Double → Bool
  | .nan => true
  | _ => false

/-- The sign bit; `nan` counts as positive. -/
def signBit : Double → Bool
  | .nan => false
  | .infinity negative => negative
  | .finite negative _ _ _ => negative

/-- One of the two zeros. -/
def isZero : Double → Bool
  | .finite _ mantissa _ _ => mantissa == 0
  | _ => false

/-- The integer that a double equals, if there is one. -/
def toInt? : Double → Option Int
  | x@(.finite ..) => if x.value.den = 1 then some x.value.num else none
  | _ => none

/-! ## Sign operations -/

/-- The number with its sign turned; `nan` has none. -/
def neg : Double → Double
  | .nan => .nan
  | .infinity negative => .infinity !negative
  | .finite negative mantissa exponent h => .finite (!negative) mantissa exponent h

instance : Neg Double := ⟨neg⟩

/-- The number without its sign. -/
def abs : Double → Double
  | .nan => .nan
  | .infinity _ => .infinity false
  | .finite _ mantissa exponent h => .finite false mantissa exponent h

/-! ## Comparisons -/

/-- Numeric equality: the zeros are equal, and `nan` equals nothing. -/
def numericEq : Double → Double → Bool
  | .nan, _ => false
  | _, .nan => false
  | .infinity s, .infinity t => s == t
  | .infinity _, .finite .. => false
  | .finite .., .infinity _ => false
  | x@(.finite ..), y@(.finite ..) => x.value == y.value

/-- Numeric order, false when an operand is `nan`. -/
def lt : Double → Double → Bool
  | .nan, _ => false
  | _, .nan => false
  | .infinity s, .infinity t => s && !t
  | .infinity s, .finite .. => s
  | .finite .., .infinity t => !t
  | x@(.finite ..), y@(.finite ..) => decide (x.value < y.value)

/-- Less or numerically equal. -/
def le (x y : Double) : Bool := x.lt y || x.numericEq y

end Double

end Stepwise
