/-
# Elementary functions of doubles

Each function is rounded correctly: the real result is enclosed at growing precision until both
ends of the enclosure round to the same double.  A result that stays undecided lies halfway
between two doubles; it is then rounded from its first 64 bits.

A result is absent where the function has no real value.
-/
import Stepwise.Double.Enclosure

namespace Stepwise.Double

/-! ## Rounding an enclosure -/

/-- The double that both ends of an enclosure round to, if there is one. -/
def ofEnclosure? (p : Nat) (a : Enclosure) : Option Double :=
  let low := round false (mkRat a.lower (twoTo p))
  if low = round false (mkRat a.upper (twoTo p)) then some low else none

/-- A rational rounded to 64 bits and then to a double. -/
def roundTwice (q : Rat) : Double :=
  let n := q.num.natAbs
  if n = 0 then zero false
  else
    let exponent := floorLog2 n q.den - 63
    let shifted := shiftQuotient n q.den (-exponent)
    let mantissa := roundDivision shifted.1 shifted.2
    let scaled := shiftQuotient mantissa 1 exponent
    roundQuotient (decide (q.num < 0)) scaled.1 scaled.2

/-- Rounds a real number that can be enclosed at any precision: at 128, 256 and 512 bits beyond
`extra`, and then from the middle of the last enclosure. -/
def settle (extra : Nat) (enclose : Nat → Option Enclosure) : Double :=
  let attempt (bits : Nat) : Option Double :=
    (enclose (bits + extra)).bind (ofEnclosure? (bits + extra))
  match attempt 128 <|> attempt 256 <|> attempt 512 with
  | some x => x
  | none =>
    match enclose (512 + extra) with
    | some a => roundTwice (mkRat (a.lower + a.upper) (twoTo (513 + extra)))
    | none => .nan

/-- The bits by which a rational lies below one. -/
def bitsBelowOne (q : Rat) : Nat := (-(floorLog2 q.num.natAbs q.den)).toNat

/-- The bits by which a rational lies above one. -/
def bitsAboveOne (q : Rat) : Nat := (floorLog2 q.num.natAbs q.den).toNat

/-- The bits needed to reduce an argument, large or small. -/
def bitsAwayFromOne (q : Rat) : Nat := bitsBelowOne q + bitsAboveOne q

/-- The circle constant, rounded. -/
def pi : Double := ofDecimal false 3141592653589793 (-15)

/-- Half the circle constant, rounded. -/
def halfPi : Double := ofDecimal false 15707963267948966 (-16)

/-- The base of the natural logarithm, rounded. -/
def euler : Double := ofDecimal false 2718281828459045 (-15)

/-! ## Trigonometric functions -/

/-- The sine. -/
def sin? : Double → Option Double
  | .nan => some .nan
  | .infinity _ => none
  | x@(.finite ..) =>
    if x.isZero then some x
    else some (settle (bitsAwayFromOne x.value) fun p => some (Enclosure.sinCos p x.value).1)

/-- The cosine. -/
def cos? : Double → Option Double
  | .nan => some .nan
  | .infinity _ => none
  | x@(.finite ..) =>
    some (settle (bitsAboveOne x.value) fun p => some (Enclosure.sinCos p x.value).2)

/-- The tangent. -/
def tan? : Double → Option Double
  | .nan => some .nan
  | .infinity _ => none
  | x@(.finite ..) =>
    if x.isZero then some x
    else
      some (settle (bitsAwayFromOne x.value) fun p =>
        let (s, c) := Enclosure.sinCos p x.value
        s.div? p c)

/-- The arctangent. -/
def atan : Double → Double
  | .nan => .nan
  | .infinity negative => if negative then -halfPi else halfPi
  | x@(.finite ..) =>
    if x.isZero then x
    else settle (bitsBelowOne x.value) fun p => Enclosure.atan? p x.value

/-- The arcsine, on magnitudes up to one. -/
def asin? : Double → Option Double
  | .nan => some .nan
  | .infinity _ => none
  | x@(.finite ..) =>
    if x.isZero then some x
    else if 1 < x.abs.value then none
    else some (settle (bitsBelowOne x.value) fun p => Enclosure.asin? p x.value)

/-- The arccosine, on magnitudes up to one. -/
def acos? : Double → Option Double
  | .nan => some .nan
  | .infinity _ => none
  | x@(.finite ..) =>
    if 1 < x.abs.value then none
    else if x.value = 1 then some (zero false)
    else
      some (settle 0 fun p =>
        (Enclosure.asin? p x.value).map ((Enclosure.pi p).divNat 2).sub)

/-! ## Hyperbolic functions -/

/-- The exponentials of a rational and of its negative. -/
def expPair (p : Nat) (q : Rat) : Enclosure × Enclosure :=
  let (up, k) := Enclosure.exp p (.ofRat p q)
  let (down, l) := Enclosure.exp p (.ofRat p (-q))
  (up.shift k, down.shift l)

/-- The hyperbolic sine; absent where it is too large for a double. -/
def sinh? : Double → Option Double
  | .nan => some .nan
  | .infinity negative => some (.infinity negative)
  | x@(.finite ..) =>
    if x.isZero then some x
    else if 720 < x.abs.value then none
    else
      let result := settle (bitsAwayFromOne x.value) fun p =>
        let (up, down) := expPair p x.value
        some ((up.sub down).divNat 2)
      if result.isFinite then some result else none

/-- The hyperbolic cosine; absent where it is too large for a double. -/
def cosh? : Double → Option Double
  | .nan => some .nan
  | .infinity _ => some (.infinity false)
  | x@(.finite ..) =>
    if 720 < x.abs.value then none
    else
      let result := settle (bitsAboveOne x.value) fun p =>
        let (up, down) := expPair p x.value
        some ((up.add down).divNat 2)
      if result.isFinite then some result else none

/-- The hyperbolic tangent; from 40 on it rounds to one. -/
def tanh : Double → Double
  | .nan => .nan
  | .infinity negative => ofInt (if negative then -1 else 1)
  | x@(.finite negative _ _ _) =>
    if x.isZero then x
    else if 40 < x.abs.value then ofInt (if negative then -1 else 1)
    else
      settle (bitsAwayFromOne x.value) fun p =>
        let (up, down) := expPair p x.value
        (up.sub down).div? p (up.add down)

/-! ## Logarithms -/

/-- The natural logarithm of a positive number. -/
def ln : Double → Double
  | .nan => .nan
  | .infinity negative => if negative then .nan else .infinity false
  | x@(.finite ..) =>
    if x.value ≤ 0 then .nan
    else if x.value = 1 then zero false
    else settle 0 fun p => some (Enclosure.ln p x.value)

/-- The logarithm to base ten of a positive number. -/
def log10 : Double → Double
  | .nan => .nan
  | .infinity negative => if negative then .nan else .infinity false
  | x@(.finite ..) =>
    if x.value ≤ 0 then .nan
    else if x.value = 1 then zero false
    else settle 0 fun p => (Enclosure.ln p x.value).div? p (Enclosure.ln p 10)

end Stepwise.Double
