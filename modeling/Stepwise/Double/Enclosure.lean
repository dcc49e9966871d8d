/-
# Enclosures of real numbers

An enclosure is a pair of integers in units of `2 ^ -p`, for a precision `p` that the context
fixes; the real number it stands for lies between its ends.  Every operation rounds the lower end
down and the upper end up, so the true result stays inside.

On top of the operations stand the series of the exponential, the sine, the arctangent and the
logarithm, each after a reduction of the argument to a small one.
-/
import Stepwise.Double.Arithmetic

namespace Stepwise

/-- The integers `lower` and `upper` around a real number, in units of `2 ^ -p`. -/
structure Enclosure where
  lower : Int
  upper : Int

/-- The quotient rounded up. -/
def ceilDiv (n d : Int) : Int := -Int.fdiv (-n) d

namespace Enclosure

/-! ## Operations -/

/-- The integer `n`. -/
def ofInt (p : Nat) (n : Int) : Enclosure := ⟨n * twoTo p, n * twoTo p⟩

/-- The quotient `n / d`, for positive `d`. -/
def ofQuotient (p : Nat) (n d : Int) : Enclosure :=
  ⟨Int.fdiv (n * twoTo p) d, ceilDiv (n * twoTo p) d⟩

/-- A rational number. -/
def ofRat (p : Nat) (q : Rat) : Enclosure := ofQuotient p q.num q.den

/-- The negated number. -/
def neg (a : Enclosure) : Enclosure := ⟨-a.upper, -a.lower⟩

/-- The sum. -/
def add (a b : Enclosure) : Enclosure := ⟨a.lower + b.lower, a.upper + b.upper⟩

/-- The difference. -/
def sub (a b : Enclosure) : Enclosure := a.add b.neg

/-- The number `k` times as large. -/
def mulInt (k : Int) (a : Enclosure) : Enclosure :=
  if 0 ≤ k then ⟨k * a.lower, k * a.upper⟩ else ⟨k * a.upper, k * a.lower⟩

/-- The number divided by a positive `k`. -/
def divNat (a : Enclosure) (k : Nat) : Enclosure := ⟨Int.fdiv a.lower k, ceilDiv a.upper k⟩

/-- Both ends moved outwards by `units`. -/
def widen (units : Nat) (a : Enclosure) : Enclosure := ⟨a.lower - units, a.upper + units⟩

/-- The product. -/
def mul (p : Nat) (a b : Enclosure) : Enclosure :=
  let w := a.lower * b.lower
  let x := a.lower * b.upper
  let y := a.upper * b.lower
  let z := a.upper * b.upper
  ⟨Int.fdiv (min (min w x) (min y z)) (twoTo p), ceilDiv (max (max w x) (max y z)) (twoTo p)⟩

/-- The quotient; nothing if the divisor may be zero. -/
def div? (p : Nat) (a b : Enclosure) : Option Enclosure :=
  let quotient (a b : Enclosure) : Enclosure :=
    ⟨min (Int.fdiv (a.lower * twoTo p) b.lower) (Int.fdiv (a.lower * twoTo p) b.upper),
      max (ceilDiv (a.upper * twoTo p) b.lower) (ceilDiv (a.upper * twoTo p) b.upper)⟩
  if 0 < b.lower then some (quotient a b)
  else if b.upper < 0 then some (quotient a.neg b.neg)
  else none

/-- The square root of a number that is not negative. -/
def sqrt (p : Nat) (a : Enclosure) : Enclosure :=
  ⟨natSqrt (a.lower.toNat * twoTo p), natSqrt (a.upper.toNat * twoTo p) + 1⟩
where
  natSqrt := Double.natSqrt

/-- The number times `2 ^ k`. -/
def shift (k : Int) (a : Enclosure) : Enclosure :=
  match k with
  | .ofNat k => ⟨a.lower * twoTo k, a.upper * twoTo k⟩
  | .negSucc k => ⟨Int.fdiv a.lower (twoTo (k + 1)), ceilDiv a.upper (twoTo (k + 1))⟩

/-! ## Power series -/

/-- Both ends are within a few units of zero. -/
def isTiny (a : Enclosure) : Bool := -4 ≤ a.lower && a.upper ≤ 4

/-- Adds `power / divisor n` to the sum for `n`, `n + 1`, …, where each power is the one before
times `ratio` over `shrink n`.  With a ratio of at most a half the powers that follow a tiny one
add less than the widening at the end. -/
def series (p : Nat) (ratio : Enclosure) (shrink divisor : Nat → Nat) :
    Nat → Nat → Enclosure → Enclosure → Enclosure
  | 0, _, power, sum => (sum.add power).widen 64
  | fuel + 1, n, power, sum =>
    if power.isTiny then sum.widen 64
    else
      series p ratio shrink divisor fuel (n + 1) ((power.mul p ratio).divNat (shrink n))
        (sum.add (power.divNat (divisor n)))

/-- The whole series that starts with `first`. -/
def sumSeries (p : Nat) (first ratio : Enclosure) (shrink divisor : Nat → Nat) : Enclosure :=
  series p ratio shrink divisor (p + 64) 0 first ⟨0, 0⟩

/-- The exponential of a number of magnitude at most one half. -/
def expSmall (p : Nat) (a : Enclosure) : Enclosure :=
  sumSeries p (ofInt p 1) a (fun n => n + 1) (fun _ => 1)

/-- The sine of a number of magnitude at most one. -/
def sinSmall (p : Nat) (a : Enclosure) : Enclosure :=
  sumSeries p a (a.mul p a).neg (fun n => (2 * n + 2) * (2 * n + 3)) (fun _ => 1)

/-- The cosine of a number of magnitude at most one. -/
def cosSmall (p : Nat) (a : Enclosure) : Enclosure :=
  sumSeries p (ofInt p 1) (a.mul p a).neg (fun n => (2 * n + 1) * (2 * n + 2)) (fun _ => 1)

/-- The arctangent of a number of magnitude at most one half. -/
def atanSmall (p : Nat) (a : Enclosure) : Enclosure :=
  sumSeries p a (a.mul p a).neg (fun _ => 1) (fun n => 2 * n + 1)

/-- The inverse hyperbolic tangent of a number of magnitude at most one half. -/
def atanhSmall (p : Nat) (a : Enclosure) : Enclosure :=
  sumSeries p a (a.mul p a) (fun _ => 1) (fun n => 2 * n + 1)

/-! ## Constants -/

/-- The natural logarithm of two. -/
def ln2 (p : Nat) : Enclosure := mulInt 2 (atanhSmall p (ofQuotient p 1 3))

/-- The circle constant, from the arctangents of `1 / 5` and `1 / 239`. -/
def pi (p : Nat) : Enclosure :=
  (mulInt 16 (atanSmall p (ofQuotient p 1 5))).sub (mulInt 4 (atanSmall p (ofQuotient p 1 239)))

/-! ## Reduction of the argument -/

/-- The nearest integer to the quotient of two numbers, as their lower ends give it. -/
def nearestMultiple (a unit : Enclosure) : Int :=
  Int.fdiv (2 * a.lower + unit.lower) (2 * unit.lower)

/-- The exponential, as an enclosure and a power of two to multiply it by. -/
def exp (p : Nat) (a : Enclosure) : Enclosure × Int :=
  let ln2 := ln2 p
  let k := nearestMultiple a ln2
  (expSmall p (a.sub (mulInt k ln2)), k)

/-- The natural logarithm of a positive rational. -/
def ln (p : Nat) (q : Rat) : Enclosure :=
  let k := floorLog2 q.num.natAbs q.den
  let reduced := q * Double.twoPow (-k)
  let (y, k) := if 4 / 3 < reduced then (reduced / 2, k + 1) else (reduced, k)
  (mulInt 2 (atanhSmall p (ofRat p ((y - 1) / (y + 1))))).add (mulInt k (ln2 p))

/-- The sine and the cosine of a rational at precision `p`.  The argument is brought near zero by
multiples of a right angle. -/
def sinCos (p : Nat) (q : Rat) : Enclosure × Enclosure :=
  let a := ofRat p q
  let quarter := (pi p).divNat 2
  let k := nearestMultiple a quarter
  let r := a.sub (mulInt k quarter)
  let s := sinSmall p r
  let c := cosSmall p r
  match Int.toNat (k % 4) with
  | 0 => (s, c)
  | 1 => (c, s.neg)
  | 2 => (s.neg, c.neg)
  | _ => (c.neg, s)

/-- The tangent of half the angle whose tangent is given. -/
def halveTangent? (p : Nat) (a : Enclosure) : Option Enclosure :=
  let one := ofInt p 1
  a.div? p (one.add ((one.add (a.mul p a)).sqrt p))

/-- The arctangent of a number of magnitude at most one. -/
def atanUnit? (p : Nat) (a : Enclosure) : Option Enclosure := do
  let half ← halveTangent? p a
  let quarter ← halveTangent? p half
  pure (mulInt 4 (atanSmall p quarter))

/-- The arctangent of a rational. -/
def atan? (p : Nat) (q : Rat) : Option Enclosure :=
  let quarter := (pi p).divNat 2
  if 1 < q then do
    let rest ← atanUnit? p (ofRat p (1 / q))
    pure (quarter.sub rest)
  else if q < -1 then do
    let rest ← atanUnit? p (ofRat p (1 / q))
    pure (quarter.neg.sub rest)
  else atanUnit? p (ofRat p q)

/-- The arcsine of a rational of magnitude at most one: twice the arctangent of
`q / (1 + √(1 - q²))`. -/
def asin? (p : Nat) (q : Rat) : Option Enclosure := do
  let cosine := (ofRat p (1 - q * q)).sqrt p
  let tangent ← (ofRat p q).div? p ((ofInt p 1).add cosine)
  let half ← atanUnit? p tangent
  pure (mulInt 2 half)

end Enclosure

end Stepwise
