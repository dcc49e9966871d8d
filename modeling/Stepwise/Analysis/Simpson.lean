/-
# Simpson's rule

The composite rule over equal subintervals: samples at the ends count once, those at odd places four
times and the others twice.  Points and sum are written for any kind of number, so that the rule can
be studied over exact rationals as well as over doubles.
-/

namespace Stepwise.Simpson

/-- The list with a value put at every `step`-th place from `start` on, but not at the last one. -/
def fillInner (start step value : Nat) (xs : List Nat) : List Nat :=
  let last := xs.length - 1
  xs.mapIdx fun i x => if start ≤ i ∧ i < last ∧ (i - start) % step = 0 then value else x

/-- The weights of all samples, of `n` subintervals: ones at first, then fours at every other inner
place from the first inner one on, then twos at every other inner place from the next one on. -/
def weights (n : Nat) : List Nat :=
  fillInner 2 2 2 (fillInner 1 2 4 (List.replicate (n + 1) 1))

variable {α : Type} [Add α] [Sub α] [Mul α] [Div α]

/-- The sample points from `a` to `b`; the last one is `b` itself, and a step that vanishes is not
multiplied. -/
def points (ofNat : Nat → α) (isZero : α → Bool) (a b : α) (n : Nat) : List α :=
  let step := (b - a) / ofNat n
  (List.range (n + 1)).map fun i =>
    if i = n ∧ 0 < n then b
    else if isZero step then ofNat i / ofNat n * (b - a) + a
    else ofNat i * step + a

/-- The weighted sum of samples. -/
def weightedSum (ofNat : Nat → α) (n : Nat) (samples : List α) : α :=
  (List.zipWith (fun w x => ofNat w * x) (weights n) samples).foldl (· + ·) (ofNat 0)

/-- The rule's approximation of the integral from the samples. -/
def integral (ofNat : Nat → α) (a b : α) (n : Nat) (samples : List α) : α :=
  (b - a) / ofNat n / ofNat 3 * weightedSum ofNat n samples

end Stepwise.Simpson
