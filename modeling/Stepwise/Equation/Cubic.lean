/-
# Cubic equations

A rational root is looked for among the quotients of a divisor of the constant term and a divisor of
the leading coefficient, the smallest magnitude first.  It is divided out, and the remaining
quadratic equation is solved by its formula.

The search is written for any kind of number, so that it can be studied over exact rationals as
well as over doubles.
-/
import Stepwise.Equation.Approximation
import Stepwise.Equation.Divisors
import Stepwise.Equation.Quadratic
import Stepwise.Double.Power

namespace Stepwise.Cubic

/-- The wording when there is not one equals sign. -/
def wording : String := "Invalid equation format. It must contain one '=' sign."

/-! ## Candidates -/

/-- The quotients of a divisor of `d` and a divisor of `a` in ascending order. -/
def quotients (a d : Nat) : List (Nat × Nat) :=
  let pairs := (divisors d).flatMap fun p => (divisors a).map fun q => (p, q)
  pairs.mergeSort fun x y => x.1 * y.2 ≤ y.1 * x.2

/-- The candidates for a rational root, by ascending magnitude and the positive one first.  Zero is
the only one where the constant term is zero. -/
def candidatesOf {α : Type} [Neg α] [DecidableEq α] (ofQuotient : Nat → Nat → α) (a d : Int) :
    List α :=
  if a = 0 then []
  else if d = 0 then [ofQuotient 0 1]
  else
    let magnitudes := (quotients a.natAbs d.natAbs).map fun x => ofQuotient x.1 x.2
    magnitudes.eraseReps.flatMap fun x => [x, -x]

/-- The candidates among the doubles; coefficients that are not whole have none. -/
def candidates (a d : Double) : List Double :=
  match a.toInt?, d.toInt? with
  | some m, some n => candidatesOf (Double.roundQuotient false) m n
  | _, _ => []

/-! ## Search -/

/-- The arithmetic that the search for a root needs. -/
structure Arithmetic (α : Type) where
  add : α → α → α
  mul : α → α → α
  power : α → Nat → Except Breakdown α
  isSmall : α → Bool

/-- The value of a cubic polynomial. -/
def valueAt {α : Type} (n : Arithmetic α) (a b c d x : α) : Except Breakdown α := do
  let cube ← n.power x 3
  let square ← n.power x 2
  pure (n.add (n.add (n.add (n.mul a cube) (n.mul b square)) (n.mul c x)) d)

/-- The first candidate at which the polynomial is small. -/
def firstRoot? {α : Type} (n : Arithmetic α) (a b c d : α) :
    List α → Except Breakdown (Option α)
  | [] => .ok none
  | x :: rest =>
    match valueAt n a b c d x with
    | .error e => .error e
    | .ok value => if n.isSmall value then .ok (some x) else firstRoot? n a b c d rest

/-- The root that is divided out.  Without one the equation cannot be solved, unless its roots may
be approximated. -/
def root? {α : Type} (n : Arithmetic α) (mayApproximate : Bool) (a b c d : α)
    (candidates : List α) : Except Fault (Option α) := do
  let found ← liftBreakdown (firstRoot? n a b c d candidates)
  if found.isNone && !mayApproximate then throw (Failure.noRationalRoot : Fault)
  pure found

/-- A power of a double; one that is too large is a breakdown. -/
def doublePower (x : Double) (n : Nat) : Except Breakdown Double :=
  match x.power (Double.ofNat n) with
  | .ok y => .ok y
  | .error _ => .error .overflow

/-- The arithmetic of doubles, in which everything nearer to zero than `tolerance` is small. -/
def doubleArithmetic (tolerance : Double) : Arithmetic Double :=
  ⟨(· + ·), (· * ·), doublePower, fun x => x.abs.lt tolerance⟩

/-! ## Solution -/

/-- The steps that every cubic equation starts with. -/
def openingSteps (equation : String) (k : Coefficients) : List Step := [
  ⟨equation, "Starting with the cubic equation.", "Initial Equation"⟩,
  ⟨Quadratic.standardForm [k.a, k.b, k.c, k.d],
    "Rearrange the equation into standard form $ax^3+bx^2+cx+d=0$. " ++
      s!"Here, $a={k.a.text}$, $b={k.b.text}$, $c={k.c.text}$, $d={k.d.text}$.",
    "Standard Form"⟩,
  ⟨"x = p/q",
    "Using the Rational Root Theorem, we test potential rational roots. Potential roots are " ++
      "fractions $p/q$, where $p$ is a factor of the constant term ($d$) and $q$ is a factor " ++
      "of the leading coefficient ($a$).", "Rational Root Theorem"⟩]

/-- The approximate number with four decimal places. -/
def approximateText (x : Double) : String := s!"x \\approx {Quadratic.rootText x}"

/-- The real parts of the roots whose imaginary part is below a bound. -/
def nearlyReal (bound : Double) (roots : List Approximation.Complex) : List Double :=
  (roots.filter fun z => (Double.round false z.im).abs.lt bound).map fun z =>
    Double.round false z.re

/-- The answer with approximated roots. -/
def approximateAnswer (settings : Settings) (equation : String) (k : Coefficients) :
    Except Breakdown Answer := do
  let found ← Approximation.cubicRoots k.a k.b k.c k.d
  let roots := nearlyReal settings.numericTolerance found
  let sorted := roots.mergeSort Double.le
  let final ← Roots.text settings.displayDecimals roots settings.arrangement
  pure {
    final := final
    steps := openingSteps equation k ++ [
      ⟨String.intercalate ", " (sorted.map approximateText),
        "No rational root exists, so the real roots are approximated numerically.",
        "Numerical Root Finding"⟩] }

/-- The answer that a rational root leads to. -/
def answerFromRoot (settings : Settings) (equation : String) (k : Coefficients) (root : Double) :
    Except Fault Answer := do
  let a := k.a
  let b := k.b + root * a
  let c := k.c + root * b
  let remainder := k.d + root * c
  if settings.rootTolerance.lt remainder.abs then throw (Failure.remainderLeft : Fault)
  let quadratic := String.ofList (Polynomial.denseChars [a, b, c])
  let solution ← liftBreakdown (Quadratic.solveCoefficients a b c)
  let final ← liftBreakdown <|
    Roots.text settings.rootDecimals (root :: solution.roots) settings.arrangement
  pure {
    final := final
    steps := openingSteps equation k ++ [
      ⟨s!"f({root.text}) = 0",
        s!"By testing the potential values, we find that $x = {root.text}$ is a root of the " ++
          "equation.", "Find First Root"⟩,
      ⟨s!"(x - ({root.text}))({quadratic}) = 0",
        s!"Using synthetic division with the root $x = {root.text}$, we can factor the original " ++
          s!"polynomial. We are left with solving the quadratic equation: ${quadratic} = 0$.",
        "Synthetic Division"⟩]
      ++ solution.steps }

/-- Solves an equation whose cubic term is not zero from the outcome of the search for a rational
root. -/
def solveFrom (settings : Settings) (equation : String) (k : Coefficients)
    (search : Except Fault (Option Double)) : Traced Answer := do
  match ← Traced.ofExcept search with
  | some root => Traced.ofExcept (answerFromRoot settings equation k root)
  | none => do
    Traced.log (.approximating equation)
    Traced.ofBreakdown (approximateAnswer settings equation k)

/-- Solves an equation whose cubic term is not zero. -/
def solveWithCube (settings : Settings) (equation : String) (k : Coefficients) :
    Traced Answer :=
  solveFrom settings equation k <|
    root? (doubleArithmetic settings.rootTolerance) settings.numericFallback k.a k.b k.c k.d
      (candidates k.a k.d)

/-- Solves a cubic equation; one without a cubic term is solved as a quadratic equation. -/
def solve (settings : Settings) (equation : String) : Traced Answer := do
  let k ← Traced.ofFailure (Equation.netCoefficients wording equation.toList)
  if k.a.isZero then do
    Traced.log (.toQuadratic equation)
    Quadratic.solveWithoutCube settings equation k
  else solveWithCube settings equation k

end Stepwise.Cubic

namespace Stepwise.Quadratic

/-- Solves a quadratic equation; one with a cubic term is solved as a cubic equation. -/
def solve (settings : Settings) (equation : String) : Traced Answer := do
  let k ← Traced.ofFailure (Equation.netCoefficients wording equation.toList)
  if k.a.isZero then solveWithoutCube settings equation k
  else do
    Traced.log (.toCubic equation)
    Cubic.solveWithCube settings equation k

end Stepwise.Quadratic
