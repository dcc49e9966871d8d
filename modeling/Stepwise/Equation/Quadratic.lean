/-
# Quadratic equations

The discriminant tells how many real roots there are, and the quadratic formula gives them.  A
division by twice the leading coefficient breaks down where that is zero.

The formula raises the discriminant to the power of one half.  Powers are taken to be correctly
rounded, and this one is the rounded square root.
-/
import Stepwise.Equation.Linear
import Stepwise.Equation.Roots
import Stepwise.Log.Traced
import Stepwise.Settings

namespace Stepwise.Quadratic

/-- The wording when there is not one equals sign. -/
def wording : String := "Invalid quadratic equation format. It must contain one '=' sign."

/-- The real roots in the order of the formula, with the steps that lead to them. -/
structure Solution where
  roots : List Double
  steps : List Step

/-- The answer when there is no real root. -/
def noRoots : String := "No real solutions"

/-- The message that goes with roots; none if there are some. -/
def Solution.message (s : Solution) : Option String :=
  if s.roots.isEmpty then some noRoots else none

/-- The quotient, unless the divisor is zero. -/
def divide (x y : Double) : Except Breakdown Double :=
  if y.isZero then .error .zeroDivision else .ok (x / y)

/-- The number with four decimal places. -/
def rootText (x : Double) : String := String.ofList (x.fixed 4)

/-- The discriminant. -/
def discriminant (a b c : Double) : Double := b * b - 4 * a * c

/-- The step that shows the discriminant. -/
def discriminantStep (a b c : Double) : Step :=
  ⟨s!"D = b^2 - 4ac = ({b.text})^2 - 4({a.text})({c.text}) = {(discriminant a b c).text}",
    "Calculate the discriminant ($D = b^2 - 4ac$) to determine the number of real solutions.",
    "Calculate Discriminant"⟩

/-- Solves `a * x ^ 2 + b * x + c = 0`. -/
def solveCoefficients (a b c : Double) : Except Breakdown Solution := do
  let d := discriminant a b c
  let first := discriminantStep a b c
  if Double.lt 0 d then
    let root := d.sqrt
    let x ← divide (-b + root) (2 * a)
    let y ← divide (-b - root) (2 * a)
    pure ⟨[x, y], [
      first,
      ⟨"x = (-b ± \\sqrt\x7bD\x7d) / 2a",
        "Since the discriminant is positive, there are two distinct real roots. " ++
          "We apply the quadratic formula.", "Quadratic Formula"⟩,
      ⟨s!"x_1 = {rootText x}, x_2 = {rootText y}", "Calculate the final roots for $x$.",
        "Calculate Roots"⟩]⟩
  else if d.isZero then
    let x ← divide (-b) (2 * a)
    pure ⟨[x], [
      first,
      ⟨"x = -b / 2a", "Since the discriminant is zero, there is exactly one real root.",
        "Quadratic Formula (One Root)"⟩,
      ⟨s!"x = {rootText x}", "Calculate the final root for $x$.", "Calculate Root"⟩]⟩
  else
    pure ⟨[], [
      first,
      ⟨"D < 0", "Since the discriminant is negative, there are no real roots. " ++
        "The solutions are complex numbers.", "No Real Roots"⟩]⟩

/-- Coefficients from the highest power down, as an equation with zero. -/
def standardForm (coefficients : List Double) : String :=
  String.ofList (Polynomial.denseChars coefficients) ++ " = 0"

/-- The answer of a quadratic equation with given coefficients, of which the first is not zero. -/
def answer (settings : Settings) (equation : String) (a b c : Double) :
    Except Breakdown Answer := do
  let solution ← solveCoefficients a b c
  let final ←
    if solution.roots.isEmpty then pure noRoots
    else Roots.text settings.displayDecimals solution.roots settings.arrangement
  pure {
    final := final
    steps := [
      ⟨equation, "Starting with the quadratic equation.", "Initial Equation"⟩,
      ⟨standardForm [a, b, c],
        "Rearrange the equation into the standard form $ax^2 + bx + c = 0$. " ++
          s!"Here, $a={a.text}$, $b={b.text}$, and $c={c.text}$.", "Standard Form"⟩]
      ++ solution.steps }

/-- Solves an equation without a cubic term. -/
def solveWithoutCube (settings : Settings) (equation : String) (k : Coefficients) :
    Traced Answer :=
  if k.b.isZero then do
    Traced.log (.toLinear equation)
    Traced.ofFailure (Linear.solve equation)
  else Traced.ofBreakdown (answer settings equation k.b k.c k.d)

end Stepwise.Quadratic
