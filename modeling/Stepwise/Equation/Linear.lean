/-
# Linear equations

The terms in `x` go to the left side and the constants to the right side; then both sides are
divided by the coefficient of `x`.
-/
import Stepwise.Answer
import Stepwise.Polynomial.Reading

namespace Stepwise.Linear

/-- The wording when there is not one equals sign. -/
def wording : String := "Invalid linear equation format. Must contain one '=' sign."

/-- A linear term and a constant as a sum. -/
def sideText (c d : Double) : String :=
  String.ofList (Polynomial.mergeSigns (c.display ++ 'x' :: ' ' :: '+' :: ' ' :: d.display))

/-- The answer of a linear equation `left.c * x + left.d = right.c * x + right.d`. -/
def answer (equation : String) (left right : Coefficients) : Answer :=
  let slope := left.c - right.c
  let constant := right.d - left.d
  let isolated := s!"{slope.text}x = {constant.text}"
  let identified := s!"{sideText left.c left.d} = {sideText right.c right.d}"
  let opening : List Step := [
    ⟨equation, "Starting with the original linear equation.", "Initial Equation"⟩,
    ⟨identified, "Identify variable ($x$) terms and constant terms on each side.",
      "Identify Terms"⟩,
    ⟨isolated, "Move all variable terms to the left side and all constant terms to the right " ++
      "side of the equation.", "Isolate Variable Term"⟩]
  if slope.isZero then
    { final := if constant.isZero then "Infinite solutions" else "No solution"
      steps := opening ++ [
        ⟨isolated, "After combining terms, the coefficient of $x$ is zero.", "Simplification"⟩] }
  else
    let solution := s!"x = {(constant / slope).text}"
    { final := solution
      steps := opening ++ [
        ⟨isolated, "Simplify both sides of the equation.", "Simplification"⟩,
        ⟨s!"x = {constant.text} / {slope.text}",
          s!"To solve for $x$, divide both sides by its coefficient, ${slope.text}$.",
          "Solve for Variable"⟩,
        ⟨solution, "The final solution for $x$.", "Final Answer"⟩] }

/-- Solves a linear equation; higher powers are not looked at. -/
def solve (equation : String) : Except Failure Answer := do
  let (left, right) ← Equation.sides wording equation.toList
  pure (answer equation (Coefficients.read left) (Coefficients.read right))

end Stepwise.Linear
