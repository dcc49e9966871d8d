/-
# Steps of a derivation

The wording of reductions, and the steps shown for an arithmetic problem.  The first step shows the
problem as it was written; a last step with the bare result is added only where the step before it
does not show it already, and a problem that is its own answer has no steps at all.
-/
import Stepwise.Answer
import Stepwise.Derivation.Basic
import Stepwise.Expr.Operations
import Stepwise.Expr.Reading
import Stepwise.Expr.Text
import Stepwise.Log.Traced
import Stepwise.Settings
import Stepwise.Text.Lowercase

namespace Stepwise

/-! ## Wording -/

namespace Reduction

/-- The explanation of a reduction. -/
def explanation : Reduction → String
  | constants =>
    "Substitute mathematical constants like $\\pi$ and $e$ with their numerical values."
  | percentages =>
    "Convert percentage values to their decimal equivalents (e.g., $50\\% \\rightarrow 0.5$)."
  | argument f inner =>
    s!"Evaluate the expression inside the {f.name} function: ${inner.text}$"
  | call f x result => f.explain x result
  | group inner result =>
    s!"First, solve the expression inside the parentheses: ${inner.text} = {result.text}$"
  | fold title op left right result =>
    s!"Perform {String.ofList (Text.lower title.toList)}: " ++
      s!"${left.text} {op.symbol} {right.text} = {result.text}$"

/-- The rule of a reduction. -/
def rule : Reduction → String
  | constants => "Constant Substitution"
  | percentages => "Percentage Conversion"
  | argument .. => "Function Argument"
  | call f _ _ => f.rule
  | group .. => "Parentheses (Brackets)"
  | fold title .. => title

end Reduction

/-- The step that shows a reduction and the expression after it. -/
def Entry.step (entry : Entry) : Step :=
  ⟨entry.tree.text, entry.reduction.explanation, entry.reduction.rule⟩

/-- The step that shows the problem. -/
def initialStep (text : String) : Step := ⟨text, "Starting expression.", "Initial Expression"⟩

/-- The step that shows the bare result. -/
def resultStep (text : String) : Step := ⟨text, "The final simplified answer.", "Final Answer"⟩

/-- The steps with the bare result added, unless the last one shows it. -/
def withResult (text : String) (steps : List Step) : List Step :=
  match steps.getLast? with
  | some last => if last.expression = text then steps else steps ++ [resultStep text]
  | none => [resultStep text]

/-- The steps shown for a problem text and its reductions. -/
def Reduced.steps (text : String) (r : Reduced) : List Step :=
  if Text.trim text.toList = r.value.display then []
  else withResult r.value.text (initialStep text :: r.trace.map Entry.step)

/-! ## Arithmetic problems -/

namespace Arithmetic

/-- The derivation of an arithmetic text. -/
def reduce (settings : Settings) (s : List Char) : Except Failure Reduced := do
  let e ← Expr.ofChars s
  e.reduce (standardOperations settings.maxFactorial)

/-- The value of an arithmetic text. -/
def value (settings : Settings) (s : List Char) : Except Failure Double :=
  (reduce settings s).map Reduced.value

/-- Solves an arithmetic problem. -/
def solve (settings : Settings) (text : String) : Traced Answer := do
  let r ← Traced.ofFailure (reduce settings text.toList)
  let steps := r.steps text
  Traced.log (.evaluated text r.value steps.length)
  pure { final := r.value.text, steps := steps }

end Arithmetic

end Stepwise
