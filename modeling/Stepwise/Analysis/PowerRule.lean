/-
# Derivatives and antiderivatives of polynomials

Both go term by term by the power rule.  The coefficients of an antiderivative are rounded for
display.  Terms that become zero are left out of the answer, but their steps are shown.
-/
import Stepwise.Answer
import Stepwise.Analysis.Call
import Stepwise.Decimal.Rounding
import Stepwise.Polynomial.Reading
import Stepwise.Settings

namespace Stepwise

/-- The text of a term. -/
def Term.text (t : Term) : String := String.ofList t.chars

/-! ## Derivatives -/

namespace Derivative

/-- The derivative of a term that is not a constant. -/
def ofTerm (t : Term) : Term := ⟨t.coefficient * t.power, t.power - 1⟩

/-- The step that shows the derivative of a term. -/
def step (t : Term) : Step :=
  let k := t.coefficient.text
  if t.power.isZero then
    ⟨s!"d/dx({k}) = 0", s!"The derivative of a constant (${k}$) is 0.", "Constant Rule"⟩
  else
    let n := t.power.text
    let u := ofTerm t
    ⟨s!"d/dx({t.text}) = {u.text}",
      "Apply the power rule ($d/dx(ax^n) = anx^\x7bn-1\x7d$) to the term " ++
        s!"${k}x^{n}$. The new coefficient is ${k} \\cdot {n} = {u.coefficient.text}$ and the " ++
        s!"new power is ${n} - 1 = {u.power.text}$.",
      "Power Rule"⟩

/-- The derivative of a term as it appears in the answer, if it does. -/
def shownTerm? (t : Term) : Option (List Char) :=
  if t.power.isZero then none
  else
    let u := ofTerm t
    if u.coefficient.isZero then none else some u.chars

/-- Solves a derivative. -/
def solve (problem : String) : Except Failure Answer :=
  match Call.derivative? problem.toList with
  | none => .error .notDerivative
  | some inner =>
    let terms := Polynomial.readTerms inner
    let final := String.ofList (Polynomial.writeSum (terms.filterMap shownTerm?))
    .ok {
      final := final
      steps := [
        ⟨problem, "Starting with the derivative expression.", "Initial Expression"⟩,
        ⟨String.ofList inner, "Identify the expression to differentiate with respect to $x$.",
          "Isolate Expression"⟩]
        ++ terms.map step ++ [
        ⟨final, "Combine the derivatives of each term to get the final result.",
          "Sum Rule / Final Answer"⟩] }

end Derivative

/-! ## Antiderivatives -/

namespace Antiderivative

/-- The antiderivative of a term, its coefficient rounded; a division by a power of zero breaks
down. -/
def ofTerm (places : Int) (t : Term) : Except Breakdown Term := do
  let power := t.power + 1
  if power.isZero then throw .zeroDivision
  let coefficient ← (t.coefficient / power).roundForDisplay places
  pure ⟨coefficient, power⟩

/-- The step that shows the antiderivative `u` of a term. -/
def step (t u : Term) : Step :=
  let k := t.coefficient.text
  let n := t.power.text
  ⟨s!"∫{k}x^{n} dx = {u.text}",
    "Apply the reverse power rule ($∫ax^n dx = (a/(n+1))x^\x7bn+1\x7d$) to the term " ++
      s!"${k}x^{n}$. The new coefficient is ${k} / {u.power.text} = {u.coefficient.text}$ and " ++
      s!"the new power is ${n} + 1 = {u.power.text}$.",
    "Reverse Power Rule"⟩

/-- Solves an indefinite integral. -/
def solve (settings : Settings) (problem : String) : Except Fault Answer :=
  match Call.integral? problem.toList with
  | none => .error (.failure .notIntegral)
  | some inner => do
    let terms := Polynomial.readTerms inner
    let integrals ← liftBreakdown (terms.mapM (ofTerm settings.displayDecimals))
    let shown := integrals.filter fun u => !u.coefficient.isZero
    let final := String.ofList (Polynomial.writeSum (shown.map Term.chars)) ++ " + C"
    pure {
      final := final
      steps := [
        ⟨problem, "Starting with the indefinite integral expression.", "Initial Expression"⟩,
        ⟨s!"∫({String.ofList inner}) dx",
          "Identify the expression to integrate with respect to $x$.", "Isolate Expression"⟩]
        ++ List.zipWith step terms integrals ++ [
        ⟨final, "Combine the integrals of each term and add the constant of integration, $C$, " ++
          "to represent all possible antiderivatives.", "Add Constant of Integration"⟩] }

end Antiderivative

end Stepwise
