/-
# Solving a problem

A problem is brought into its normal form, checked for balanced parentheses, classified and handed
to the solver of its kind.  A breakdown of a solver becomes a failure, so that a whole problem ends
in an answer or in a failure with a message.
-/
import Stepwise.Analysis.Definite
import Stepwise.Analysis.PowerRule
import Stepwise.Equation.Cubic
import Stepwise.Problem.Input
import Stepwise.Problem.Parentheses
import Stepwise.Problem.Glossary

namespace Stepwise.Problem

/-- Solves a problem of a known kind. -/
def Kind.solve (settings : Settings) (kind : Kind) (problem : String) : Traced Answer :=
  match kind with
  | .definiteIntegral => Definite.solve settings problem
  | .indefiniteIntegral => Traced.ofExcept (Antiderivative.solve settings problem)
  | .derivative => Traced.ofFailure (Derivative.solve problem)
  | .cubic => Cubic.solve settings problem
  | .quadratic => Quadratic.solve settings problem
  | .linear => Traced.ofFailure (Linear.solve problem)
  | .arithmetic => Arithmetic.solve settings problem

/-- Solves a problem of a known kind, taking a breakdown for a failure. -/
def Kind.solveOrFail (settings : Settings) (kind : Kind) (problem : String) : Traced Answer :=
  let result := kind.solve settings problem
  match result.outcome with
  | .error (.breakdown _) =>
    ⟨result.events ++ [.brokeDown kind.name problem], .error (.failure .unsolvable)⟩
  | _ => result

/-- The failure of a text whose parentheses are not balanced. -/
def checkBalance (s : List Char) : Except Failure Unit :=
  match Parentheses.unmatched? s with
  | some position => .error (.unmatchedAt position)
  | none => .ok ()

/-- Solves a problem. -/
def solve (settings : Settings) (text : String) : Traced Answer := do
  let accepted ← Traced.ofFailure (accept settings text.toList)
  Traced.ofFailure (checkBalance accepted)
  let stated := asEquation accepted
  let kind := classify stated
  let problem := String.ofList stated
  Traced.log (.dispatching kind.name problem)
  let answer ← kind.solveOrFail settings problem
  pure { answer with symbols := Glossary.ofProblem accepted }

/-- The message of a fault; a breakdown has that of an unsolvable problem. -/
def faultMessage : Fault → String
  | .failure f => f.message
  | .breakdown _ => Failure.unsolvable.message

/-- The answer, or an answer that consists of an error message. -/
def answerOrError (outcome : Except Fault Answer) : Answer :=
  match outcome with
  | .ok answer => answer
  | .error fault => { final := "", error := some (faultMessage fault) }

/-- Solves a problem, with an error message for a failure. -/
def reply (settings : Settings) (text : String) : Answer :=
  answerOrError (solve settings text).outcome

end Stepwise.Problem
