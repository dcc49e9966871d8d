/-
# Log records

What is worth noting while a problem is solved, as data, and the record that each event becomes.
-/
import Stepwise.Failure
import Stepwise.Text.Quoted

namespace Stepwise

/-! ## Levels -/

/-- How serious a record is. -/
inductive Level where
  | notSet | debug | info | warning | error | critical
  deriving DecidableEq

namespace Level

/-- The rank of a level. -/
def rank : Level → Nat
  | notSet => 0
  | debug => 10
  | info => 20
  | warning => 30
  | error => 40
  | critical => 50

/-- The name of a level in a record. -/
def name : Level → String
  | notSet => "NOTSET"
  | debug => "DEBUG"
  | info => "INFO"
  | warning => "WARNING"
  | error => "ERROR"
  | critical => "CRITICAL"

/-- The capital letter of a character, for the letters that level names consist of. -/
def upperChar (c : Char) : Char :=
  if c = '\u0131' then 'I' else if c = '\u017f' then 'S' else c.toUpper

/-- The level of a given name, in any case; other names mean warnings. -/
def ofName (name : String) : Level :=
  match String.ofList (name.toList.map upperChar) with
  | "NOTSET" => notSet
  | "DEBUG" => debug
  | "INFO" => info
  | "ERROR" => error
  | "CRITICAL" | "FATAL" => critical
  | _ => warning

end Level

/-! ## Records and events -/

/-- A log record. -/
structure Record where
  level : Level
  logger : String
  message : String
  solver : Option String := none
  problem : Option String := none

/-- The text between quotes. -/
def quote (s : String) : String := String.ofList (Text.quoted s.toList)

/-- What is worth noting. -/
inductive Event where
  /-- An arithmetic text has been evaluated. -/
  | evaluated (text : String) (value : Double) (steps : Nat)
  /-- A sample of an integrand cannot be evaluated. -/
  | notEvaluable (text : String) (failure : Failure)
  /-- A quadratic equation turned out to be cubic. -/
  | toCubic (equation : String)
  /-- A cubic equation turned out to have a lower degree. -/
  | toQuadratic (equation : String)
  /-- A quadratic equation turned out to be linear. -/
  | toLinear (equation : String)
  /-- The roots of a cubic equation are approximated. -/
  | approximating (equation : String)
  /-- A problem is handed to a solver. -/
  | dispatching (solver problem : String)
  /-- A solver broke down. -/
  | brokeDown (solver problem : String)

/-- The record of an event.  What the machine says about a breakdown, after the message, and the
calls that led to it are left out. -/
def Event.record : Event → Record
  | evaluated text value steps =>
    { level := .debug, logger := "stepsolve.evaluator"
      message := s!"Evaluated {quote text} to {String.ofList value.repr} in {steps} steps" }
  | notEvaluable text failure =>
    { level := .debug, logger := "stepsolve.calculus"
      message := s!"Could not evaluate {quote text}: {failure.message}" }
  | toCubic equation =>
    { level := .debug, logger := "stepsolve.solver"
      message := s!"Cubic term present, delegating {quote equation} to cubic solver" }
  | toQuadratic equation =>
    { level := .debug, logger := "stepsolve.solver"
      message := s!"No x^3 term, delegating {quote equation} to quadratic solver" }
  | toLinear equation =>
    { level := .debug, logger := "stepsolve.solver"
      message := s!"No x^2 term, delegating {quote equation} to linear solver" }
  | approximating equation =>
    { level := .debug, logger := "stepsolve.solver"
      message := "No rational root, using numeric fallback"
      solver := some "cubic", problem := some equation }
  | dispatching solver problem =>
    { level := .debug, logger := "stepsolve.api", message := "Dispatching problem"
      solver := some solver, problem := some problem }
  | brokeDown solver problem =>
    { level := .error, logger := "stepsolve.api", message := "Unexpected solver error"
      solver := some solver, problem := some problem }

end Stepwise
