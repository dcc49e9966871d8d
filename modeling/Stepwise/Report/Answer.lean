/-
# Reports of answers

An answer as lines for a reader, as a document for a program, and as a one-line summary.
-/
import Stepwise.Answer
import Stepwise.Log.Record
import Stepwise.Report.Document

namespace Stepwise

/-! ## Documents -/

/-- The fields of a step. -/
def Step.document (s : Step) : Document :=
  .object [("expression", .text s.expression), ("explanation", .text s.explanation),
    ("rule", .text s.rule)]

/-- The fields of a glossary entry. -/
def GlossaryEntry.document (s : GlossaryEntry) : Document :=
  .object [("symbol", .text s.symbol), ("name", .text s.name), ("meaning", .text s.meaning)]

/-- A field that is left out where there is no text. -/
def optionalField (name : String) : Option String → List (String × Document)
  | some value => [(name, .text value)]
  | none => []

namespace Answer

/-- The fields of an answer. -/
def document (a : Answer) : Document :=
  .object <|
    [("finalAnswer", .text a.final), ("steps", .list (a.steps.map Step.document)),
      ("symbols", .list (a.symbols.map GlossaryEntry.document))]
    ++ optionalField "detectedEquation" a.detectedEquation
    ++ optionalField "error" a.error

/-! ## Lines for a reader -/

/-- The lines of the steps, numbered from a first number on. -/
def stepLines (first : Nat) : List Step → List String
  | [] => []
  | step :: steps =>
    s!"  {first}. [{step.rule}] {step.expression}" :: s!"     {step.explanation}"
      :: stepLines (first + 1) steps

/-- The line of a glossary entry. -/
def symbolLine (s : GlossaryEntry) : String := s!"  {s.symbol}  {s.name}: {s.meaning}"

/-- The lines shown for an answer. -/
def lines (a : Answer) : List String :=
  match a.error with
  | some error => [s!"Error: {error}"]
  | none =>
    s!"Answer: {a.final}" :: stepLines 1 a.steps ++
      (if a.symbols.isEmpty then [] else "Symbols:" :: a.symbols.map symbolLine)

/-- How an answer is printed. -/
inductive Format where
  | human
  | json
  deriving DecidableEq

/-- The printed answer. -/
def print (format : Format) (a : Answer) : String :=
  match format with
  | .json => a.document.render 0 ++ "\n"
  | .human => String.join (a.lines.map (· ++ "\n"))

/-- The format of a given name; every name but one means lines. -/
def Format.ofName (name : String) : Format := if name = "json" then json else human

/-! ## Summary -/

/-- A summary in one line. -/
def summary (a : Answer) : String :=
  match a.error with
  | some error => s!"CalculationResponse(error={quote error})"
  | none =>
    s!"CalculationResponse(final_answer={quote a.final}, steps={a.steps.length}, " ++
      s!"symbols={a.symbols.length})"

end Answer

end Stepwise
