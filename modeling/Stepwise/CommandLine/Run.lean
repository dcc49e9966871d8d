/-
# Runs of the command line

What a run prints, its exit code and the records it logs.  A run solves one problem, tells whether a
problem looks solvable, or solves the problems of its standard input, one a line.
-/
import Stepwise.CommandLine.Arguments
import Stepwise.Problem.Solve
import Stepwise.Session

namespace Stepwise.CommandLine

/-- What a run leaves behind. -/
structure Outcome where
  exitCode : Nat
  output : String := ""
  events : List Event := []

namespace Outcome

/-- One run after another: the exit code is the greater one. -/
def append (a b : Outcome) : Outcome :=
  ⟨max a.exitCode b.exitCode, a.output ++ b.output, a.events ++ b.events⟩

end Outcome

/-- Solves one problem and prints its answer or its error. -/
def solveOne (settings : Settings) (format : Answer.Format) (problem : String) : Outcome :=
  let result := Problem.solve settings problem
  { exitCode := match result.outcome with | .ok _ => 0 | .error _ => 1
    output := (Problem.answerOrError result.outcome).print format
    events := result.events }

/-- Tells whether a problem looks solvable. -/
def checkOne (format : Answer.Format) (problem : String) : Outcome :=
  let solvable := Problem.looksSolvable problem.toList
  let output :=
    match format, solvable with
    | .json, true => "\x7b\"offline\": true\x7d\n"
    | .json, false => "\x7b\"offline\": false\x7d\n"
    | .human, true => "offline\n"
    | .human, false => "online\n"
  { exitCode := if solvable then 0 else 1, output := output }

/-- The text with a line feed for every line break: for a carriage return, and for a carriage return
and the line feed after it.  Standard input is read in this way. -/
def lineFeeds : List Char → List Char
  | [] => []
  | '\r' :: '\n' :: s => '\n' :: lineFeeds s
  | c :: s => (if c = '\r' then '\n' else c) :: lineFeeds s

/-- The lines of a text whose line breaks are line feeds, each with its line break. -/
def inputLines : List Char → List (List Char)
  | [] => []
  | c :: s =>
    if c = '\n' then [c] :: inputLines s
    else
      match inputLines s with
      | line :: lines => (c :: line) :: lines
      | [] => [[c]]

/-- Solves the problems of a text, one a line; blank lines are passed over. -/
def solveLines (settings : Settings) (format : Answer.Format) (input : String) : Outcome :=
  let problems := (inputLines input.toList).filter fun line => !line.all Text.isBlank
  problems.foldl
    (fun total line => total.append (solveOne settings format (String.ofList line)))
    { exitCode := 0 }

/-- Does what the options ask for. -/
def perform (settings : Settings) (o : Options) (input : String) : Outcome :=
  if o.version then { exitCode := 0, output := Settings.version ++ "\n" }
  else
    match o.check, o.eval with
    | some problem, _ => checkOne o.format problem
    | none, some problem => solveOne settings o.format problem
    | none, none => solveLines settings o.format input

/-- The session in which the options are carried out. -/
def prepare (session : Session) (o : Options) : Session :=
  let toFile := match o.logFile with | some path => !path.isEmpty | none => false
  let session := session.startLogging o.logLevel toFile
  if o.numericFallback then session.allowApproximation else session

/-- The text shown when help is asked for. -/
def helpText : String := String.intercalate "\n" [
  "usage: stepsolve [-h] [-e EVAL_EXPR] [--check CHECK] [--format \x7bjson,human\x7d]",
  "                 [--numeric-fallback] [-v]",
  "                 [--log-level \x7bDEBUG,INFO,WARNING,ERROR\x7d]",
  "                 [--log-file LOG_FILE]",
  "",
  "options:",
  "  -h, --help            show this help message and exit",
  "  -e EVAL_EXPR, --eval EVAL_EXPR",
  "                        Solve one problem and exit (non-interactive)",
  "  --check CHECK         Report whether a problem can be solved offline (exit 0",
  "                        if yes)",
  "  --format \x7bjson,human\x7d",
  "                        Output format: json (machine-readable) or human",
  "                        (human-readable)",
  "  --numeric-fallback    Approximate cubic roots numerically when no rational",
  "                        root exists",
  "  -v, --version         Show program version",
  "  --log-level \x7bDEBUG,INFO,WARNING,ERROR\x7d",
  "                        Set logging level (default: STEPSOLVE_LOG_LEVEL or",
  "                        WARNING)",
  "  --log-file LOG_FILE   Write logs to file",
  ""]

/-- What a run leaves behind, with the records kept and where they go. -/
structure Report where
  exitCode : Nat
  output : String := ""
  records : List Record := []
  logFile : Option String := none

/-- Runs the command line in a session, which only usable arguments change. -/
def run (session : Session) (arguments : List String) (input : String) : Session × Report :=
  match Request.ofArguments arguments with
  | .badUsage => (session, { exitCode := 2 })
  | .help => (session, { exitCode := 0, output := helpText })
  | .run o =>
    let session := prepare session o
    let outcome := perform session.settings o input
    (session,
      { exitCode := outcome.exitCode
        output := outcome.output
        records := session.records outcome.events
        logFile := o.logFile })

end Stepwise.CommandLine
