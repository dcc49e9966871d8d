/-
# Command line arguments

Options have a long name, which may be shortened as long as it stays unique, and some a short one.
A value follows as the next argument or after an equals sign, and short options may share one dash.
There are no arguments besides options and their values.

An argument with a dash in front counts as a value only if it looks like a negative number or holds
a blank.
-/
import Stepwise.Report.Answer
import Stepwise.Text.Basic

namespace Stepwise.CommandLine

/-! ## Options -/

/-- The options. -/
inductive Flag where
  | help | eval | check | format | numericFallback | version | logLevel | logFile
  deriving DecidableEq

namespace Flag

/-- The names of all options, with their dashes. -/
def names : List (String × Flag) := [
  ("-h", help), ("--help", help), ("-e", eval), ("--eval", eval), ("--check", check),
  ("--format", format), ("--numeric-fallback", numericFallback), ("-v", version),
  ("--version", version), ("--log-level", logLevel), ("--log-file", logFile)]

/-- The option of an exact name. -/
def named? (name : List Char) : Option Flag :=
  (names.find? fun entry => entry.1.toList == name).map Prod.snd

/-- Whether a value belongs to an option. -/
def takesValue : Flag → Bool
  | help | numericFallback | version => false
  | eval | check | format | logLevel | logFile => true

/-- The values that an option can have; any, if none are listed. -/
def choices : Flag → List String
  | format => ["json", "human"]
  | logLevel => ["DEBUG", "INFO", "WARNING", "ERROR"]
  | _ => []

/-- Whether an option can have a value. -/
def accepts (flag : Flag) (value : String) : Bool :=
  flag.choices.isEmpty || flag.choices.contains value

end Flag

/-- What the arguments ask for. -/
structure Options where
  eval : Option String := none
  check : Option String := none
  format : Answer.Format := .human
  numericFallback : Bool := false
  version : Bool := false
  logLevel : Option String := none
  logFile : Option String := none

/-- The options with one more set. -/
def Options.set (o : Options) (flag : Flag) (value : String) : Options :=
  match flag with
  | .help => o
  | .eval => { o with eval := some value }
  | .check => { o with check := some value }
  | .format => { o with format := Answer.Format.ofName value }
  | .numericFallback => { o with numericFallback := true }
  | .version => { o with version := true }
  | .logLevel => { o with logLevel := some value }
  | .logFile => { o with logFile := some value }

/-! ## Classes of arguments -/

/-- A value inside an option's own argument; `marked` if an equals sign stands before it. -/
structure Attached where
  marked : Bool
  value : List Char

/-- What an argument is. -/
inductive Argument where
  /-- A value, or something left over. -/
  | plain (text : String)
  /-- An option; `short` if it has a single dash. -/
  | option (flag : Flag) (short : Bool) (attached : Option Attached)
  /-- A dash before a name that no option has. -/
  | unknown
  /-- The shortened name of more than one option. -/
  | ambiguous
  /-- The end of the options. -/
  | terminator

/-- A minus sign before digits, possibly with a point; a last line break is overlooked. -/
def isNegativeNumber (s : List Char) : Bool :=
  let digits := if s.getLast? = some '\n' then s.dropLast else s
  match digits with
  | '-' :: rest =>
    match rest.dropWhile Text.isDigit with
    | [] => !rest.isEmpty
    | '.' :: fraction => !fraction.isEmpty && fraction.all Text.isDigit
    | _ => false
  | _ => false

/-- An equals sign and the text after it, as an attached value. -/
def attachedAfterEquals (s : List Char) : Option Attached :=
  if s.contains '=' then some ⟨true, (Text.partitionAt '=' s).2⟩ else none

/-- The class of an argument with a dash in front that is not the exact name of an option. -/
def classifyDashed (s : List Char) : Argument :=
  let (before, _) := Text.partitionAt '=' s
  let isShort := s.take 2 != ['-', '-']
  match if s.contains '=' then Flag.named? before else none with
  | some flag => .option flag isShort (attachedAfterEquals s)
  | none =>
    let fallback : Argument :=
      if isNegativeNumber s || s.contains ' ' then .plain (String.ofList s) else .unknown
    if isShort then
      match Flag.named? (s.take 2) with
      | some flag => .option flag true (some ⟨false, s.drop 2⟩)
      | none => fallback
    else
      match Flag.names.filter fun entry => before.isPrefixOf entry.1.toList with
      | [] => fallback
      | [entry] => .option entry.2 false (attachedAfterEquals s)
      | _ => .ambiguous

/-- The class of an argument before the end of the options. -/
def classify (text : String) : Argument :=
  let s := text.toList
  if s = ['-', '-'] then .terminator
  else if s.head? ≠ some '-' ∨ s = ['-'] then .plain text
  else
    match Flag.named? s with
    | some flag => .option flag (s.take 2 != ['-', '-']) none
    | none => classifyDashed s

/-- The classes of arguments; after the end of the options all are plain. -/
def classifyAll : List String → List Argument
  | [] => []
  | text :: rest =>
    match classify text with
    | .terminator => .terminator :: rest.map .plain
    | argument => argument :: classifyAll rest

/-! ## Reading -/

/-- What reading the arguments ends in. -/
inductive Request where
  | run (options : Options)
  | help
  | badUsage

/-- What one argument amounts to: options to set, and what is still open. -/
inductive Cluster where
  /-- All is set. -/
  | complete (settings : List (Flag × String))
  /-- The last option needs the next argument. -/
  | needsValue (settings : List (Flag × String)) (flag : Flag)
  /-- A letter is no option. -/
  | leftOver (settings : List (Flag × String))
  | bad

/-- Reads options that share a dash: `tail` is what follows the letter of `flag`. -/
def readCluster (settings : List (Flag × String)) (flag : Flag) (marked : Bool) :
    List Char → Cluster
  | [] => if flag.takesValue then .complete (settings ++ [(flag, "")]) else .bad
  | c :: tail =>
    if flag.takesValue then .complete (settings ++ [(flag, String.ofList (c :: tail))])
    else if marked || c = '-' then .bad
    else
      let settings := settings ++ [(flag, "")]
      match Flag.named? ['-', c] with
      | none => .leftOver settings
      | some next =>
        match tail with
        | [] => if next.takesValue then .needsValue settings next
                else .complete (settings ++ [(next, "")])
        | '=' :: value =>
          if next.takesValue then .complete (settings ++ [(next, String.ofList value)]) else .bad
        | tail => readCluster settings next false tail

/-- Reads the argument of an option. -/
def readOption (flag : Flag) (short : Bool) : Option Attached → Cluster
  | none => if flag.takesValue then .needsValue [] flag else .complete [(flag, "")]
  | some attached =>
    if short then readCluster [] flag attached.marked attached.value
    else if flag.takesValue then .complete [(flag, String.ofList attached.value)]
    else .bad

/-- Sets options one after the other; a request for help or a bad value ends it. -/
def applyAll (o : Options) : List (Flag × String) → Except Request Options
  | [] => .ok o
  | (flag, value) :: rest =>
    if flag = .help then .error .help
    else if flag.accepts value then applyAll (o.set flag value) rest
    else .error .badUsage

/-- Reads classified arguments; `clean` as long as nothing is left over. -/
def readFrom (o : Options) (clean : Bool) : List Argument → Request
  | [] => if clean then .run o else .badUsage
  | .terminator :: _ => .badUsage
  | .plain _ :: rest => readFrom o false rest
  | .unknown :: rest => readFrom o false rest
  | .ambiguous :: _ => .badUsage
  | .option flag short attached :: rest =>
    match readOption flag short attached with
    | .bad => .badUsage
    | .complete settings =>
      match applyAll o settings with
      | .error request => request
      | .ok o => readFrom o clean rest
    | .leftOver settings =>
      match applyAll o settings with
      | .error request => request
      | .ok o => readFrom o false rest
    | .needsValue settings flag =>
      match rest with
      | .plain value :: rest =>
        match applyAll o (settings ++ [(flag, value)]) with
        | .error request => request
        | .ok o => readFrom o clean rest
      | _ => .badUsage

/-- The request that arguments make.  An ambiguous name is bad usage wherever it stands. -/
def Request.ofArguments (arguments : List String) : Request :=
  let classified := classifyAll arguments
  if classified.any fun | .ambiguous => true | _ => false then .badUsage
  else readFrom {} true classified

end Stepwise.CommandLine
