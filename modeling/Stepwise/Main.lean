/-
# The command line

Reads the environment and standard input, runs, prints, and logs to standard error and to the log
file.  Log lines carry the time at which they are written.
-/
import Std.Time.DateTime.Timestamp
import Stepwise.CommandLine.Run
import Stepwise.Log.Line

namespace Stepwise.CommandLine

/-- The values of all settings in the environment. -/
def readEnvironment : IO Settings.Environment := do
  let names := ["SIMPSON_INTERVALS", "ROOT_TOLERANCE", "ROOT_DEDUP_DECIMALS",
    "NUMERIC_FALLBACK_ENABLED", "NUMERIC_TOLERANCE", "DISPLAY_DECIMALS",
    "INTEGRAL_RESULT_DECIMALS", "MAX_INPUT_LENGTH", "MAX_FACTORIAL", "LOG_LEVEL"]
  names.filterMapM fun name => do
    let value ← IO.getEnv ("STEPSOLVE_" ++ name)
    pure (value.map fun value => ("STEPSOLVE_" ++ name, value))

/-- All lines of a stream. -/
partial def readAll (stream : IO.FS.Stream) (read : String) : IO String := do
  let line ← stream.getLine
  if line.isEmpty then pure read else readAll stream (read ++ line)

/-- The line of a record at the present time. -/
def stamped (record : Record) : IO String := do
  let now ← Std.Time.Timestamp.now
  match Time.ofMicroseconds (now.toNanosecondsSinceUnixEpoch.val / 1000) with
  | .ok time => pure (record.line time ++ "\n")
  | .error _ => pure (record.body ++ "\n")

/-- Writes records to standard error and to a log file, if there is one. -/
def writeLog (report : Report) : IO Unit := do
  let lines ← report.records.mapM stamped
  let text := String.join lines
  IO.eprint text
  match report.logFile with
  | some path =>
    unless path.isEmpty do
      let file ← IO.FS.Handle.mk path .append
      file.putStr text
  | none => pure ()

end Stepwise.CommandLine

open Stepwise Stepwise.CommandLine in
/-- Runs the command line on the process's arguments, environment and standard input. -/
def main (arguments : List String) : IO UInt32 := do
  match Settings.ofEnvironment (← readEnvironment) with
  | .error _ =>
    IO.eprintln "A setting in the environment is not a number."
    pure 1
  | .ok settings =>
    let needsInput :=
      match Request.ofArguments arguments with
      | .run o => !o.version && o.check.isNone && o.eval.isNone
      | _ => false
    let typed ← if needsInput then readAll (← IO.getStdin) "" else pure ""
    let input := String.ofList (lineFeeds typed.toList)
    let (_, report) := run { settings := settings } arguments input
    IO.print report.output
    writeLog report
    pure report.exitCode.toUInt32
