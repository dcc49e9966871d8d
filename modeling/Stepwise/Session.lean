/-
# Sessions

What stays from one use of the solvers to the next: the settings, among them whether roots may be
approximated, and the state of logging.
-/
import Stepwise.Log.Record
import Stepwise.Settings

namespace Stepwise

/-- The state between uses. -/
structure Session where
  settings : Settings
  level : Level := .notSet
  handlers : Nat := 0

namespace Session

/-- Starts logging at a level, or at that of the settings if none is given, with one more handler if
there is a log file. -/
def startLogging (s : Session) (level : Option String) (toFile : Bool) : Session :=
  let name :=
    match level with
    | some name => if name.isEmpty then s.settings.logLevel else name
    | none => s.settings.logLevel
  { s with level := Level.ofName name, handlers := if toFile then 2 else 1 }

/-- Allows roots to be approximated from now on. -/
def allowApproximation (s : Session) : Session :=
  { s with settings := { s.settings with numericFallback := true } }

/-- The level from which on records are kept; where none is set, from warnings on. -/
def threshold (s : Session) : Level := if s.level = .notSet then .warning else s.level

/-- The records of events that are kept. -/
def records (s : Session) (events : List Event) : List Record :=
  (events.map Event.record).filter fun r => s.threshold.rank ≤ r.level.rank

end Session

end Stepwise
