/-
# Log lines

A log record with the time of its making as one line: the time, the level, the logger, the message
and, where they are known, the solver and the problem.
-/
import Stepwise.Double.Arithmetic
import Stepwise.Decimal.Layout
import Stepwise.Log.Record

namespace Stepwise

/-! ## Times -/

/-- A time of day on a date, to the microsecond. -/
structure Time where
  year : Int
  month : Nat
  day : Nat
  second : Nat
  microsecond : Nat
  deriving DecidableEq

namespace Time

/-- The date of a number of days after the first of January 1970, by the calendar's cycle of 400
years, with the years counted from March. -/
def civil (days : Int) : Int × Nat × Nat :=
  let shifted := days + 719468
  let era := shifted / 146097
  let dayOfEra := (shifted % 146097).toNat
  let yearOfEra := (dayOfEra - dayOfEra / 1460 + dayOfEra / 36524 - dayOfEra / 146096) / 365
  let dayOfYear := dayOfEra - (365 * yearOfEra + yearOfEra / 4 - yearOfEra / 100)
  let shiftedMonth := (5 * dayOfYear + 2) / 153
  let day := dayOfYear - (153 * shiftedMonth + 2) / 5 + 1
  let month := if shiftedMonth < 10 then shiftedMonth + 3 else shiftedMonth - 9
  let year := (yearOfEra : Int) + era * 400
  (if month ≤ 2 then year + 1 else year, month, day)

/-- The first and the last day of the years one to 9999; the very first has no day before it. -/
def firstDay : Int := -719161

/-- The last day of the year 9999. -/
def lastDay : Int := 2932896

/-- The time after a number of seconds and microseconds since the start of 1970. -/
def ofMicroseconds (n : Int) : Except Breakdown Time :=
  let seconds := n / 1000000
  let days := seconds / 86400
  if days < firstDay ∨ lastDay < days then .error .badValue
  else
    let (year, month, day) := civil days
    .ok ⟨year, month, day, (seconds % 86400).toNat, (n % 1000000).toNat⟩

/-- The whole part of a number towards zero. -/
def truncate (q : Rat) : Int := Int.tdiv q.num q.den

/-- The time of a number of seconds since the start of 1970.  The fraction of a second is multiplied
by a million before it is rounded; a half goes to the even microsecond. -/
def ofSeconds (x : Double) : Except Breakdown Time :=
  match x with
  | .nan => .error .badValue
  | .infinity _ => .error .overflow
  | .finite negative _ _ _ =>
    let whole := truncate x.value
    if twoTo 63 ≤ whole.natAbs then .error .overflow
    else
      let fraction := Double.round negative (x.value - mkRat whole 1) * 1000000
      let magnitude := roundDivision fraction.value.num.natAbs fraction.value.den
      let microseconds : Int := if fraction.value < 0 then -magnitude else magnitude
      ofMicroseconds (whole * 1000000 + microseconds)

/-- A number with at least a given number of digits. -/
def padded (width n : Nat) : String := String.ofList (padZeros width (digitChars n))

/-- The text of a time; microseconds are shown if there are any. -/
def text (t : Time) : String :=
  let clock :=
    s!"{padded 2 (t.second / 3600)}:{padded 2 (t.second / 60 % 60)}:{padded 2 (t.second % 60)}"
  let fraction := if t.microsecond = 0 then "" else s!".{padded 6 t.microsecond}"
  s!"{padded 4 t.year.toNat}-{padded 2 t.month}-{padded 2 t.day}T{clock}{fraction}"

end Time

/-! ## Lines -/

namespace Record

/-- A named value at the end of a line, if there is one. -/
def contextField (name : String) : Option String → List String
  | some value => [s!"{name}={quote value}"]
  | none => []

/-- The line without its time. -/
def body (r : Record) : String :=
  let context := contextField "solver" r.solver ++ contextField "problem" r.problem
  String.join (s!"[{r.level.name}] {r.logger}: {r.message}" :: context.map (" " ++ ·))

/-- The line of a record. -/
def line (r : Record) (time : Time) : String := s!"{time.text} {r.body}"

end Record

end Stepwise
