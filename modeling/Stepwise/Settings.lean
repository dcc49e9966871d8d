/-
# Settings

The numbers that tune the solvers, with their defaults, and their reading from named values in the
environment.  Beside them stands what is left to the machine: in which order a set lists its
numbers.
-/
import Stepwise.Decimal.Numeral
import Stepwise.Failure
import Stepwise.Text.Lowercase

namespace Stepwise

/-! ## Arrangements -/

/-- An order in which a set lists its numbers.  It may depend on the order in which they were put in
and on where they are stored. -/
structure Arrangement where
  list : List Double → List Double
  perm (xs : List Double) : (list xs).Perm xs

namespace Arrangement

/-- Where a number stands in the usual arrangement: undefined ones come last but for infinity. -/
def place : Double → Nat
  | .nan => 1
  | .infinity false => 2
  | _ => 0

/-- The usual arrangement; numbers of the same place are in ascending order. -/
def usual : Arrangement where
  list xs := xs.mergeSort fun x y => place x < place y || place x == place y && !y.lt x
  perm xs := List.mergeSort_perm xs _

end Arrangement

/-! ## Settings -/

/-- What can be tuned, and what is left to the machine. -/
structure Settings where
  /-- The subintervals of numerical integration. -/
  simpsonIntervals : Int := 1000
  /-- How far from zero the value at a root may be. -/
  rootTolerance : Double := .ofDecimal false 1 (-9)
  /-- The places to which roots of a cubic equation are rounded. -/
  rootDecimals : Int := 6
  /-- Approximate the roots of a cubic equation that has no rational root. -/
  numericFallback : Bool := false
  /-- How far from real an approximated root may be. -/
  numericTolerance : Double := .ofDecimal false 1 (-8)
  /-- The places to which displayed roots and coefficients are rounded. -/
  displayDecimals : Int := 4
  /-- The places of an approximated integral. -/
  integralDecimals : Int := 6
  /-- The most characters of a problem. -/
  maxInputLength : Int := 10000
  /-- The largest number whose factorial is formed. -/
  maxFactorial : Int := 170
  /-- The level below which log records are dropped. -/
  logLevel : String := "WARNING"
  /-- The order in which roots are listed when one of them is undefined.  No name in the environment
  stands for it, and no order is promised. -/
  arrangement : Arrangement := .usual

namespace Settings

/-- The version of the program. -/
def version : String := "1.0.0"

/-- Named values, such as those of the environment; the last value of a name counts. -/
abbrev Environment := List (String × String)

/-- The value of a name. -/
def Environment.find? (environment : Environment) (name : String) : Option String :=
  (environment.reverse.find? fun entry => entry.1 == "STEPSOLVE_" ++ name).map Prod.snd

/-- Reads a setting, or takes its default where it is absent. -/
def Environment.read {α : Type} (environment : Environment) (name : String)
    (parse : List Char → Option α) (standard : α) : Except Breakdown α :=
  match environment.find? name with
  | none => .ok standard
  | some text =>
    match parse text.toList with
    | some a => .ok a
    | none => .error .badValue

/-- The next even number, for a count that has to be even. -/
def evenCount (n : Int) : Int := if n % 2 = 0 then n else n + 1

/-- The settings that an environment asks for. -/
def ofEnvironment (environment : Environment) : Except Breakdown Settings := do
  let standard : Settings := {}
  let integer (name : String) (n : Int) : Except Breakdown Int :=
    environment.read name Numeral.readInteger? n
  let number (name : String) (x : Double) : Except Breakdown Double :=
    environment.read name Numeral.readDouble? x
  let simpsonIntervals ← integer "SIMPSON_INTERVALS" standard.simpsonIntervals
  let rootTolerance ← number "ROOT_TOLERANCE" standard.rootTolerance
  let rootDecimals ← integer "ROOT_DEDUP_DECIMALS" standard.rootDecimals
  let numericTolerance ← number "NUMERIC_TOLERANCE" standard.numericTolerance
  let displayDecimals ← integer "DISPLAY_DECIMALS" standard.displayDecimals
  let integralDecimals ← integer "INTEGRAL_RESULT_DECIMALS" standard.integralDecimals
  let maxInputLength ← integer "MAX_INPUT_LENGTH" standard.maxInputLength
  let maxFactorial ← integer "MAX_FACTORIAL" standard.maxFactorial
  let fallback := (environment.find? "NUMERIC_FALLBACK_ENABLED").getD "false"
  pure {
    simpsonIntervals := evenCount simpsonIntervals
    rootTolerance := rootTolerance
    rootDecimals := rootDecimals
    numericFallback := Text.lower fallback.toList == "true".toList
    numericTolerance := numericTolerance
    displayDecimals := displayDecimals
    integralDecimals := integralDecimals
    maxInputLength := maxInputLength
    maxFactorial := maxFactorial
    logLevel := (environment.find? "LOG_LEVEL").getD standard.logLevel }

end Settings

end Stepwise
