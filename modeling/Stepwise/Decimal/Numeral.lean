/-
# Numerals

Reading numbers from text.  Digits of every script count.

* `Numeral.readUnsigned?` : digits with an optional point at the start of a text, and the rest;
* `Numeral.prefixValue` : the lenient reading of the number a text starts with;
* `Numeral.readDouble?`, `Numeral.readInteger?` : the strict reading of a whole text.
-/
import Stepwise.Decimal.Basic
import Stepwise.Text.Basic

namespace Stepwise.Numeral

open Text (isDigit digitValue)

/-! ## Digits and the point -/

/-- The natural number that a run of digits stands for. -/
def natValue (digits : List Char) : Nat :=
  digits.foldl (fun n c => 10 * n + digitValue c) 0

/-- The digits before and after the point of an unsigned numeral. -/
structure Unsigned where
  whole : List Char
  fraction : List Char
  deriving DecidableEq

/-- The number an unsigned numeral stands for. -/
def Unsigned.toDecimal (u : Unsigned) : Decimal :=
  ⟨natValue (u.whole ++ u.fraction), -(u.fraction.length : Int)⟩

/-- Reads `12`, `12.`, `12.5` or `.5` at the start of a text, as long as possible. -/
def readUnsigned? (s : List Char) : Option (Unsigned × List Char) :=
  let rest := s.dropWhile isDigit
  match s.takeWhile isDigit, rest with
  | [], '.' :: r =>
    if (r.takeWhile isDigit).isEmpty then none
    else some (⟨[], r.takeWhile isDigit⟩, r.dropWhile isDigit)
  | [], _ => none
  | whole, '.' :: r => some (⟨whole, r.takeWhile isDigit⟩, r.dropWhile isDigit)
  | whole, r => some (⟨whole, []⟩, r)

/-- The double nearest to an unsigned numeral without an exponent; `0` for other text. -/
def unsignedValue (s : List Char) : Double :=
  match readUnsigned? s with
  | some (u, _) => u.toDecimal.toDouble false
  | none => .zero false

/-! ## Sign and exponent -/

/-- Takes an optional sign off; `true` for a minus. -/
def readSign : List Char → Bool × List Char
  | '-' :: s => (true, s)
  | '+' :: s => (false, s)
  | s => (false, s)

/-- Reads `e5`, `E+5` or `e-5` at the start of a text, and the rest. -/
def readExponent? : List Char → Option (Int × List Char)
  | c :: s =>
    if c = 'e' ∨ c = 'E' then
      let (negative, r) := readSign s
      let digits := r.takeWhile isDigit
      if digits.isEmpty then none
      else
        let n : Int := natValue digits
        some (if negative then -n else n, r.dropWhile isDigit)
    else none
  | [] => none

/-- Reads a signed numeral with an optional exponent at the start of a text, and the rest. -/
def readSigned? (s : List Char) : Option (Double × List Char) :=
  let (negative, r) := readSign s
  match readUnsigned? r with
  | none => none
  | some (u, rest) =>
    let x := u.toDecimal
    match readExponent? rest with
    | none => some (x.toDouble negative, rest)
    | some (k, rest) => some (Decimal.toDouble negative ⟨x.digits, x.exponent + k⟩, rest)

/-- The number that a text starts with, after white space; `nan` if there is none.  What follows
the number is ignored. -/
def prefixValue (s : List Char) : Double :=
  match readSigned? (Text.trimStart s) with
  | some (x, _) => x
  | none => .nan

/-! ## Whole texts -/

/-- Takes out underscores; each has to stand between two digits. -/
def dropUnderscores? : List Char → Option (List Char)
  | [] => some []
  | ['_'] => none
  | c :: '_' :: d :: s =>
    if isDigit c && isDigit d then (dropUnderscores? (d :: s)).map (c :: ·) else none
  | c :: s => if c = '_' then none else (dropUnderscores? s).map (c :: ·)

/-- The letters that stand for a special number, in any case. -/
def special? (negative : Bool) (s : List Char) : Option Double :=
  match String.ofList (s.map Char.toLower) with
  | "inf" | "infinity" => some (.infinity negative)
  | "nan" => some .nan
  | _ => none

/-- The number that a text, trimmed, spells out as a whole. -/
def readDouble? (s : List Char) : Option Double :=
  match dropUnderscores? (Text.trim s) with
  | none => none
  | some t =>
    match readSigned? t with
    | some (x, []) => some x
    | some _ => none
    | none => special? (readSign t).1 (readSign t).2

/-- The most digits that a whole number may be written with. -/
def maxIntegerDigits : Nat := 4300

/-- The integer that a text, trimmed, spells out as a whole. -/
def readInteger? (s : List Char) : Option Int :=
  match dropUnderscores? (Text.trim s) with
  | none => none
  | some t =>
    let (negative, digits) := readSign t
    if digits.isEmpty || !digits.all isDigit || digits.length > maxIntegerDigits then none
    else some (if negative then -(natValue digits : Int) else natValue digits)

end Stepwise.Numeral
