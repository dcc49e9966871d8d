/-
# Layouts of number text

How the digits of a number are set out: positionally, or with one digit before the point and an
exponent of at least two digits.  A `Layout` says which exponents are positional and what marks
a whole number; the layouts in use are at the end, with the texts of special numbers.

* `Double.repr` : shortest digits, positional from `10 ^ -4` to below `10 ^ 16`, `.0` if whole;
* `Double.display` : the same, but whole numbers below `10 ^ 16` without a point;
* `Double.positional` : shortest digits, never with an exponent;
* `Double.general`, `Double.fixed` : a given number of significant digits or of places.
-/
import Stepwise.Decimal.Shortest

namespace Stepwise

/-! ## Setting out digits -/

/-- The text with zeros in front up to a width. -/
def padZeros (width : Nat) (s : List Char) : List Char :=
  List.replicate (width - s.length) '0' ++ s

/-- Which exponents of the leading digit are written positionally, and the mark put after the
digits of a whole number. -/
structure Layout where
  positional : Int → Bool
  wholeMark : List Char

namespace Decimal

/-- The digits with a point before the last `places` of them. -/
def withPoint (places : Nat) (digits : List Char) : List Char :=
  let padded := padZeros (places + 1) digits
  padded.take (padded.length - places) ++ '.' :: padded.drop (padded.length - places)

/-- The positional text of a decimal. -/
def positionalChars (wholeMark : List Char) (x : Decimal) : List Char :=
  match x.exponent with
  | .ofNat k => digitChars x.digits ++ List.replicate k '0' ++ wholeMark
  | .negSucc k => withPoint (k + 1) (digitChars x.digits)

/-- A sign and at least two digits. -/
def exponentChars (k : Int) : List Char :=
  (if k < 0 then '-' else '+') :: padZeros 2 (digitChars k.natAbs)

/-- The text with one digit before the point and an exponent. -/
def scientificChars (x : Decimal) : List Char :=
  let mantissa :=
    match digitChars x.digits with
    | first :: second :: rest => first :: '.' :: second :: rest
    | digits => digits
  mantissa ++ 'e' :: exponentChars x.leading

/-- The text of a decimal in a layout. -/
def write (layout : Layout) (x : Decimal) : List Char :=
  if layout.positional x.leading then positionalChars layout.wholeMark x else scientificChars x

end Decimal

/-! ## Number texts -/

namespace Double

/-- Puts the sign in front of the text of a finite magnitude; the other doubles have fixed
texts. -/
def signed (magnitude : Double → List Char) : Double → List Char
  | .nan => ['n', 'a', 'n']
  | .infinity negative => (if negative then ['-'] else []) ++ ['i', 'n', 'f']
  | x@(.finite negative _ _ _) => (if negative then ['-'] else []) ++ magnitude x

/-- Exponents from `-4` to `15` are positional, and a whole number ends in `.0`. -/
def reprLayout : Layout := ⟨fun k => -4 ≤ k && k < 16, ['.', '0']⟩

/-- Every exponent is positional, and a whole number has no point. -/
def positionalLayout : Layout := ⟨fun _ => true, []⟩

/-- With `precision` significant digits, exponents from `-4` to below it are positional. -/
def generalLayout (precision : Nat) : Layout := ⟨fun k => -4 ≤ k && k < precision, []⟩

/-- The shortest text that reads back, with a mark of its kind. -/
def repr : Double → List Char := signed fun x => x.shortest.write reprLayout

/-- The shortest positional text. -/
def positional : Double → List Char := signed fun x => x.shortest.write positionalLayout

/-- The text shown to the user: a whole number below `10 ^ 16` as an integer. -/
def display (x : Double) : List Char :=
  match x.toInt? with
  | some n => if n.natAbs < tenTo 16 then integerChars n else x.repr
  | none => x.repr

/-- The nearest decimal with a given number of significant digits; a half goes to even. -/
def toPrecision (precision : Nat) (x : Double) : Decimal :=
  let v := x.abs.value
  if v.num = 0 then ⟨0, 0⟩
  else
    let unit := floorLog10 v.num.natAbs v.den - (precision - 1 : Nat)
    let scaled := scaleQuotient v.num.natAbs v.den (-unit)
    (Decimal.mk (roundDivision scaled.1 scaled.2) unit).dropZeros

/-- The text with at most `precision` significant digits. -/
def general (precision : Nat) : Double → List Char :=
  signed fun x => (x.toPrecision precision).write (generalLayout precision)

/-- The magnitude in units of `10 ^ (-places)`, rounded; a half goes to even. -/
def unitsOf (places : Int) (x : Double) : Nat :=
  let v := x.abs.value
  let scaled := scaleQuotient v.num.natAbs v.den places
  roundDivision scaled.1 scaled.2

/-- The text with a fixed number of decimal places. -/
def fixed (places : Nat) : Double → List Char :=
  signed fun x =>
    let digits := digitChars (x.unitsOf places)
    if places = 0 then digits else Decimal.withPoint places digits

end Double

end Stepwise
