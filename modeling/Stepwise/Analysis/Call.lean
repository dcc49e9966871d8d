/-
# Calls of derivatives and integrals

Recognition of `d/dx(…)` and `integrate(…)` inside a text.  The first place where the word is
followed, after white space, by a parenthesised argument of the right form counts.  An argument ends
at the last closing parenthesis that it can end at.
-/
import Stepwise.Text.Basic

namespace Stepwise.Call

/-! ## Places in a text -/

/-- The text before the last occurrence of a character. -/
def beforeLast? (separator : Char) : List Char → Option (List Char)
  | [] => none
  | c :: s =>
    match beforeLast? separator s with
    | some before => some (c :: before)
    | none => if c = separator then some [] else none

/-- The text, unless it is empty. -/
def nonempty? (s : List Char) : Option (List Char) := if s.isEmpty then none else some s

/-- Reads what follows a word, white space and an opening parenthesis at the start of a text. -/
def callAt? {α : Type} (word : List Char) (argument : List Char → Option α) (s : List Char) :
    Option α :=
  if word.isPrefixOf s then
    match Text.trimStart (s.drop word.length) with
    | '(' :: rest => argument rest
    | _ => none
  else none

/-- The first call of a word in a text. -/
def findCall? {α : Type} (word : List Char) (argument : List Char → Option α) :
    List Char → Option α
  | [] => none
  | c :: s =>
    match callAt? word argument (c :: s) with
    | some a => some a
    | none => findCall? word argument s

/-! ## Derivatives and indefinite integrals -/

/-- The word of a derivative. -/
def derivativeWord : List Char := ['d', '/', 'd', 'x']

/-- The word of an integral. -/
def integralWord : List Char := ['i', 'n', 't', 'e', 'g', 'r', 'a', 't', 'e']

/-- The argument of a derivative: within one line. -/
def derivative? (s : List Char) : Option (List Char) :=
  findCall? derivativeWord
    (fun rest => (beforeLast? ')' (rest.takeWhile (· ≠ '\n'))).bind nonempty?) s

/-- The argument of an indefinite integral: without commas. -/
def integral? (s : List Char) : Option (List Char) :=
  findCall? integralWord
    (fun rest => (beforeLast? ')' (rest.takeWhile (· ≠ ','))).bind nonempty?) s

/-! ## Definite integrals -/

/-- The arguments of a definite integral. -/
structure DefiniteIntegral where
  integrand : List Char
  lower : List Char
  upper : List Char
  deriving DecidableEq

/-- A lower bound without the white space before it; of a blank one the last character stays. -/
def lowerBound? (s : List Char) : Option (List Char) :=
  match Text.trimStart s with
  | [] => s.getLast?.map fun c => [c]
  | bound => some bound

/-- An upper bound up to the last parenthesis, without the white space before it; of a blank one the
last character stays. -/
def upperBound? (s : List Char) : Option (List Char) :=
  let trimmed := Text.trimStart s
  match (beforeLast? ')' trimmed).bind nonempty? with
  | some bound => some bound
  | none =>
    match trimmed with
    | ')' :: _ => (s.takeWhile Text.isBlank).getLast?.map fun c => [c]
    | _ => none

/-- The integral whose integrand is a given text, or a longer one that goes on with some of the
pieces after it; the longest one counts.  The integrand is within one line. -/
def definiteFrom? (integrand : List Char) : List (List Char) → Option DefiniteIntegral
  | lower :: upper :: rest =>
    match definiteFrom? (integrand ++ ',' :: lower) (upper :: rest) with
    | some found => some found
    | none =>
      if integrand.isEmpty || integrand.contains '\n' then none
      else do
        let a ← lowerBound? lower
        let b ← upperBound? upper
        pure ⟨integrand, a, b⟩
  | _ => none

/-- The arguments of an integral with bounds. -/
def definiteIntegral? (s : List Char) : Option DefiniteIntegral :=
  findCall? integralWord
    (fun rest =>
      match Text.splitAtChar ',' rest with
      | integrand :: bounds => definiteFrom? integrand bounds
      | [] => none) s

end Stepwise.Call
