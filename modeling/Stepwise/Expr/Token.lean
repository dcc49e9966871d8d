/-
# Tokens

The words of an expression.  A number is a longest run of digits with at most one point; a name
is a longest run of letters; every operator, parenthesis and percent sign stands for itself; white
space separates and is dropped.  No other character may occur.
-/
import Stepwise.Decimal.Numeral
import Stepwise.Failure
import Stepwise.Text.Letter

namespace Stepwise

/-- A word of an expression. -/
inductive Token where
  | number (text : List Char)
  | name (text : List Char)
  | operator (op : Operator)
  | opening
  | closing
  | percent
  deriving DecidableEq

namespace Token

/-- The characters of a token. -/
def chars : Token → List Char
  | number text => text
  | name text => text
  | operator op => [op.symbol]
  | opening => ['(']
  | closing => [')']
  | percent => ['%']

/-! ## Scanning -/

/-- The word that is being read, its characters in reverse. -/
inductive Partial where
  | none
  | whole (reversed : List Char)
  | fraction (reversed : List Char)
  | name (reversed : List Char)

/-- The token of a word that has ended, before the tokens that follow. -/
def Partial.close : Partial → List Token → List Token
  | .none, rest => rest
  | .whole reversed, rest => .number reversed.reverse :: rest
  | .fraction reversed, rest => .number reversed.reverse :: rest
  | .name reversed, rest => .name reversed.reverse :: rest

/-- The word continued by one more character, if it can be. -/
def Partial.extend? (c : Char) : Partial → Option Partial
  | .none => Option.none
  | .whole reversed =>
    if Text.isDigit c then some (.whole (c :: reversed))
    else if c = '.' then some (.fraction (c :: reversed))
    else Option.none
  | .fraction reversed =>
    if Text.isDigit c then some (.fraction (c :: reversed)) else Option.none
  | .name reversed =>
    if Text.isLetter c then some (.name (c :: reversed)) else Option.none

/-- The token that a single character stands for. -/
def ofSymbol? (c : Char) : Option Token :=
  match c with
  | '(' => some .opening
  | ')' => some .closing
  | '%' => some .percent
  | _ => (Operator.ofChar? c).map .operator

/-- The text starts with a digit. -/
def startsWithDigit : List Char → Bool
  | c :: _ => Text.isDigit c
  | [] => false

/-- What a character begins between two words, given the text after it: the tokens it completes
and the word it starts. -/
def begin? (c : Char) (after : List Char) : Option (List Token × Partial) :=
  if Text.isBlank c then some ([], .none)
  else if Text.isDigit c then some ([], .whole [c])
  else if c = '.' && startsWithDigit after then some ([], .fraction [c])
  else if Text.isLetter c then some ([], .name [c])
  else (ofSymbol? c).map fun token => ([token], .none)

/-- The tokens of the rest of a text, after the word that is being read. -/
def scan (word : Partial) : List Char → Except Failure (List Token)
  | [] => .ok (word.close [])
  | c :: s =>
    match word.extend? c with
    | some longer => scan longer s
    | none =>
      match begin? c s with
      | none => .error .invalidExpression
      | some (tokens, next) => do
        let rest ← scan next s
        pure (word.close (tokens ++ rest))

/-- The tokens of a text. -/
def ofChars (s : List Char) : Except Failure (List Token) := scan .none s

end Token

end Stepwise
