/-
# Balance of parentheses

The first parenthesis without a partner: a closing one that nothing opens, or else the first opening
one that is never closed.
-/
import Stepwise.Text.Basic

namespace Stepwise.Parentheses

/-- Scans a text from a position on; `opened` holds the positions of the open parentheses, the
innermost first. -/
def unmatchedFrom (position : Nat) (opened : List Nat) : List Char → Option Nat
  | [] => opened.getLast?
  | c :: s =>
    if c = '(' then unmatchedFrom (position + 1) (position :: opened) s
    else if c = ')' then
      match opened with
      | [] => some position
      | _ :: outer => unmatchedFrom (position + 1) outer s
    else unmatchedFrom (position + 1) opened s

/-- The position of the first parenthesis without a partner. -/
def unmatched? (s : List Char) : Option Nat := unmatchedFrom 0 [] s

end Stepwise.Parentheses
