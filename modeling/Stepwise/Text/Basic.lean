/-
# Cutting and joining text

Text is handled as a list of characters, so that every function here is a recursion on it:
trimming, splitting at a character, finding, removing and replacing a fixed piece, joining.
-/
import Stepwise.Text.Character

namespace Stepwise.Text

/-! ## White space -/

/-- Drops the white space at the start. -/
def trimStart (s : List Char) : List Char := s.dropWhile isBlank

/-- Drops the white space at the end. -/
def trimEnd (s : List Char) : List Char := (s.reverse.dropWhile isBlank).reverse

/-- Drops the white space at both ends. -/
def trim (s : List Char) : List Char := trimEnd (trimStart s)

/-- Drops all white space. -/
def removeBlanks (s : List Char) : List Char := s.filter fun c => !isBlank c

/-! ## Splitting and joining -/

/-- The pieces between the occurrences of a character; one more than there are occurrences. -/
def splitAtChar (separator : Char) : List Char → List (List Char)
  | [] => [[]]
  | c :: s =>
    if c = separator then [] :: splitAtChar separator s
    else
      match splitAtChar separator s with
      | piece :: pieces => (c :: piece) :: pieces
      | [] => [[c]]

/-- The texts with a separator between neighbours. -/
def join (separator : List Char) : List (List Char) → List Char
  | [] => []
  | [s] => s
  | s :: t :: rest => s ++ separator ++ join separator (t :: rest)

/-- The text before the first occurrence of a character, and the text after it. -/
def partitionAt (separator : Char) (s : List Char) : List Char × List Char :=
  (s.takeWhile (· ≠ separator), (s.dropWhile (· ≠ separator)).drop 1)

/-! ## Fixed pieces -/

/-- The piece occurs somewhere in the text. -/
def contains (piece : List Char) : List Char → Bool
  | [] => piece.isEmpty
  | c :: s => piece.isPrefixOf (c :: s) || contains piece s

/-- The text without the first occurrence of a piece. -/
def removeFirst (piece : List Char) : List Char → List Char
  | [] => []
  | c :: s =>
    if piece.isPrefixOf (c :: s) then (c :: s).drop piece.length
    else c :: removeFirst piece s

/-- Replaces the occurrences of a piece from left to right, after `skipped` more characters of
the occurrence replaced last. -/
def replaceFrom (piece replacement : List Char) : Nat → List Char → List Char
  | _, [] => []
  | skipped + 1, _ :: s => replaceFrom piece replacement skipped s
  | 0, c :: s =>
    if piece.isPrefixOf (c :: s) then
      replacement ++ replaceFrom piece replacement (piece.length - 1) s
    else c :: replaceFrom piece replacement 0 s

/-- Replaces every occurrence of a non-empty piece; occurrences do not overlap. -/
def replaceAll (piece replacement s : List Char) : List Char :=
  replaceFrom piece replacement 0 s

end Stepwise.Text
