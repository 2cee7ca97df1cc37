import Unstack.Text.Blank

/-!
Cutting a text into pieces: at a separator, at line ends, and at blanks. All three put a character
in front of the piece that the rest of the text starts with, or open a piece of its own for it.
-/

namespace Unstack.Text

/-- Puts a character in front of the first piece; without a piece it becomes one. -/
def consFirst (c : Char) : List (List Char) → List (List Char)
  | [] => [[c]]
  | p :: ps => (c :: p) :: ps

/-- The pieces between the occurrences of `sep`; one more than there are occurrences. -/
def splitOn (sep : Char) : List Char → List (List Char)
  | [] => [[]]
  | c :: r => if c = sep then [] :: splitOn sep r else consFirst c (splitOn sep r)

/-- The lines of a text. A line ends at a newline, which takes one carriage return right before it
along; after the last newline there is a line only if there is text. -/
def lines : List Char → List (List Char)
  | [] => []
  | c :: r =>
    if c = '\n' then [] :: lines r
    else if c = '\r' ∧ r.head? = some '\n' then lines r
    else consFirst c (lines r)

example : lines "a\r\n\r\r\nb\r".toList = ["a".toList, "\r".toList, "b\r".toList] := by decide

/-- Whether a word ends where this text starts. -/
def endsWord : List Char → Bool
  | [] => true
  | c :: _ => isBlank c

/-- The words of a text: its longest pieces without blanks. -/
def words : List Char → List (List Char)
  | [] => []
  | c :: r =>
    if isBlank c then words r
    else if endsWord r then [c] :: words r
    else consFirst c (words r)

example : words " PUSH\t0x1 ".toList = ["PUSH".toList, "0x1".toList] := by decide

end Unstack.Text
