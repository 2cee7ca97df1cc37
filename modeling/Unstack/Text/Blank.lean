import Unstack.Text.Ranges

/-!
Blank characters: the code points with the Unicode property White_Space, and cutting them off the
ends of a text.
-/

namespace Unstack.Text

/-- The code points with the property White_Space. -/
def blankRanges : Ranges :=
  [(0x9, 0xd), (0x20, 0x20), (0x85, 0x85), (0xa0, 0xa0), (0x1680, 0x1680), (0x2000, 0x200a),
    (0x2028, 0x2029), (0x202f, 0x202f), (0x205f, 0x205f), (0x3000, 0x3000)]

example : blankRanges.apart = true := by decide

example : blankRanges.size = 25 := by decide

/-- Whether a character separates words and may be trimmed. -/
def isBlank (c : Char) : Bool :=
  blankRanges.has c

/-- The text without the blanks at its start. -/
def trimStart (s : List Char) : List Char :=
  s.dropWhile isBlank

/-- The text without the blanks at its end. -/
def trimEnd (s : List Char) : List Char :=
  (s.reverse.dropWhile isBlank).reverse

/-- The text without the blanks at either end. -/
def trim (s : List Char) : List Char :=
  trimEnd (trimStart s)

end Unstack.Text
