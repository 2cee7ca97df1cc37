/-!
Plain text: a text without the control functions of terminals. A control function starts with the
escape character, and how it goes on says where it ends.

What is dropped is what env_logger drops where the error channel is no terminal. There, too, a control
function that is left open ends with its entry of the log. Left out are texts that are not Unicode.
-/

namespace Unstack.Text

/-- How far a control function has been read. -/
inductive Control where
  /-- No control function is open. -/
  | idle
  /-- Only the escape character has been read. -/
  | escape
  /-- An escape sequence runs up to its final character. -/
  | escapeSequence
  /-- A control sequence runs up to its final character. -/
  | controlSequence
  /-- A device control string has just begun. -/
  | device
  /-- The parameters of a device control string. -/
  | deviceParameters
  /-- What follows the parameters of a device control string, up to its text. -/
  | deviceIntermediates
  /-- A text that runs up to the string terminator. -/
  | string
  /-- A system command, which runs up to a bell. -/
  | command
deriving DecidableEq, Repr

namespace Control

/-- A character between the opening of a control function and its final character. -/
def isIntermediate (c : Char) : Bool :=
  ' ' ≤ c && c ≤ '/'

/-- The byte 0x9c terminates a string, also as a part of the encoding of a character. -/
def isTerminator (c : Char) : Bool :=
  (String.utf8EncodeChar c).contains 0x9c

/-- The character after the escape character. -/
def afterEscape (c : Char) : Control :=
  if isIntermediate c then escapeSequence
  else
    match c with
    | '[' => controlSequence
    | ']' => command
    | 'P' => device
    | 'X' | '^' | '_' => string
    | c => if '0' ≤ c ∧ c ≤ '~' then idle else escape

/-- Reads a character that is not shown. Cancel and substitute end every control function. -/
def next (control : Control) (c : Char) : Control :=
  if c = '\x1b' then escape
  else if c = '\x18' ∨ c = '\x1a' then idle
  else
    match control with
    | idle => idle
    | escape => afterEscape c
    | escapeSequence => if '0' ≤ c ∧ c ≤ '~' then idle else escapeSequence
    | controlSequence => if '@' ≤ c ∧ c ≤ '~' then idle else controlSequence
    | device =>
      if isIntermediate c then deviceIntermediates
      else if '0' ≤ c ∧ c ≤ '?' then deviceParameters
      else if '@' ≤ c ∧ c ≤ '~' then string
      else device
    | deviceParameters =>
      if isIntermediate c then deviceIntermediates
      else if '<' ≤ c ∧ c ≤ '~' then string
      else deviceParameters
    | deviceIntermediates => if '0' ≤ c ∧ c ≤ '~' then string else deviceIntermediates
    | string => if isTerminator c then idle else string
    | command => if c = '\x07' then idle else command

end Control

/-- Tabs and the characters that break lines or pages. -/
def isLayout (c : Char) : Bool :=
  c = '\t' || c = '\n' || c = '\x0c' || c = '\r'

/-- Whether a character belongs to plain text: all do but most of the ASCII controls. -/
def isPlain (c : Char) : Bool :=
  isLayout c || ' ' ≤ c && c ≠ '\x7f'

/-- Whether a character shows although a control function may be open. -/
def Control.shows (control : Control) (c : Char) : Bool :=
  match control with
  | idle => isPlain c
  | escape | escapeSequence | controlSequence => isLayout c
  | _ => false

/-- The plain text of what follows a point in a control function. A character that shows inside a
control function suspends it, up to the next character that is not plain; one beyond ASCII ends
it. -/
def plainFrom (control : Control) (suspended : Bool) : List Char → List Char
  | [] => []
  | c :: rest =>
    if suspended && isPlain c || control.shows c then
      c :: plainFrom (if c.toNat < 0x80 then control else .idle) true rest
    else plainFrom (control.next c) false rest

/-- The text without control functions and other controls. -/
def plain (s : List Char) : List Char :=
  plainFrom .idle false s

example : plain "a\x1b[1;4mb\x1b]0;t\x07c\x1bP1$r\x1b\\d\x01".toList = "abcd".toList := by decide

end Unstack.Text
