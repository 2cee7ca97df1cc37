import Unstack.Text.Hex
import Unstack.Toml.Reader

/-!
Quoted text in TOML: basic strings, in which a backslash escapes, and literal strings, in which it
does not. Both may span lines between tripled quotes; a line end is then a newline, however it was
written.
-/

namespace Unstack.Toml

/-- The two kinds of quotes. -/
inductive Quote where
  | basic
  | literal
deriving DecidableEq, Repr

namespace Quote

/-- The character that opens and closes the string. -/
def mark : Quote → Char
  | basic => '"'
  | literal => Char.ofNat 39

/-- The kind of string that a character opens. -/
def ofMark? (c : Char) : Option Quote :=
  if c = basic.mark then some basic else if c = literal.mark then some literal else none

end Quote

/-- A character given by exactly `n` hexadecimal digits, which have to name a code point that is a
character. -/
def codePoint? (n : Nat) (s : List Char) : Option (Char × Rest s) :=
  if (s.take n).length = n then
    (Hex.value? (s.take n)).bind fun v =>
      if v.isValidChar then some (Char.ofNat v, .drop n s) else none
  else none

/-- The character that a backslash and this letter stand for. -/
def letterEscape? (c : Char) : Option Char :=
  if c = 'b' then some '\x08'
  else if c = 't' then some '\t'
  else if c = 'n' then some '\n'
  else if c = 'f' then some '\x0c'
  else if c = 'r' then some '\r'
  else if c = '"' ∨ c = '\\' then some c
  else none

/-- The character that an escape stands for; `s` starts after the backslash. -/
def escape? (s : List Char) : Option (Taken s Char) :=
  match s with
  | 'u' :: r => (codePoint? 4 r).map fun p => (Taken.first p.1).thenSkip p.2
  | 'U' :: r => (codePoint? 8 r).map fun p => (Taken.first p.1).thenSkip p.2
  | c :: _ => (letterEscape? c).map .first
  | [] => none

/-- The rest of a string on one line, after its opening quote. -/
def quoted? (q : Quote) (s : List Char) : Option (Taken s (List Char)) :=
  match s with
  | [] => none
  | c :: r =>
    if c = q.mark then some (.first [])
    else if q = .basic ∧ c = '\\' then
      (escape? r).bind fun e =>
        (quoted? q e.rest).map fun t => (e.followedBy (t.map (e.value :: ·))).after
    else if isText c then (quoted? q r).map fun t => (t.map (c :: ·)).after
    else none
termination_by s.length
decreasing_by
  · exact Nat.lt_succ_of_lt e.shorter
  · exact Nat.lt_succ_self _

/-- The rest after a backslash at the end of a line: the line end is skipped with all the space
after it. -/
def joinLines? (s : List Char) : Option (Rest s) :=
  (newline? (skipSpace s).rest).map fun t =>
    (skipSpace s).followedBy (t.skip.followedBy (skipBreaks t.rest))

/-- The rest of a string over several lines, after its opening quotes. Up to two quotes may stand in
front of the closing ones. -/
def multiline? (q : Quote) (s : List Char) : Option (Taken s (List Char)) :=
  match s with
  | [] => none
  | c :: r =>
    if c = q.mark then
      let run := ((c :: r).takeWhile (· = q.mark)).length
      if run < 3 then (multiline? q r).map fun t => (t.map (c :: ·)).after
      else if run ≤ 5 then
        some ((Taken.first (List.replicate (run - 3) c)).thenSkip (.drop (run - 1) r))
      else none
    else if q = .basic ∧ c = '\\' then
      match joinLines? r with
      | some p => (multiline? q p.rest).map fun t => (p.take t).after
      | none =>
        (escape? r).bind fun e =>
          (multiline? q e.rest).map fun t => (e.followedBy (t.map (e.value :: ·))).after
    else
      match newline? (c :: r) with
      | some e => (multiline? q e.rest).map fun t => e.followedBy (t.map ('\n' :: ·))
      | none => if isText c then (multiline? q r).map fun t => (t.map (c :: ·)).after else none
termination_by s.length
decreasing_by
  · exact Nat.lt_succ_self _
  · exact Nat.lt_succ_of_le p.noLonger
  · exact Nat.lt_succ_of_lt e.shorter
  · exact e.shorter
  · exact Nat.lt_succ_self _

/-- Skips a line end right after the opening quotes, which does not count. -/
def dropNewline (s : List Char) : Rest s :=
  match newline? s with
  | some t => t.skip
  | none => .all s

/-- A string of any kind. -/
def string? (s : List Char) : Option (Taken s (List Char)) :=
  match s with
  | [] => none
  | c :: r =>
    (Quote.ofMark? c).bind fun q =>
      match r with
      | c₂ :: c₃ :: r₃ =>
        if c₂ = c ∧ c₃ = c then
          (multiline? q (dropNewline r₃).rest).map fun t =>
            ((dropNewline r₃).take t).after.after.after
        else (quoted? q (c₂ :: c₃ :: r₃)).map .after
      | r => (quoted? q r).map .after

end Unstack.Toml
