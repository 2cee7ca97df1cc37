/-!
Reading TOML from the front: what a reader takes carries the proof that something was taken, which
is what ends every loop over a document.
-/

namespace Unstack.Toml

/-- What was read from the start of `s`, and the shorter rest. -/
structure Taken (s : List Char) (α : Type) where
  value : α
  rest : List Char
  shorter : rest.length < s.length

/-- A rest of `s` after skipping some of its start, or nothing. -/
structure Rest (s : List Char) where
  rest : List Char
  noLonger : rest.length ≤ s.length

variable {s r : List Char} {c : Char} {α β : Type}

namespace Taken

def map (f : α → β) (t : Taken s α) : Taken s β :=
  ⟨f t.value, t.rest, t.shorter⟩

/-- The first character, taken for this value. -/
def first (value : α) : Taken (c :: r) α :=
  ⟨value, r, Nat.lt_succ_self _⟩

/-- What was read after a first character. -/
def after (t : Taken r α) : Taken (c :: r) α :=
  ⟨t.value, t.rest, Nat.lt_succ_of_lt t.shorter⟩

/-- What was read after something else. -/
def followedBy (t : Taken s β) (u : Taken t.rest α) : Taken s α :=
  ⟨u.value, u.rest, Nat.lt_trans u.shorter t.shorter⟩

/-- Skips more. -/
def thenSkip (t : Taken s α) (q : Rest t.rest) : Taken s α :=
  ⟨t.value, q.rest, Nat.lt_of_le_of_lt q.noLonger t.shorter⟩

/-- Forgets the value. -/
def skip (t : Taken s α) : Rest s :=
  ⟨t.rest, Nat.le_of_lt t.shorter⟩

end Taken

namespace Rest

/-- All of a text. -/
def all (s : List Char) : Rest s :=
  ⟨s, Nat.le_refl _⟩

def drop (n : Nat) (s : List Char) : Rest s :=
  ⟨s.drop n, (List.drop_sublist n s).length_le⟩

def dropWhile (p : Char → Bool) (s : List Char) : Rest s :=
  ⟨s.dropWhile p, (List.dropWhile_sublist p).length_le⟩

/-- A rest of the text after a first character. -/
def after (q : Rest r) : Rest (c :: r) :=
  ⟨q.rest, Nat.le_succ_of_le q.noLonger⟩

/-- Skips more. -/
def followedBy (q : Rest s) (p : Rest q.rest) : Rest s :=
  ⟨p.rest, Nat.le_trans p.noLonger q.noLonger⟩

/-- What was read after skipping. -/
def take (q : Rest s) (t : Taken q.rest α) : Taken s α :=
  ⟨t.value, t.rest, Nat.lt_of_lt_of_le t.shorter q.noLonger⟩

end Rest

/-- Reads after skipping, and skips again. -/
def between (skip : (s : List Char) → Rest s) (read : (s : List Char) → Option (Taken s α))
    (s : List Char) : Option (Taken s α) :=
  (read (skip s).rest).map fun t => (skip s).take (t.thenSkip (skip t.rest))

/-- One given character. -/
def mark? (c : Char) (s : List Char) : Option (Taken s Unit) :=
  match s with
  | d :: _ => if d = c then some (.first ()) else none
  | [] => none

/-- The longest run of such characters, if there are any. -/
def run? (p : Char → Bool) (s : List Char) : Option (Taken s (List Char)) :=
  match s with
  | c :: r =>
    if p c then some ((Taken.first (c :: r.takeWhile p)).thenSkip (.dropWhile p r)) else none
  | [] => none

/-! ## Blank text -/

/-- The characters that may stand in comments and strings: tabs and all that are no ASCII control
characters. -/
def isText (c : Char) : Bool :=
  c = '\t' || (' ' ≤ c && c ≠ '\x7f')

def isSpace (c : Char) : Bool :=
  c = ' ' || c = '\t'

/-- Skips spaces and tabs. -/
def skipSpace (s : List Char) : Rest s :=
  .dropWhile isSpace s

/-- One line end. -/
def newline? (s : List Char) : Option (Taken s Unit) :=
  match s with
  | '\n' :: _ => some (.first ())
  | '\r' :: '\n' :: _ => some (Taken.first ()).after
  | _ => none

/-- Skips spaces, tabs and line ends. -/
def skipBreaks (s : List Char) : Rest s :=
  match s with
  | '\r' :: '\n' :: r => (skipBreaks r).after.after
  | c :: r => if isSpace c || c = '\n' then (skipBreaks r).after else .all (c :: r)
  | [] => .all []

/-- Skips a comment. -/
def skipComment (s : List Char) : Rest s :=
  match s with
  | '#' :: r => (Rest.dropWhile isText r).after
  | s => .all s

/-- Skips the rest of a line, if nothing but spaces and a comment is there. -/
def skipRemark (s : List Char) : Rest s :=
  (skipSpace s).followedBy (skipComment (skipSpace s).rest)

/-- Skips spaces, comments and line ends, as they may stand between the items of an array. A comment
that no line end follows is not skipped, and nothing else can start with one. -/
def skipFiller (s : List Char) : Rest s :=
  match newline? (skipRemark s).rest with
  | some t => (skipRemark s).followedBy (t.skip.followedBy (skipFiller t.rest))
  | none => skipSpace s
termination_by s.length
decreasing_by exact Nat.lt_of_lt_of_le t.shorter (skipRemark s).noLonger

/-- The rest after the end of a line: spaces, a comment, and a line end unless the text ends. -/
def lineEnd? (s : List Char) : Option (Rest s) :=
  if (skipRemark s).rest.isEmpty then some (skipRemark s)
  else (newline? (skipRemark s).rest).map fun t => (skipRemark s).followedBy t.skip

end Unstack.Toml
