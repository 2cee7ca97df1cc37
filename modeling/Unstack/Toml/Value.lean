import Unstack.Toml.Node
import Unstack.Toml.Quoted
import Unstack.Toml.Scalar

/-!
Keys and values of TOML. Arrays may span lines and end in a comma; inline tables may do neither.
-/

namespace Unstack.Toml

/-- Keys have fewer parts than this, and values are nested less deep. -/
def depthLimit : Nat :=
  80

/-- The characters of a key without quotes. -/
def isKeyChar (c : Char) : Bool :=
  c.isAlphanum || c = '_' || c = '-'

/-- One part of a key. -/
def keyPart? (s : List Char) : Option (Taken s String) :=
  match s with
  | [] => none
  | c :: r =>
    match Quote.ofMark? c with
    | some q => (quoted? q r).map fun t => (t.map String.ofList).after
    | none => (run? isKeyChar (c :: r)).map fun t => t.map String.ofList

/-- The parts of a key, with the space around each of them. -/
def keyParts? (s : List Char) : Option (Taken s (List String)) :=
  (between skipSpace keyPart? s).bind fun t =>
    match mark? '.' t.rest with
    | some m =>
      (keyParts? m.rest).map fun ts => t.followedBy (m.followedBy (ts.map (t.value :: ·)))
    | none => some (t.map fun part => [part])
termination_by s.length
decreasing_by exact Nat.lt_trans m.shorter t.shorter

/-- A key as the path to a table and the name in that table. -/
structure Key where
  path : List String
  name : String

/-- A key, the space around it included. -/
def key? (s : List Char) : Option (Taken s Key) :=
  (keyParts? s).bind fun t =>
    if t.value.length < depthLimit then
      t.value.getLast?.map fun name => t.map fun parts => ⟨parts.dropLast, name⟩
    else none

/-- A key, the sign between them, and a value, with the space in front of the value. -/
def pair? (item : (s : List Char) → Option (Taken s Data)) (s : List Char) :
    Option (Taken s (Key × Data)) :=
  (key? s).bind fun k =>
    (mark? '=' k.rest).bind fun m =>
      (item (skipSpace m.rest).rest).map fun v =>
        k.followedBy (m.followedBy ((skipSpace m.rest).take (v.map fun d => (k.value, d))))

variable (item : (s : List Char) → Option (Taken s Data))

/-- The rest of an array after its opening bracket or a comma. -/
def items? (s : List Char) : Option (Taken s (List Data)) :=
  match mark? ']' (skipFiller s).rest with
  | some m => some ((skipFiller s).take (m.map fun _ => []))
  | none =>
    (between skipFiller item s).bind fun v =>
      match mark? ',' v.rest with
      | some m => (items? m.rest).map fun t => v.followedBy (m.followedBy (t.map (v.value :: ·)))
      | none => (mark? ']' v.rest).map fun m => v.followedBy (m.map fun _ => [v.value])
termination_by s.length
decreasing_by exact Nat.lt_trans m.shorter v.shorter

/-- The rest of an inline table that is not empty, from the key of a pair on. -/
def pairs? (s : List Char) : Option (Taken s (List (Key × Data))) :=
  (between skipSpace (pair? item) s).bind fun p =>
    match mark? ',' p.rest with
    | some m => (pairs? m.rest).map fun t => p.followedBy (m.followedBy (t.map (p.value :: ·)))
    | none => (mark? '\x7d' p.rest).map fun m => p.followedBy (m.map fun _ => [p.value])
termination_by s.length
decreasing_by exact Nat.lt_trans m.shorter p.shorter

/-- The value of an inline table with these pairs. -/
def inlineData? (pairs : List (Key × Data)) : Option Data :=
  (pairs.foldlM (fun entries p => Entries.insertValue p.1.path p.1.name p.2 entries) []).map
    fun entries => .object (Node.fieldsOf entries)

/-- The rest of an inline table after its opening brace. -/
def inlineTable? (s : List Char) : Option (Taken s Data) :=
  match mark? '\x7d' (skipSpace s).rest with
  | some m => some ((skipSpace s).take (m.map fun _ => .object []))
  | none =>
    (pairs? item s).bind fun t => (inlineData? t.value).map fun d => t.map fun _ => d

/-- A value in which arrays and inline tables are nested less than `depth` deep. -/
def valueWithin? (depth : Nat) (s : List Char) : Option (Taken s Data) :=
  match s with
  | [] => none
  | c :: r =>
    if c = '[' then
      match depth with
      | 0 => none
      | depth + 1 => (items? (valueWithin? depth) r).map fun t => (t.map Data.array).after
    else if c = '\x7b' then
      match depth with
      | 0 => none
      | depth + 1 => (inlineTable? (valueWithin? depth) r).map .after
    else if (Quote.ofMark? c).isSome then
      (string? (c :: r)).map fun t => t.map fun s => .string (String.ofList s)
    else scalar? (c :: r)

/-- A value. -/
def value? : (s : List Char) → Option (Taken s Data) :=
  valueWithin? (depthLimit - 1)

end Unstack.Toml
