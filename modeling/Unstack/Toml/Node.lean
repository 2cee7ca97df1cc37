import Unstack.Data.Basic

/-!
The tree that a TOML document builds. Every table remembers how it came about, because that decides
what may still be added to it.
-/

namespace Unstack.Toml

/-- How a table came about. -/
inductive Origin where
  /-- By a header of its own, or as an element of an array of tables. -/
  | defined
  /-- As the parent of a table with a header. -/
  | implied
  /-- As a part of a dotted key. -/
  | dotted
deriving DecidableEq, Repr

/-- A part of a document. -/
inductive Node where
  /-- A complete value. -/
  | value (data : Data)
  | table (origin : Origin) (entries : List (String × Node))
  /-- An array of tables; the last one is open. -/
  | tables (elements : List (List (String × Node)))

/-- The entries of a table. -/
abbrev Entries := List (String × Node)

namespace Node

mutual

/-- The finished value of a node. -/
def toData : Node → Data
  | value data => data
  | table _ entries => .object (fieldsOf entries)
  | tables elements => .array (itemsOf elements)

/-- The finished fields of the entries of a table. -/
def fieldsOf : List (String × Node) → List (String × Data)
  | [] => []
  | (k, node) :: rest => (k, node.toData) :: fieldsOf rest

/-- The finished items of an array of tables. -/
def itemsOf : List (List (String × Node)) → List Data
  | [] => []
  | entries :: rest => .object (fieldsOf entries) :: itemsOf rest

end

end Node

namespace Entries

/-- Puts a node in the place of the one with this key. -/
def set (k : String) (node : Node) (entries : Entries) : Entries :=
  entries.map fun e => if e.1 = k then (k, node) else e

/-- Changes the table at the end of a path, counted from a table of the given origin. Tables that
are missing on the way are added with the origin `missing`. A dotted key, which adds dotted tables,
may not go through a table that has been defined. -/
def update (missing : Origin) (change : Origin → Entries → Option Entries) :
    List String → Origin → Entries → Option Entries
  | [], origin, entries => change origin entries
  | k :: path, _, entries =>
    match entries.lookup k with
    | none =>
      (update missing change path missing []).map fun sub => entries ++ [(k, .table missing sub)]
    | some (.table origin sub) =>
      if missing = .dotted ∧ origin = .defined then none
      else
        (update missing change path origin sub).map fun sub =>
          set k (.table origin sub) entries
    | some (.tables elements) =>
      elements.getLast?.bind fun last =>
        (update missing change path .defined last).map fun last =>
          set k (.tables (elements.dropLast ++ [last])) entries
    | some (.value _) => none

/-- Gives a dotted key a value, in a table that does not have it yet. -/
def insertValue (path : List String) (key : String) (data : Data) (entries : Entries) :
    Option Entries :=
  update .dotted
    (fun origin entries =>
      if (path ≠ [] ∧ origin ≠ .dotted) ∨ (entries.lookup key).isSome then none
      else some (entries ++ [(key, .value data)]))
    path .defined entries

/-- Opens a table by its header. It may have been implied before, but not more. -/
def openTable (path : List String) (key : String) (entries : Entries) : Option Entries :=
  update .implied
    (fun _ entries =>
      match entries.lookup key with
      | none => some (entries ++ [(key, .table .defined [])])
      | some (.table .implied sub) => some (set key (.table .defined sub) entries)
      | some _ => none)
    path .defined entries

/-- Opens a new element of an array of tables. -/
def openElement (path : List String) (key : String) (entries : Entries) : Option Entries :=
  update .implied
    (fun _ entries =>
      match entries.lookup key with
      | none => some (entries ++ [(key, .tables [[]])])
      | some (.tables elements) => some (set key (.tables (elements ++ [[]])) entries)
      | some _ => none)
    path .defined entries

end Entries

end Unstack.Toml
