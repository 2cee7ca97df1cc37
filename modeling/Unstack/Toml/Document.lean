import Unstack.Toml.Value

/-!
TOML documents: pairs and headers, one on a line. A header opens the table that the pairs after it
belong to.

The rules are those by which the library toml reads TOML 1.0. Left out are what that library says of a
document that it refuses (see `CommandLine.Wording`), the places of values in the text, and the values
of numbers and dates, which stay as they are written.
-/

namespace Unstack.Toml

/-- A document that has been read in part: its entries, and the path of the open table. -/
structure Document where
  entries : Entries := []
  current : List String := []

namespace Document

/-- Gives a key of the open table a value. -/
def addPair (doc : Document) (key : Key) (data : Data) : Option Document :=
  (Entries.update .implied (fun _ entries => entries.insertValue key.path key.name data)
      doc.current .defined doc.entries).map
    fun entries => { doc with entries }

/-- Opens the table of a header. -/
def addTable (doc : Document) (key : Key) : Option Document :=
  (doc.entries.openTable key.path key.name).map fun entries =>
    ⟨entries, key.path ++ [key.name]⟩

/-- Opens a new element of the array of tables of a header. -/
def addElement (doc : Document) (key : Key) : Option Document :=
  (doc.entries.openElement key.path key.name).map fun entries =>
    ⟨entries, key.path ++ [key.name]⟩

/-- A header, after its first bracket: its key, and whether it opens an element of an array. -/
def header? (s : List Char) : Option (Taken s (Key × Bool)) :=
  match mark? '[' s with
  | some m =>
    (key? m.rest).bind fun k =>
      (mark? ']' k.rest).bind fun m₁ =>
        (mark? ']' m₁.rest).map fun m₂ =>
          m.followedBy (k.followedBy (m₁.followedBy (m₂.map fun _ => (k.value, true))))
  | none =>
    (key? s).bind fun k =>
      (mark? ']' k.rest).map fun m => k.followedBy (m.map fun _ => (k.value, false))

/-- Adds the header or pair that a text starts with. -/
def line? (doc : Document) (s : List Char) : Option (Taken s Document) :=
  match mark? '[' s with
  | some m =>
    (header? m.rest).bind fun t =>
      (if t.value.2 then doc.addElement t.value.1 else doc.addTable t.value.1).map fun doc =>
        m.followedBy (t.map fun _ => doc)
  | none =>
    (pair? value? s).bind fun t =>
      (doc.addPair t.value.1 t.value.2).map fun doc => t.map fun _ => doc

/-- Adds the lines of a text. The last one may be a comment that no line end follows. -/
def lines? (doc : Document) (s : List Char) : Option Document :=
  if (skipComment (skipFiller s).rest).rest.isEmpty then some doc
  else
    (line? doc (skipFiller s).rest).bind fun t =>
      (lineEnd? t.rest).bind fun q => lines? t.value q.rest
termination_by s.length
decreasing_by
  exact Nat.lt_of_le_of_lt q.noLonger (Nat.lt_of_lt_of_le t.shorter (skipFiller s).noLonger)

/-- Reads a document. A byte order mark may stand in front of it. -/
def read? (source : String) : Option Data :=
  let s := source.toList
  let body := if s.head? = some '\ufeff' then s.drop 1 else s
  (lines? {} body).map fun doc => .object (Node.fieldsOf doc.entries)

end Document

end Unstack.Toml
