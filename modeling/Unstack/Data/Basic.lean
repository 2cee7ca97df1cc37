/-!
Structured data: the values that configuration formats have in common, apart from how any one of
them writes a value down.
-/

namespace Unstack

/-- A value of a configuration format. -/
inductive Data where
  | null
  | bool (value : Bool)
  /-- A number as it is written. -/
  | number (text : String)
  | string (value : String)
  | array (items : List Data)
  /-- Fields by name; no name occurs twice. -/
  | object (fields : List (String × Data))
deriving Inhabited, Repr

/-- A configuration format, as far as reading a value depends on it. -/
structure Format where
  /-- Whether a value is what the format writes for a tag that comes with no content. -/
  isNothing : Data → Bool
  /-- Whether a structure written by position may have items after its last field. -/
  allowsSurplus : Bool

namespace Format

/-- Nothing is written `null`, and a structure has no surplus items. -/
def json : Format where
  isNothing
    | .null => true
    | _ => false
  allowsSurplus := false

/-- Nothing is written as an empty table or array, and surplus items are ignored. -/
def toml : Format where
  isNothing
    | .object [] | .array [] => true
    | _ => false
  allowsSurplus := true

end Format

namespace Data

def string? : Data → Option String
  | string value => some value
  | _ => none

def array? : Data → Option (List Data)
  | array items => some items
  | _ => none

/-- The field of this name, if the value has fields and one is called so. -/
def field? (name : String) : List (String × Data) → Option Data :=
  List.lookup name

/-- The name of a tag: a string, or an object whose one field has the name and no content. -/
def tag? (format : Format) : Data → Option String
  | string value => some value
  | object [(name, content)] => if format.isNothing content then some name else none
  | _ => none

/-- The fields of a structure with the given field names, absent ones as `none`. They are written by
name, in any order and among others, or by position; then later ones may be left out, and whether
there may be surplus items is up to the format. -/
def record? (format : Format) (names : List String) : Data → Option (List (Option Data))
  | object fields => some (names.map fun name => field? name fields)
  | array items =>
    if format.allowsSurplus || items.length ≤ names.length then
      some (names.zipIdx.map fun n => items[n.2]?)
    else none
  | _ => none

/-- Reads a field that may be absent. -/
def orDefault {α : Type} (read : Data → Option α) (absent : α) : Option Data → Option α
  | none => some absent
  | some d => read d

end Data

end Unstack
