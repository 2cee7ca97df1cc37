/-!
Signatures of builtin functions: the parameters of a call, the one pushed last in front.
-/

namespace Unstack

/-- What a parameter's number stands for. -/
inductive ParamKind where
  | numeric
  /-- An index into the script's own table of strings. -/
  | rawString
  /-- An id in a language file. -/
  | languageString
deriving DecidableEq, Repr

structure Param where
  name : String
  kind : ParamKind
deriving DecidableEq, Repr

/-- The first parameter is the value pushed last before the call. -/
structure Signature where
  params : List Param := []
deriving DecidableEq, Repr

namespace ParamKind

/-- The kind in the text of a signature. -/
def text : ParamKind → String
  | numeric => "num"
  | rawString => "str"
  | languageString => "strid"

/-- The name under which the kind is serialized. -/
def tag : ParamKind → String
  | numeric => "numeric"
  | rawString => "raw_string"
  | languageString => "language_string_id"

/-- Every kind of parameter. -/
def all : List ParamKind :=
  [numeric, rawString, languageString]

def ofTag? (s : String) : Option ParamKind :=
  all.find? (·.tag == s)

theorem ofTag?_tag (kind : ParamKind) : ofTag? kind.tag = some kind := by
  cases kind <;> decide

end ParamKind

namespace Signature

/-- The parameter list as text, such as `(file: str, param: num)`. -/
def text (sig : Signature) : String :=
  "(" ++ ", ".intercalate (sig.params.map fun p => s!"{p.name}: {p.kind.text}") ++ ")"

end Signature

end Unstack
