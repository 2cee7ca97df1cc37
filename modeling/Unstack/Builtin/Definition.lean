import Unstack.Builtin.Registry
import Unstack.Text.Split

/-!
Definition files: one function on a line, written `DEF(name, KIND parameter, ...)` with the kinds
`NUM`, `STR` and `STRID`. Blank lines and lines that start with `#` are skipped, and what follows
the last closing parenthesis of a line is ignored.
-/

namespace Unstack

/-- A function with its parameters, as a definition file gives it. -/
structure Definition where
  name : String
  params : List Param
deriving DecidableEq, Repr

/-- Why a line of a definition file is refused. -/
inductive DefinitionFault where
  | notADefinition
  | unclosed
  | unnamed
  | duplicate (name : String)
  | badParameter (text : String)
  | unknownKind (text : String)
deriving DecidableEq, Repr

/-- Why a definition file is refused, at a line counted from one. -/
structure DefinitionError where
  line : Nat
  fault : DefinitionFault
deriving DecidableEq, Repr

namespace DefinitionError

def message (e : DefinitionError) : String :=
  match e.fault with
  | .notADefinition => s!"builtins.def:{e.line}: expected DEF(...)"
  | .unclosed => s!"builtins.def:{e.line}: missing `)`"
  | .unnamed => s!"builtins.def:{e.line}: missing function name"
  | .duplicate name => s!"builtins.def:{e.line}: `{name}` defined twice"
  | .badParameter text => s!"builtins.def:{e.line}: bad parameter `{text}`"
  | .unknownKind text => s!"unknown builtin parameter kind `{text}`"

end DefinitionError

namespace Definition

/-- The kind that a definition file writes as this word. -/
def kind? (word : List Char) : Option ParamKind :=
  match String.ofList word with
  | "NUM" => some .numeric
  | "STR" => some .rawString
  | "STRID" => some .languageString
  | _ => none

/-- Reads a parameter: the word of its kind and its name. -/
def param (text : List Char) : Except DefinitionFault Param :=
  match Text.words text with
  | [kind, name] =>
    match kind? kind with
    | some kind => .ok ⟨String.ofList name, kind⟩
    | none => .error (.unknownKind (String.ofList kind))
  | _ => .error (.badParameter (String.ofList text))

/-- The text in front of the last closing parenthesis, if there is one. -/
def untilClose? (s : List Char) : Option (List Char) :=
  match s.reverse.dropWhile (· ≠ ')') with
  | [] => none
  | _ :: r => some r.reverse

/-- The text after the opening `DEF(`, if the line starts with it. -/
def afterOpen? (s : List Char) : Option (List Char) :=
  if "DEF(".toList.isPrefixOf s then some (s.drop 4) else none

/-- Reads the parts between the commas, after those in `seen` have been read. A repeated name is
found before the parameters are looked at. -/
def ofParts (seen : List Definition) : List (List Char) → Except DefinitionFault Definition
  | [] => .error .unnamed
  | name :: params =>
    if name.isEmpty then .error .unnamed
    else if seen.any (·.name == String.ofList name) then .error (.duplicate (String.ofList name))
    else (params.mapM param).map fun params => ⟨String.ofList name, params⟩

/-- Reads a trimmed line that is neither blank nor a comment. -/
def ofLine (seen : List Definition) (line : List Char) : Except DefinitionFault Definition :=
  match afterOpen? line with
  | none => .error .notADefinition
  | some rest =>
    match untilClose? (Text.trim rest) with
    | none => .error .unclosed
    | some inner => ofParts seen ((Text.splitOn ',' (Text.trim inner)).map Text.trim)

/-- Whether a trimmed line holds no definition. -/
def isFiller (line : List Char) : Bool :=
  line.isEmpty || line.head? == some '#'

/-- Reads the lines from line `n` on, after those that gave `seen`. -/
def ofLines (seen : List Definition) (n : Nat) :
    List (List Char) → Except DefinitionError (List Definition)
  | [] => .ok seen
  | line :: rest =>
    if isFiller (Text.trim line) then ofLines seen (n + 1) rest
    else
      match ofLine seen (Text.trim line) with
      | .ok d => ofLines (seen ++ [d]) (n + 1) rest
      | .error fault => .error ⟨n, fault⟩

/-- Reads a definition file. -/
def read (source : String) : Except DefinitionError (List Definition) :=
  ofLines [] 1 (Text.lines source.toList)

/-- The constructor that stands for a kind in the generated table. -/
def kindEntry : ParamKind → String
  | .numeric => "DefKind::Num"
  | .rawString => "DefKind::Str"
  | .languageString => "DefKind::StrId"

/-- The definition as an entry of the generated table. Names stand between quotes as they are. -/
def entry (d : Definition) : String :=
  let params := d.params.map fun p => s!"(\"{p.name}\", {kindEntry p.kind})"
  s!"BuiltinDef \x7b name: \"{d.name}\", params: &[" ++ ", ".intercalate params ++ "] \x7d,"

/-- The registry of the defined functions. -/
def registry (defs : List Definition) : Registry :=
  Table.ofList (defs.map fun d => (d.name, ⟨d.params⟩))

end Definition

end Unstack
