import Unstack.Annotation
import Unstack.Pseudocode.Layout

/-!
Decompiling a source text in one of three modes.
-/

namespace Unstack

/-- What is shown of a script. -/
inductive Mode where
  | pseudo
  | listing
  | annotate
deriving DecidableEq, Repr

/-- How a source text is decompiled. -/
structure Options where
  mode : Mode := .pseudo
  /-- The table of strings of the script, which annotations look up. -/
  strings : Option (List String) := none
deriving DecidableEq, Repr

namespace Mode

/-- The name under which the mode is serialized. -/
def tag : Mode → String
  | pseudo => "Pseudo"
  | listing => "Listing"
  | annotate => "Annotate"

/-- Every mode. -/
def all : List Mode :=
  [pseudo, listing, annotate]

def ofTag? (s : String) : Option Mode :=
  all.find? (·.tag == s)

theorem ofTag?_tag (mode : Mode) : ofTag? mode.tag = some mode := by
  cases mode <;> decide

end Mode

variable (reg : Registry)

/-- The pseudocode of the lines of a disassembly. -/
def decompileLines (lines : List String) : Except Error (List String) :=
  (Script.ofLines lines).map fun s => s.pseudocode reg

/-- What is noted while the pseudocode of lines is made. -/
def decompileLinesEvents (lines : List String) : List Event :=
  Script.liftEvents reg lines ++
    match Script.ofLines lines with
    | .ok s => s.bindingEvents reg
    | .error _ => []

/-- The lines that are shown of a source text. -/
def outputLines (options : Options) (source : String) : Except Error (List String) :=
  let lines := Script.sourceLines source
  match options.mode with
  | .pseudo => decompileLines reg lines
  | .listing => (Script.ofLines lines).map Script.listing
  | .annotate => .ok (annotate reg options.strings lines)

/-- Decompiles a source text. Every line of the output ends in a newline. -/
def decompile (options : Options) (source : String) : Except Error String :=
  (outputLines reg options source).map fun lines => String.join (lines.map (· ++ "\n"))

/-- What is noted while a source text is decompiled. -/
def decompileEvents (options : Options) (source : String) : List Event :=
  let lines := Script.sourceLines source
  match options.mode with
  | .pseudo => decompileLinesEvents reg lines
  | .listing => Script.liftEvents reg lines
  | .annotate => annotateEvents reg options.strings lines

end Unstack
