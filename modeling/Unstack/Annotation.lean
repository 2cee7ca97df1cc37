import Unstack.Script

/-!
Annotations: a disassembly in which every call of a known function that takes values shows them. The
values are read from the lines right above the call, the first parameter from the nearest one.
-/

namespace Unstack.Annotation

/-- The value that a line pushes, if pushing a number is what it does. -/
def pushed? (line : String) : Option Int :=
  match Command.wordsOf line with
  | "PUSH" :: operand :: _ => Operand.read? operand.toList
  | _ => none

/-- The function that a line calls, with its signature, if it is known and takes values. -/
def annotated? (reg : Registry) (line : String) : Option (String × Signature) :=
  match Command.wordsOf line with
  | "CALL" :: name :: _ =>
    ((reg.lookup name).filter fun sig => !sig.params.isEmpty).map fun sig => (name, sig)
  | _ => none

variable (strings : Option (List String))

/-- The string with this index in the table of the script, if there is a table and it has one. -/
def string? (v : Int) : Option String :=
  if v < 0 then none else strings.bind fun table => table[v.toNat]?

/-- A value as the kind of its parameter shows it. -/
def valueText (v : Int) : ParamKind → String
  | .numeric => toString v
  | .rawString => (string? strings v).getD s!"<str:{v}>"
  | .languageString => s!"<strid:{v}>"

/-- The argument of parameter number `i`. -/
def argumentText (i : Nat) (p : Param) (value? : Option Int) : String :=
  let text := match value? with
    | some v => valueText strings v p.kind
    | none => "?"
  s!" {i}({p.name}):{text}"

/-- What is noted of an argument of a call at this line. -/
def argumentEvents (line : Nat) (name : String) (p : Param) : Option Int → List Event
  | none => [.notAPush line p.name name]
  | some v =>
    match p.kind, strings with
    | .rawString, some table =>
      if (string? strings v).isNone then [.stringIndexOutside line v table.length] else []
    | _, _ => []

/-- The parameters with their positions and with the values pushed by the lines above a call, the
nearest line first. -/
def arguments (above : List String) (sig : Signature) : List (Nat × Param × Option Int) :=
  sig.params.zipIdx.map fun (p, i) => (i, p, above[i]?.bind pushed?)

/-- A line without the blanks at its end. -/
def trimmed (line : String) : String :=
  String.ofList (Text.trimEnd line.toList)

/-- A line with its annotation, given the lines above it, the nearest one first. -/
def lineText (reg : Registry) (above : List String) (line : String) : String :=
  match annotated? reg line with
  | none => trimmed line
  | some (_, sig) =>
    trimmed line ++ " args:" ++
      String.join ((arguments above sig).map fun (i, p, v?) => argumentText strings i p v?)

/-- What is noted while a line is annotated. -/
def lineEvents (reg : Registry) (above : List String) (line : String) : List Event :=
  match annotated? reg line with
  | none => []
  | some (name, sig) =>
    (arguments above sig).flatMap fun (_, p, v?) =>
      argumentEvents strings (above.length + 1) name p v?

/-- The annotated lines, after the lines in `above` (the nearest one first). -/
def annotateAfter (reg : Registry) (above : List String) : List String → List String
  | [] => []
  | line :: rest => lineText strings reg above line :: annotateAfter reg (line :: above) rest

/-- What is noted while lines are annotated. -/
def eventsAfter (reg : Registry) (above : List String) : List String → List Event
  | [] => []
  | line :: rest => lineEvents strings reg above line ++ eventsAfter reg (line :: above) rest

end Unstack.Annotation

namespace Unstack

/-- The lines of a disassembly with their annotations, one for each line. `strings` is the table of
strings of the script, if it is at hand. -/
def annotate (reg : Registry) (strings : Option (List String)) (lines : List String) :
    List String :=
  Annotation.annotateAfter strings reg [] lines

/-- What is noted while a disassembly is annotated. -/
def annotateEvents (reg : Registry) (strings : Option (List String)) (lines : List String) :
    List Event :=
  Annotation.eventsAfter strings reg [] lines

end Unstack
