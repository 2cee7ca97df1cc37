import Unstack.Text.Split

/-!
Paths as text: names between slashes. A single dot stays where it is and two dots go up.
-/

namespace Unstack.Path

def isAbsolute (path : String) : Bool :=
  path.toList.head? == some '/'

def endsInSlash (path : String) : Bool :=
  path.toList.getLast? == some '/'

/-- The names between the slashes. -/
def steps (path : String) : List String :=
  ((Text.splitOn '/' path.toList).filter (!·.isEmpty)).map String.ofList

/-- Whether a path takes more bytes than the system accepts. -/
def isTooLong (path : String) : Bool :=
  4095 < path.utf8ByteSize

/-- Whether a name takes more bytes than a directory can record. -/
def isLongName (name : String) : Bool :=
  255 < name.utf8ByteSize

/-- The steps that matter to the shape of a path: single dots count only at the very start. -/
def components (absolute : Bool) : List String → List String
  | [] => []
  | step :: rest =>
    if step = "." ∧ !absolute then step :: rest.filter (· ≠ ".")
    else (step :: rest).filter (· ≠ ".")

theorem length_components_le (absolute : Bool) (l : List String) :
    (components absolute l).length ≤ l.length := by
  cases l with
  | nil => simp [components]
  | cons step rest =>
    simp only [components]
    split
    · simpa using List.length_filter_le _ rest
    · exact List.length_filter_le _ _

/-- The name that a path ends in, unless it ends in dots or in nothing. -/
def fileName? (path : String) : Option String :=
  (components (isAbsolute path) (steps path)).getLast?.filter fun name =>
    name ≠ "." ∧ name ≠ ".."

/-- A name without its extension: the text before the last dot, unless nothing is there. -/
def stem (name : String) : String :=
  match name.toList.reverse.dropWhile (· ≠ '.') with
  | [] | [_] => name
  | _ :: r => String.ofList r.reverse

example :
    [".hidden", "trail.", "n.b.c", "plain"].map stem = [".hidden", "trail", "n.b", "plain"] := by
  decide

/-- The path of a name in a directory. -/
def join (dir name : String) : String :=
  if endsInSlash dir then dir ++ name else dir ++ "/" ++ name

end Unstack.Path
