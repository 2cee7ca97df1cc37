import Unstack.FileSystem.Path
import Unstack.Table

/-!
File systems: directories and files, without links. A place is the list of names from the root;
every place but the root is recorded, a path is followed step by step, and each step has to start in
a directory.

The refusals are those of Linux. Left out are owners and permissions, devices, limits of space, and
other programs that change the files.
-/

namespace Unstack

/-- Why a file or directory cannot be used. -/
inductive DiskError where
  | notFound
  | alreadyExists
  | notADirectory
  | isADirectory
  | nameTooLong
  | invalidUtf8
  /-- Any other reason, in the words of the system. -/
  | other (text : String)
deriving DecidableEq, Repr

namespace DiskError

def message : DiskError → String
  | notFound => "No such file or directory (os error 2)"
  | alreadyExists => "File exists (os error 17)"
  | notADirectory => "Not a directory (os error 20)"
  | isADirectory => "Is a directory (os error 21)"
  | nameTooLong => "File name too long (os error 36)"
  | invalidUtf8 => "stream did not contain valid UTF-8"
  | other text => text

end DiskError

/-- What is recorded at a place. -/
inductive FileNode where
  | file (content : ByteArray)
  | directory

/-- Files are the same if their bytes are. -/
instance : DecidableEq FileNode
  | .file a, .file b =>
    decidable_of_iff (a.data = b.data)
      ⟨fun h => congrArg FileNode.file (ByteArray.ext h),
        fun h => congrArg ByteArray.data (FileNode.file.inj h)⟩
  | .directory, .directory => isTrue rfl
  | .file _, .directory => isFalse nofun
  | .directory, .file _ => isFalse nofun

/-- Directories and files, and the place that relative paths start from. -/
structure FileSystem where
  nodes : Table (List String) FileNode
  workDir : List String

namespace FileSystem

/-- What is at a place. The root is a directory. -/
def node? (fs : FileSystem) (place : List String) : Option FileNode :=
  if place.isEmpty then some .directory else fs.nodes.get? place

/-- The place that one step leads to. -/
def enter (fs : FileSystem) (place : List String) (step : String) :
    Except DiskError (List String) :=
  match fs.node? place with
  | none => .error .notFound
  | some (.file _) => .error .notADirectory
  | some .directory =>
    if step = "." then .ok place
    else if step = ".." then .ok place.dropLast
    else if Path.isLongName step then .error .nameTooLong
    else if (fs.node? (place ++ [step])).isSome then .ok (place ++ [step])
    else .error .notFound

/-- The place that steps lead to. -/
def walk (fs : FileSystem) (absolute : Bool) (steps : List String) :
    Except DiskError (List String) :=
  steps.foldlM fs.enter (if absolute then [] else fs.workDir)

/-- The place of a path. Only a directory may be followed by a slash. -/
def locate (fs : FileSystem) (path : String) : Except DiskError (List String) :=
  if Path.isTooLong path then .error .nameTooLong
  else
    match fs.walk (Path.isAbsolute path) (Path.steps path) with
    | .error e => .error e
    | .ok place =>
      match fs.node? place with
      | some (.file _) => if Path.endsInSlash path then .error .notADirectory else .ok place
      | _ => .ok place

/-- The text of a file. -/
def readText (fs : FileSystem) (path : String) : Except DiskError String :=
  match fs.locate path with
  | .error e => .error e
  | .ok place =>
    match fs.node? place with
    | none => .error .notFound
    | some .directory => .error .isADirectory
    | some (.file content) =>
      match String.fromUTF8? content with
      | some text => .ok text
      | none => .error .invalidUtf8

/-- The directory in which the last step is taken, and that step. -/
def parent (fs : FileSystem) (absolute : Bool) (steps : List String) :
    Except DiskError (List String) :=
  match fs.walk absolute steps.dropLast with
  | .error e => .error e
  | .ok place =>
    match fs.node? place with
    | none => .error .notFound
    | some (.file _) => .error .notADirectory
    | some .directory => .ok place

def put (fs : FileSystem) (place : List String) (node : FileNode) : FileSystem :=
  { fs with nodes := fs.nodes.insert place node }

def isDots (step : String) : Bool :=
  step = "." || step = ".."

/-- The place of a file that may be written: a new name in a directory, or a file that is there. -/
def writable (fs : FileSystem) (path : String) : Except DiskError (List String) :=
  let steps := Path.steps path
  if Path.isTooLong path then .error .nameTooLong
  else
    match steps.getLast? with
    | none => .error .isADirectory
    | some name =>
      match fs.parent (Path.isAbsolute path) steps with
      | .error e => .error e
      | .ok dir =>
        if isDots name || Path.endsInSlash path then .error .isADirectory
        else if Path.isLongName name then .error .nameTooLong
        else
          match fs.node? (dir ++ [name]) with
          | some .directory => .error .isADirectory
          | _ => .ok (dir ++ [name])

/-- Writes a file, in place of the one that is there. -/
def write (fs : FileSystem) (path : String) (content : ByteArray) : Except DiskError FileSystem :=
  (fs.writable path).map fun place => fs.put place (.file content)

/-- Writes a text to a file. -/
def writeText (fs : FileSystem) (path text : String) : Except DiskError FileSystem :=
  fs.write path text.toUTF8

/-- Adds one directory. -/
def makeDir (fs : FileSystem) (absolute : Bool) (steps : List String) :
    Except DiskError FileSystem :=
  match steps.getLast? with
  | none => .error .alreadyExists
  | some name =>
    match fs.parent absolute steps with
    | .error e => .error e
    | .ok dir =>
      if isDots name || (fs.node? (dir ++ [name])).isSome then .error .alreadyExists
      else if Path.isLongName name then .error .nameTooLong
      else .ok (fs.put (dir ++ [name]) .directory)

/-- Whether steps lead to a directory. -/
def isDirectory (fs : FileSystem) (absolute : Bool) (steps : List String) : Bool :=
  match fs.walk absolute steps with
  | .ok place => fs.node? place == some .directory
  | .error _ => false

/-- Forgives a failure to add a directory that is there. -/
def unlessThere (fs : FileSystem) (absolute : Bool) (steps : List String) :
    Except DiskError FileSystem → Except DiskError Unit × FileSystem
  | .ok fs' => (.ok (), fs')
  | .error e => if fs.isDirectory absolute steps then (.ok (), fs) else (.error e, fs)

/-- Adds a directory with those above it. The directory above is added only when the first attempt
finds it missing. -/
def makeDirsAt (fs : FileSystem) (absolute : Bool) (steps : List String) :
    Except DiskError Unit × FileSystem :=
  if steps.isEmpty && !absolute then (.ok (), fs)
  else
    match fs.makeDir absolute steps with
    | .error .notFound =>
      if h : Path.components absolute steps = [] then (.error .notFound, fs)
      else
        have : (Path.components absolute steps).length - 1 < steps.length := by
          have h₁ := Path.length_components_le absolute steps
          have h₂ := List.length_pos_iff.2 h
          omega
        match fs.makeDirsAt absolute (Path.components absolute steps).dropLast with
        | (.error e, fs) => (.error e, fs)
        | (.ok (), fs) => fs.unlessThere absolute steps (fs.makeDir absolute steps)
    | result => fs.unlessThere absolute steps result
termination_by steps.length

/-- Adds the directory of a path with those above it. What was added stays if a later part fails. -/
def makeDirs (fs : FileSystem) (path : String) : Except DiskError Unit × FileSystem :=
  if Path.isTooLong path then (.error .nameTooLong, fs)
  else fs.makeDirsAt (Path.isAbsolute path) (Path.steps path)

/-- A file system with nothing but a directory to work in. -/
def fresh : FileSystem where
  nodes := .ofList [(["work"], .directory)]
  workDir := ["work"]

end FileSystem

end Unstack
