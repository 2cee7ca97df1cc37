import Unstack.CommandLine.Program

/-!
The command line on the machine's own files.
-/

namespace Unstack.CommandLine

/-- The number by which the system says that a directory stands where a file is wanted. -/
def isADirectoryCode : UInt32 := 21

/-- The number by which the system says that a name is too long. -/
def nameTooLongCode : UInt32 := 36

/-- The number of a system error, which some calls give with a negative sign. -/
def errorNumber (code : UInt32) : UInt32 :=
  min code (0 - code)

/-- What the system says against a file or directory. -/
def diskError : IO.Error → DiskError
  | .noFileOrDirectory _ _ _ | .noSuchThing _ _ _ => .notFound
  | .alreadyExists _ _ _ => .alreadyExists
  | .inappropriateType _ code _ =>
    if errorNumber code = isADirectoryCode then .isADirectory else .notADirectory
  | .invalidArgument path code details =>
    if errorNumber code = nameTooLongCode then .nameTooLong
    else .other (toString (IO.Error.invalidArgument path code details))
  | e => .other (toString e)

/-- Carries out an action of the system. -/
def attempt {α : Type} (act : IO α) : IO (Except DiskError α) := do
  try pure (.ok (← act))
  catch e => pure (.error (diskError e))

/-- Forgives a failure to add a directory that is there. -/
def unlessThere (path : String) : Except DiskError Unit → IO (Except DiskError Unit)
  | .error .alreadyExists => do
    match ← attempt (IO.FS.createDirAll path) with
    | .ok () => pure (.ok ())
    | .error _ => pure (.error .alreadyExists)
  | result => pure result

/-- Adds a directory with those above it. The directory above is added only when the first attempt
finds it missing. -/
partial def createDirs (absolute : Bool) (steps : List String) : IO (Except DiskError Unit) := do
  if steps.isEmpty && !absolute then pure (.ok ())
  else
    let path := (if absolute then "/" else "") ++ "/".intercalate steps
    let components := Path.components absolute steps
    match ← attempt (IO.FS.createDir path) with
    | .error .notFound =>
      if components.isEmpty then pure (.error .notFound)
      else
        match ← createDirs absolute components.dropLast with
        | .error e => pure (.error e)
        | .ok () => unlessThere path (← attempt (IO.FS.createDir path))
    | result => unlessThere path result

/-- The words on the machine, of which only the version is known; the others are left empty. -/
def knownWording : Wording :=
  { (default : Wording) with version := "emcdec 0.1.0\n" }

/-- The effects on the machine. -/
def machine (verbose : Bool) : Host IO where
  readText path := do
    match ← attempt (IO.FS.readBinFile path) with
    | .error e => pure (.error e)
    | .ok content =>
      match String.fromUTF8? content with
      | some text => pure (.ok text)
      | none => pure (.error .invalidUtf8)
  writeText path text := attempt (IO.FS.writeFile path text)
  makeDirs path := createDirs (Path.isAbsolute path) (Path.steps path)
  print text := do (← IO.getStdout).putStr text
  report notice := do (← IO.getStderr).putStr (notice.text verbose)
  wording := knownWording

end Unstack.CommandLine

open Unstack.CommandLine in
def main (args : List String) : IO UInt32 := do
  match invocation? args with
  | none =>
    (← IO.getStderr).putStr knownWording.usage
    pure 2
  | some invocation =>
    let exit ← Program.exitStatus (machine invocation.verbose) invocation.request
    pure exit.toUInt32
