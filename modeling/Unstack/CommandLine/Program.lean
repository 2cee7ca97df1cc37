import Unstack.Builtin.Overlay
import Unstack.Builtin.Standard
import Unstack.CommandLine.Host
import Unstack.Text.Quoted

/-!
The program behind the command line. Builtins are loaded first, then the table of strings, then the
script; a file is written, or output printed, only after everything before has succeeded. A batch
goes on after a script that fails.
-/

namespace Unstack.CommandLine

/-- Why a request cannot be carried out. -/
inductive Failure where
  | unreadable (path : String) (e : DiskError)
  | unwritable (path : String) (e : DiskError)
  | uncreatable (path : String) (e : DiskError)
  /-- The overlay at a path is refused for a reason that the reader of overlays puts into words. -/
  | badOverlay (path reason : String)
  | badScript (path : String) (e : Error)
  /-- Some scripts of a batch failed. -/
  | incomplete (failed total : Nat)
deriving DecidableEq, Repr

namespace Failure

def message : Failure → String
  | unreadable path e => s!"failed to read {Text.quoted path}: {e.message}"
  | unwritable path e => s!"failed to write {Text.quoted path}: {e.message}"
  | uncreatable path e => s!"failed to create {Text.quoted path}: {e.message}"
  | badOverlay path reason => s!"{path}: invalid builtin registry: {reason}"
  | badScript path e => s!"{path}: {e.message}"
  | incomplete failed total => s!"{failed} of {total} scripts failed"

end Failure

namespace Program

variable {m : Type → Type} [Monad m] (host : Host m)

/-- An action that may fail. -/
abbrev Action (m : Type → Type) := ExceptT Failure m

/-- Turns the refusal of a disk into a failure. -/
def orFail {α : Type} (failure : DiskError → Failure) (act : m (Except DiskError α)) :
    Action m α :=
  ExceptT.mk do
    match ← act with
    | .ok a => pure (.ok a)
    | .error e => pure (.error (failure e))

/-- Reports events. -/
def note (events : List Event) : Action m Unit :=
  ExceptT.lift (events.forM fun e => host.report (.event e))

/-- Adds to the output. -/
def print (text : String) : Action m Unit :=
  ExceptT.lift (host.print text)

def readText (path : String) : Action m String :=
  orFail (.unreadable path) (host.readText path)

/-- The standard registry, extended by the overlay at a path. -/
def loadRegistry : Option String → Action m Registry
  | none => pure .standard
  | some path => do
    let text ← readText host path
    match Registry.ofToml host.wording.overlayError text with
    | .error reason => throw (.badOverlay path reason)
    | .ok overlay =>
      note host [.signaturesLoaded overlay.size path]
      pure (Registry.standard.extend overlay)

/-- The options of a decompilation, with the table of strings at a path. -/
def loadOptions (sources : Sources) : Action m Options :=
  match sources.strings with
  | none => pure ⟨sources.mode, none⟩
  | some path => do
    let strings := Script.sourceLines (← readText host path)
    note host [.stringsLoaded strings.length path]
    pure ⟨sources.mode, some strings⟩

/-- Decompiles the script at a path. -/
def decompileAt (reg : Registry) (options : Options) (path : String) : Action m String := do
  let source ← readText host path
  note host (decompileEvents reg options source)
  match decompile reg options source with
  | .ok text => pure text
  | .error e => throw (.badScript path e)

/-- Decompiles one script, to a file or to the output. -/
def runFile (path : String) (output : Option String) (sources : Sources) : Action m Unit := do
  let reg ← loadRegistry host sources.builtins
  let options ← loadOptions host sources
  let text ← decompileAt host reg options path
  match output with
  | some dst => orFail (.unwritable dst) (host.writeText dst text)
  | none => print host text

/-- The file that a batch writes for a script. -/
def outPath (dir script : String) : String :=
  Path.join dir ((((Path.fileName? script).map Path.stem).getD "script") ++ ".pseudo")

/-- What a batch says of a script that failed. -/
def failureNotice : Failure → String
  | .unwritable path e => (Failure.unwritable path e).message
  | failure => "decompile error: " ++ failure.message

/-- Decompiles one script of a batch. -/
def runScript (reg : Registry) (options : Options) (outDir : Option String) (path : String) :
    Action m Unit := do
  let text ← decompileAt host reg options path
  match outDir with
  | some dir => orFail (.unwritable (outPath dir path)) (host.writeText (outPath dir path) text)
  | none => print host (s!"// {path}\n" ++ text)

/-- Decompiles the scripts one after the other and counts those that fail. -/
def runScripts (reg : Registry) (options : Options) (outDir : Option String) :
    List String → m Nat
  | [] => pure 0
  | path :: rest => do
    match ← (runScript host reg options outDir path).run with
    | .ok () => runScripts reg options outDir rest
    | .error failure =>
      host.report (.message (failureNotice failure))
      let failed ← runScripts reg options outDir rest
      pure (failed + 1)

/-- Decompiles a list of scripts, each to a file in a directory or all to the output. -/
def runBatch (paths : List String) (outDir : Option String) (sources : Sources) :
    Action m Unit := do
  let reg ← loadRegistry host sources.builtins
  let options ← loadOptions host sources
  match outDir with
  | some dir => orFail (.uncreatable dir) (host.makeDirs dir)
  | none => pure ()
  let failed ← ExceptT.lift (runScripts host reg options outDir paths)
  if failed = 0 then pure () else throw (.incomplete failed paths.length)

/-- Lists the builtin functions. -/
def runBuiltins (overlay : Option String) : Action m Unit := do
  let reg ← loadRegistry host overlay
  print host (String.join (reg.listing.map (· ++ "\n")))

/-- Carries out a request. -/
def run : Request → Action m Unit
  | .help => print host host.wording.help
  | .version => print host host.wording.version
  | .completion shell => print host (host.wording.completion shell)
  | .builtins overlay => runBuiltins host overlay
  | .file path output sources => runFile host path output sources
  | .batch paths outDir sources => runBatch host paths outDir sources

/-- Carries out a request and gives the exit status; a failure is reported. -/
def exitStatus (request : Request) : m Nat := do
  match ← (run host request).run with
  | .ok () => pure 0
  | .error failure =>
    host.report (.message failure.message)
    pure 1

end Program

/-- What a command line does in a world: the exit status, the output, the text of the error channel
and the files afterwards. -/
structure Report where
  exit : Nat
  output : String
  errors : String
  files : FileSystem

/-- Carries out a command line on files. A usage error has the exit status 2. -/
def execute (wording : Wording) (files : FileSystem) (args : List String) : Report :=
  match invocation? args with
  | none => ⟨2, "", wording.usage, files⟩
  | some invocation =>
    let (exit, world) := (Program.exitStatus (World.host wording) invocation.request).run { files }
    ⟨exit, world.output, world.errors invocation.verbose, world.files⟩

end Unstack.CommandLine
