import Unstack.CommandLine.Request
import Unstack.Event
import Unstack.FileSystem.Basic
import Unstack.Text.Plain

/-!
Hosts: what a program may do besides computing. A program is written against a host, so it runs on
the machine's files and, without change, on a `World`, whose files are a value.

The log is laid out as env_logger does it for a channel that is no terminal. Left out are the time
stamp of an entry and the variable RUST_LOG, which would choose the entries that show.
-/

namespace Unstack.CommandLine

/-- Something for the error channel: an entry of the log, or a message that always shows. -/
inductive Notice where
  | event (e : Event)
  | message (text : String)
deriving DecidableEq, Repr

namespace Notice

/-- Indents all lines of a message but the first. -/
def indentLines (s : List Char) : List Char :=
  s.flatMap fun c => if c = '\n' then "\n    ".toList else [c]

/-- The entry of an event in the log, with the level in a column of its own. It is plain text,
whatever the message holds. -/
def logLine (e : Event) : String :=
  let level := String.ofList (e.level.name.toList.rightpad 5 ' ')
  let line := s!"[{level} {e.origin}] ".toList ++ indentLines e.message.toList ++ ['\n']
  String.ofList (Text.plain line)

/-- The text of a notice. Events below a warning show only in a full log. -/
def text (verbose : Bool) : Notice → String
  | message text => text ++ "\n"
  | event e => if verbose || e.level = .warn then logLine e else ""

end Notice

/-- What one command line is told in words that the program does not choose: those of clap, which
reads the arguments, and of toml, which reads overlays. Any texts may stand here, and other ones for
another command line. -/
structure Wording where
  help : String
  version : String
  /-- Said if the arguments make no request. -/
  usage : String
  completion : Shell → String
  /-- Said of a text that is not read as an overlay. -/
  overlayError : String → String
deriving Inhabited

/-- The effects of a program in a monad `m`, and the words that it is given. -/
structure Host (m : Type → Type) where
  readText : String → m (Except DiskError String)
  writeText : String → String → m (Except DiskError Unit)
  makeDirs : String → m (Except DiskError Unit)
  /-- Adds to the output. -/
  print : String → m Unit
  report : Notice → m Unit
  wording : Wording

/-- Files, and what has been put out so far. -/
structure World where
  files : FileSystem
  output : String := ""
  notices : List Notice := []

namespace World

/-- The effects on a world. -/
def host (wording : Wording) : Host (StateM World) where
  readText path := fun w => (w.files.readText path, w)
  writeText path text := fun w =>
    match w.files.writeText path text with
    | .ok files => (.ok (), { w with files })
    | .error e => (.error e, w)
  makeDirs path := fun w =>
    let (result, files) := w.files.makeDirs path
    (result, { w with files })
  print text := fun w => ((), { w with output := w.output ++ text })
  report notice := fun w => ((), { w with notices := w.notices ++ [notice] })
  wording := wording

/-- The text of the error channel. -/
def errors (w : World) (verbose : Bool) : String :=
  String.join (w.notices.map (Notice.text verbose))

end World

end Unstack.CommandLine
