import Unstack.Decompile

/-!
Requests: what a command line asks for, read from its arguments. Arguments are taken from left to
right; the first one that is wrong makes the whole line a usage error, and the first one that asks
for help or the version ends the reading.

These are the rules by which clap reads the commands and options, as far as they bear on what is asked
for. Left out are its texts (see `Wording`) and arguments that are not Unicode.
-/

namespace Unstack.CommandLine

/-- The shells for which completions can be made. -/
inductive Shell where
  | bash
  | elvish
  | fish
  | powershell
  | zsh
deriving DecidableEq, Repr

/-- What the commands that decompile have in common: the mode, and the paths of an overlay of
builtins and of a table of strings. -/
structure Sources where
  mode : Mode := .pseudo
  builtins : Option String := none
  strings : Option String := none
deriving DecidableEq, Repr

/-- What is asked for. -/
inductive Request where
  | help
  | version
  | completion (shell : Shell)
  /-- Lists the builtin functions. -/
  | builtins (overlay : Option String)
  | file (path : String) (output : Option String) (sources : Sources)
  | batch (paths : List String) (outDir : Option String) (sources : Sources)
deriving DecidableEq, Repr

/-- A request, and whether it is to be carried out with a full log. -/
structure Invocation where
  verbose : Bool
  request : Request
deriving DecidableEq, Repr

/-- A command or the group it belongs to. -/
inductive Level where
  | top
  | decompile
  | file
  | batch
  | builtins
  | completion
deriving DecidableEq, Repr

/-- An option that takes a value. -/
inductive Field where
  | mode
  | builtins
  | strings
  | output
  | outDir
deriving DecidableEq, Repr

namespace Shell

def ofName? : String → Option Shell
  | "bash" => some bash
  | "elvish" => some elvish
  | "fish" => some fish
  | "powershell" => some powershell
  | "zsh" => some zsh
  | _ => none

end Shell

namespace Field

/-- The long name of the option. -/
def name : Field → String
  | mode => "mode"
  | builtins => "builtins"
  | strings => "strings"
  | output => "output"
  | outDir => "out-dir"

/-- The letter of the option, if it has one. -/
def letter? : Field → Option Char
  | output => some 'o'
  | _ => none

/-- The modes as the command line names them. -/
def mode? : String → Option Mode
  | "pseudo" => some .pseudo
  | "listing" => some .listing
  | "annotate" => some .annotate
  | _ => none

/-- Whether the option takes this value. Paths may not be empty. -/
def accepts (f : Field) (value : String) : Bool :=
  match f with
  | mode => (mode? value).isSome
  | _ => !value.isEmpty

end Field

namespace Level

/-- The options with a value that a command takes. -/
def fields : Level → List Field
  | file => [.mode, .builtins, .strings, .output]
  | batch => [.mode, .builtins, .strings, .outDir]
  | builtins => [.builtins]
  | top | decompile | completion => []

/-- The command of this name in a group. -/
def sub? : Level → String → Option Level
  | top, "decompile" => some decompile
  | top, "builtins" => some builtins
  | top, "completion" => some completion
  | decompile, "file" => some file
  | decompile, "batch" => some batch
  | _, _ => none

/-- Whether other commands belong to this one. -/
def isGroup : Level → Bool
  | top | decompile => true
  | _ => false

/-- Whether the names lead from a group to a command, help included. -/
def hasTopic : Level → List String → Bool
  | _, [] => true
  | level, name :: rest =>
    match level.sub? name with
    | some sub => sub.hasTopic rest
    | none => level.isGroup && name = "help" && rest.isEmpty

/-- Whether a command takes this word after the words it has. -/
def acceptsWord (level : Level) (words : List String) (word : String) : Bool :=
  match level with
  | top | decompile | builtins => false
  | file => words.isEmpty && !word.isEmpty
  | batch => !word.isEmpty
  | completion => words.isEmpty && (Shell.ofName? word).isSome

end Level

/-- What has been read of a command line. -/
structure Reading where
  level : Level := .top
  /-- Whether the full log has been asked for, at any level. -/
  verbose : Bool := false
  /-- Whether it has been asked for at this level, where it may be only once. -/
  verboseHere : Bool := false
  fields : List (Field × String) := []
  words : List String := []

namespace Reading

/-- Enters a command of a group. -/
def enter (r : Reading) (level : Level) : Reading :=
  { level, verbose := r.verbose }

/-- Notes the wish for a full log. -/
def setVerbose (r : Reading) : Option Reading :=
  if r.verboseHere then none else some { r with verbose := true, verboseHere := true }

/-- Gives an option its value; it may have only one. -/
def setField (r : Reading) (f : Field) (value : String) : Option Reading :=
  if (r.fields.lookup f).isSome || !f.accepts value then none
  else some { r with fields := (f, value) :: r.fields }

def addWord (r : Reading) (word : String) : Option Reading :=
  if r.level.acceptsWord r.words word then some { r with words := r.words ++ [word] } else none

/-- The values of the options that the commands that decompile have in common. -/
def sources (r : Reading) : Sources where
  mode := ((r.fields.lookup .mode).bind Field.mode?).getD .pseudo
  builtins := r.fields.lookup .builtins
  strings := r.fields.lookup .strings

/-- The request at the end of the arguments, if nothing is missing. Without a command it is for
help. -/
def request? (r : Reading) : Option Request :=
  match r.level, r.words with
  | .top, _ => some .help
  | .decompile, _ => none
  | .file, path :: _ => some (.file path (r.fields.lookup .output) r.sources)
  | .batch, path :: paths => some (.batch (path :: paths) (r.fields.lookup .outDir) r.sources)
  | .builtins, _ => some (.builtins (r.fields.lookup .builtins))
  | .completion, shell :: _ => (Shell.ofName? shell).map .completion
  | _, [] => none

def finish (r : Reading) : Option Invocation :=
  r.request?.map fun request => ⟨r.verbose, request⟩

/-- The outcome of reading one argument. -/
inductive Step where
  | usageError
  | next (r : Reading)
  /-- The next argument is the value of this option. -/
  | value (r : Reading) (f : Field)
  | done (request : Request)

/-- Goes on if there is a reading to go on with. -/
def Step.ofOption : Option Reading → Step
  | some r => .next r
  | none => .usageError

/-- Reads the letters of an argument that starts with one dash. The letter of an option that takes a
value ends them: what follows is the value, without an equals sign in front. -/
def letters (r : Reading) : List Char → Step
  | [] => .next r
  | c :: rest =>
    if c = 'h' then .done .help
    else if c = 'V' ∧ r.level = .top then .done .version
    else if c = 'v' then
      match r.setVerbose with
      | some r => r.letters rest
      | none => .usageError
    else
      match r.level.fields.find? fun f => f.letter? = some c with
      | none => .usageError
      | some f =>
        match rest with
        | [] => .value r f
        | '=' :: value => .ofOption (r.setField f (String.ofList value))
        | value => .ofOption (r.setField f (String.ofList value))

/-- Reads the name of an argument that starts with two dashes, and the value after an equals
sign. -/
def long (r : Reading) (name : String) (value? : Option String) : Step :=
  match r.level.fields.find? fun f => f.name = name with
  | some f =>
    match value? with
    | some value => .ofOption (r.setField f value)
    | none => .value r f
  | none =>
    if value?.isSome then .usageError
    else if name = "help" then .done .help
    else if name = "version" ∧ r.level = .top then .done .version
    else if name = "verbose" then .ofOption r.setVerbose
    else .usageError

/-- Reads an argument that is an option: two dashes and a name, or one dash and letters. A single
dash alone is a word. -/
def option? (r : Reading) (arg : String) : Option Step :=
  match arg.toList with
  | '-' :: '-' :: name =>
    let value? := match name.dropWhile (· ≠ '=') with
      | [] => none
      | _ :: value => some (String.ofList value)
    some (r.long (String.ofList (name.takeWhile (· ≠ '='))) value?)
  | '-' :: c :: rest => some (r.letters (c :: rest))
  | _ => none

/-- Whether an argument can be the value of the option before it. -/
def isValue (arg : String) : Bool :=
  match arg.toList with
  | '-' :: _ :: _ => false
  | _ => true

/-- Reads the arguments; `none` is a usage error. After two dashes alone only words follow. -/
def read (r : Reading) : List String → Option Invocation
  | [] => r.finish
  | arg :: rest =>
    if arg = "--" then (rest.foldlM addWord r).bind finish
    else
      match r.option? arg with
      | some .usageError => none
      | some (.done request) => some ⟨r.verbose, request⟩
      | some (.next r) => r.read rest
      | some (.value r f) =>
        match rest with
        | [] => none
        | value :: rest =>
          if isValue value then (r.setField f value).bind fun r => r.read rest else none
      | none =>
        match r.level.sub? arg with
        | some level => (r.enter level).read rest
        | none =>
          if r.level.isGroup && arg = "help" then
            if r.level.hasTopic rest then some ⟨r.verbose, .help⟩ else none
          else (r.addWord arg).bind fun r => r.read rest

end Reading

/-- The request that the arguments of a command line make; `none` is a usage error. -/
def invocation? (args : List String) : Option Invocation :=
  ({} : Reading).read args

end Unstack.CommandLine
