import Unstack.Text.Hex

/-!
Events: what is noted for the log along the way. Noting an event never changes a result.
-/

namespace Unstack

/-- How much an event matters. -/
inductive Level where
  | warn
  | info
  | debug
deriving DecidableEq, Repr

/-- An entry of the log. Lines are counted from one. -/
inductive Event where
  /-- A call of a function that the registry does not know. -/
  | unregisteredCall (line : Nat) (name : String)
  /-- The result of the call with this number becomes a value. -/
  | resultTaken (line call : Nat)
  /-- The values dropped after a call are not as many as the call takes. -/
  | argumentCount (line dropped : Nat) (name : String) (taken : Nat)
  | unhandledMnemonic (line : Nat) (mnemonic : String)
  | labelResolved (label addr : Nat)
  /-- No instruction follows the target of a jump. -/
  | targetPastEnd (target : Nat)
  /-- Nothing stands where the value of this parameter would. -/
  | argumentMissing (name : String) (addr : Nat) (param : String)
  /-- What stands where the value of this parameter would is no value. -/
  | argumentNotAValue (name : String) (addr : Nat) (param : String) (found : Nat)
  /-- The value at this address gets the name of the parameter. -/
  | argumentBound (addr : Nat) (name param : String)
  /-- The line where an annotation looks for a value pushes none. -/
  | notAPush (line : Nat) (param name : String)
  | stringIndexOutside (line : Nat) (index : Int) (size : Nat)
  | signaturesLoaded (count : Nat) (path : String)
  | stringsLoaded (count : Nat) (path : String)
deriving DecidableEq, Repr

namespace Event

def level : Event → Level
  | argumentCount .. | unhandledMnemonic .. | argumentMissing .. | argumentNotAValue .. => .warn
  | notAPush .. | stringIndexOutside .. => .warn
  | signaturesLoaded .. | stringsLoaded .. => .info
  | unregisteredCall .. | resultTaken .. | labelResolved .. | targetPastEnd .. => .debug
  | argumentBound .. => .debug

/-- The part of the program that a log line names as its origin. -/
def origin : Event → String
  | unregisteredCall .. | resultTaken .. | argumentCount .. | unhandledMnemonic .. =>
    "emcdec_lib::parser"
  | labelResolved .. | targetPastEnd .. => "emcdec_lib::parser"
  | argumentMissing .. | argumentNotAValue .. | argumentBound .. => "emcdec_lib::codegen"
  | notAPush .. | stringIndexOutside .. => "emcdec_lib::annotate"
  | signaturesLoaded .. | stringsLoaded .. => "emcdec"

def message : Event → String
  | unregisteredCall line name => s!"line {line}: call to unregistered builtin {name}"
  | resultTaken line call => s!"line {line}: folding call #{call} into return value"
  | argumentCount line dropped name taken =>
    s!"line {line}: STACKRWD {dropped} after {name}, which takes {taken} arguments"
  | unhandledMnemonic line mnemonic => s!"line {line}: unhandled mnemonic {mnemonic}"
  | labelResolved label addr => s!"label {Hex.unsigned label} -> {Hex.unsigned addr}"
  | targetPastEnd target =>
    s!"jump target {Hex.unsigned target} falls off the end of the script"
  | argumentMissing name addr param =>
    s!"{name} at {Hex.unsigned addr}: no value for argument {param}"
  | argumentNotAValue name addr param found =>
    s!"{name} at {Hex.unsigned addr}: argument {param} lines up with a non-value instruction at "
      ++ Hex.unsigned found
  | argumentBound addr name param => s!"binding {Hex.unsigned addr} to {name}.{param}"
  | notAPush line param name => s!"line {line}: argument {param} of {name} is not a PUSH"
  | stringIndexOutside line index size =>
    s!"line {line}: string index {index} outside a table of {size}"
  | signaturesLoaded count path => s!"loaded {count} builtin signatures from {path}"
  | stringsLoaded count path => s!"loaded {count} strings from {path}"

end Event

namespace Level

/-- The name of the level, in capitals. -/
def name : Level → String
  | warn => "WARN"
  | info => "INFO"
  | debug => "DEBUG"

end Level

end Unstack
