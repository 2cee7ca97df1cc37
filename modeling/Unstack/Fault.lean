import Unstack.Text.Hex

/-!
Why a disassembly cannot be lifted: the cause, and the line that it is found at.
-/

namespace Unstack

/-- A cause of failure. -/
inductive Fault where
  /-- The line gives a label that an earlier line gave. -/
  | labelRedefined (label : Nat)
  /-- The line takes more values than are pending. -/
  | stackUnderflow (mnemonic : String) (needed available : Nat)
  /-- The line takes the result of a call, and there is none left to take. -/
  | missingCall
  /-- The operand is a number that means nothing to this mnemonic. -/
  | unexpectedOperand (mnemonic : String) (operand : Int)
  /-- The operand names no unary operator. -/
  | invalidUnary (operand : Int)
  | missingOperand (mnemonic : String)
  /-- The operand is no number, or one outside the range that the mnemonic takes. -/
  | invalidOperand (mnemonic text : String)
  /-- The label stands after the last instruction. -/
  | unresolvedLabel (label addr : Nat)
deriving DecidableEq, Repr

/-- A cause of failure at a line, counted from one. -/
structure Error where
  line : Nat
  fault : Fault
deriving DecidableEq, Repr

namespace Fault

def message : Fault → String
  | labelRedefined label => s!"label {Hex.unsigned label} already defined"
  | stackUnderflow mnemonic needed available =>
    s!"stack underflow on {mnemonic} (needs {needed}, {available} pending)"
  | missingCall => "PUSHRC 0 without a preceding call"
  | unexpectedOperand mnemonic operand => s!"unexpected operand {Hex.word operand} to {mnemonic}"
  | invalidUnary operand => s!"unknown unary operation {Hex.word operand}"
  | missingOperand mnemonic => s!"{mnemonic} expects an operand"
  | invalidOperand mnemonic text => s!"invalid operand `{text}` to {mnemonic}"
  | unresolvedLabel label addr =>
    s!"label {Hex.unsigned label} points at {Hex.unsigned addr}, past the last instruction"

end Fault

namespace Error

def message (e : Error) : String :=
  s!"line {e.line}: {e.fault.message}"

end Error

end Unstack
