import Unstack.Expr

/-!
Instructions: what lifting turns lines into. An instruction carries the address of the line that
emitted it, which is the number of lines before that one.
-/

namespace Unstack

/-- What an instruction does. -/
inductive Action where
  | assign (value : Expr)
  | call (name : String)
  | goto (target : Nat)
  /-- Goes to the target unless the condition holds. -/
  | branch (target : Nat) (condition : Expr)
  | ret
  /-- A line whose mnemonic means nothing to the lifter. -/
  | unknown (mnemonic : String)
deriving DecidableEq, Repr

/-- An instruction at its address. -/
structure Instr where
  addr : Nat
  action : Action
deriving DecidableEq, Repr

namespace Action

def isCall : Action → Bool
  | call _ => true
  | _ => false

def isAssign : Action → Bool
  | assign _ => true
  | _ => false

def isUnknown : Action → Bool
  | unknown _ => true
  | _ => false

/-- The expression that the action evaluates. -/
def expr? : Action → Option Expr
  | assign value => some value
  | branch _ condition => some condition
  | _ => none

/-- The address that the action may go to. -/
def target? : Action → Option Nat
  | goto target | branch target _ => some target
  | _ => none

/-- The action in a listing. -/
def dump : Action → String
  | assign value => "Assignment " ++ value.dump
  | call name => "FuncCall " ++ name
  | goto target => "Goto " ++ Hex.unsigned target
  | branch target condition => s!"IfNot ( {condition.dump} ) Goto {Hex.unsigned target}"
  | ret => "Return"
  | unknown mnemonic => "NoOp " ++ mnemonic

end Action

namespace Instr

/-- The instruction as a line of a listing; `landing` tells whether a jump goes to it. -/
def dump (i : Instr) (landing : Bool) : String :=
  Hex.paddedDigits 4 i.addr ++ (if landing then "* " else "  ") ++ i.action.dump

example : (Instr.mk 26 (.goto 3)).dump true = "001a* Goto 0x3" := by decide

end Instr

end Unstack
