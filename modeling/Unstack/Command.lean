import Unstack.Fault
import Unstack.Operand
import Unstack.Operator
import Unstack.Text.Split

/-!
Commands: what a single line of a disassembly asks for. Reading a line looks at nothing but the
line; every fault that depends on the lines before it is left to `Draft.step`.
-/

namespace Unstack

/-- What a line asks for. -/
inductive Command where
  /-- Nothing: blank lines and comments, and lines that only move the machine's own pointers. -/
  | skip
  | label (id : Nat)
  | push (value : Int)
  | pushArgument (index : Nat)
  | pushLocal (index : Nat)
  /-- Applies an operator to the value pushed last. -/
  | unary (op : UnaryOp)
  /-- Applies an operator to the two values pushed last. -/
  | binary (op : BinaryOp)
  | call (name : String)
  | jump (target : Nat)
  /-- Takes the value pushed last and jumps unless it holds. -/
  | branch (target : Nat)
  /-- Pushes the result of the latest call. -/
  | takeResult
  | ret
  /-- Drops the values pushed last, at most `count` of them. -/
  | drop (count : Nat)
  | unknown (mnemonic : String)
deriving DecidableEq, Repr

namespace Command

/-- The operand of a line, which may be absent. -/
def operand? (mnemonic : String) : List String → Except Fault (Option Int)
  | [] => .ok none
  | text :: _ =>
    match Operand.read? text.toList with
    | some v => .ok (some v)
    | none => .error (.invalidOperand mnemonic text)

/-- The operand of a line, put through `select`, which refuses the numbers out of range. -/
def operand {α : Type} (mnemonic : String) (select : Int → Option α) :
    List String → Except Fault α
  | [] => .error (.missingOperand mnemonic)
  | text :: _ =>
    match (Operand.read? text.toList).bind select with
    | some a => .ok a
    | none => .error (.invalidOperand mnemonic text)

/-- The operator that the operand of a line names. -/
def unaryOperator (params : List String) : Except Fault UnaryOp :=
  match operand "UNARY" some params with
  | .error fault => .error fault
  | .ok v =>
    match UnaryOp.ofOperand? v with
    | some op => .ok op
    | none => .error (.invalidUnary v)

/-- The choice between two commands by an operand 0 or 1. -/
def choose (mnemonic : String) (zero one : Command) (params : List String) :
    Except Fault Command :=
  match operand mnemonic some params with
  | .error fault => .error fault
  | .ok v =>
    if v = 0 then .ok zero
    else if v = 1 then .ok one
    else .error (.unexpectedOperand mnemonic v)

/-- The command of a mnemonic with its parameters. Parameters after the first are not looked at. -/
def ofMnemonic (mnemonic : String) (params : List String) : Except Fault Command :=
  match mnemonic with
  | "LABEL" => (operand mnemonic Operand.index? params).map label
  | "PUSH" => (operand mnemonic some params).map push
  | "PUSHARG" => (operand mnemonic Operand.index? params).map pushArgument
  | "PUSHVAR" => (operand mnemonic Operand.index? params).map pushLocal
  | "UNARY" => (unaryOperator params).map unary
  | "CALL" =>
    match params with
    | [] => .error (.missingOperand mnemonic)
    | name :: _ => .ok (call name)
  | "JUMP" => (operand mnemonic Operand.address? params).map jump
  | "IFNOTGO" => (operand mnemonic Operand.address? params).map branch
  | "PUSHRC" => choose mnemonic takeResult skip params
  | "POPRC" => choose mnemonic skip ret params
  | "STACKRWD" =>
    -- a count below zero drops nothing; without a count the line asks for nothing
    (operand? mnemonic params).map fun n? => n?.elim skip fun n => drop n.toNat
  | "STACKFWD" => (operand? mnemonic params).map fun _ => skip
  | _ => .ok ((BinaryOp.ofMnemonic? mnemonic).elim (unknown mnemonic) binary)

/-- The command of a line cut into words. A word that starts with `#` at the front makes the line a
comment. -/
def ofWords : List String → Except Fault Command
  | [] => .ok skip
  | mnemonic :: params =>
    if mnemonic.toList.head? = some '#' then .ok skip else ofMnemonic mnemonic params

/-- The words of a line. -/
def wordsOf (line : String) : List String :=
  (Text.words line.toList).map String.ofList

/-- The command of a line. -/
def ofLine (line : String) : Except Fault Command :=
  ofWords (wordsOf line)

end Command

end Unstack
