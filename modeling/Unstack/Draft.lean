import Unstack.Builtin.Registry
import Unstack.Command
import Unstack.Event
import Unstack.Instr

/-!
Drafts: a script while its lines are being lifted. Every instruction ever emitted keeps its number;
the live ones are those that no later expression has absorbed. A value that waits to be used is
named by the number of the assignment that holds it.

`Draft.step` is what a command does and does not see the registry; `Draft.events` is what is noted
along the way.
-/

namespace Unstack

/-- A script while its lines are being lifted. -/
structure Draft where
  /-- Every instruction emitted so far; its position is its number. -/
  emitted : Array Instr := #[]
  /-- The numbers of the live instructions, the latest first. -/
  live : List Nat := []
  /-- The numbers of the assignments whose values are pending, the top of the stack first. -/
  pending : List Nat := []
  /-- Each label with the address right after its line. -/
  labels : Table Nat Nat := .empty
  /-- The addresses that jumps name. -/
  targets : Table Nat Unit := .empty
  /-- The address of the line that comes next. -/
  offset : Nat := 0

namespace Draft

/-- The line that comes next, counted from one. -/
def line (d : Draft) : Nat :=
  d.offset + 1

/-- What the instruction with this number does. -/
def action? (d : Draft) (id : Nat) : Option Action :=
  d.emitted[id]?.map (·.action)

/-- The value that the assignment with this number holds. Pending numbers always name one. -/
def valueOf (d : Draft) (id : Nat) : Expr :=
  match d.action? id with
  | some (.assign value) => value
  | _ => .literal 0

/-- The latest live call. -/
def latestCall? (d : Draft) : Option Nat :=
  d.live.find? fun id => (d.action? id).any Action.isCall

/-- Adds a live instruction at the current address. -/
def emit (d : Draft) (action : Action) : Draft :=
  { d with emitted := d.emitted.push ⟨d.offset, action⟩, live := d.emitted.size :: d.live }

/-- Adds an assignment and lets its value wait. -/
def push (d : Draft) (value : Expr) : Draft :=
  { d.emit (.assign value) with pending := d.emitted.size :: d.pending }

/-- Takes an instruction out of the live ones. -/
def absorb (d : Draft) (id : Nat) : Draft :=
  { d with live := d.live.erase id }

/-- Notes the target of a jump and adds the jump. -/
def jump (d : Draft) (target : Nat) (action : Action) : Draft :=
  { d.emit action with targets := d.targets.insert target () }

/-- Applies an operator to the value of an assignment, in its place. -/
def applyUnary (d : Draft) (op : UnaryOp) (id : Nat) : Draft :=
  { d with emitted := d.emitted.modify id fun i =>
      match i.action with
      | .assign value => { i with action := .assign (.unary op value) }
      | _ => i }

/-- The draft after a command, at the same address. -/
def step (d : Draft) : Command → Except Fault Draft
  | .skip => .ok d
  | .label id =>
    if d.labels.contains id then .error (.labelRedefined id)
    else .ok { d with labels := d.labels.insert id (d.offset + 1) }
  | .push value => .ok (d.push (.literal value))
  | .pushArgument index => .ok (d.push (.argument index))
  | .pushLocal index => .ok (d.push (.localVar index))
  | .unary op =>
    match d.pending with
    | [] => .error (.stackUnderflow "UNARY" 1 0)
    | id :: _ => .ok (d.applyUnary op id)
  | .binary op =>
    match d.pending with
    | right :: left :: rest =>
      .ok (({ (d.absorb right).absorb left with pending := rest }).push
        (.binary op (d.valueOf left) (d.valueOf right)))
    | short => .error (.stackUnderflow op.mnemonic 2 short.length)
  | .call name => .ok (d.emit (.call name))
  | .jump target => .ok (d.jump target (.goto target))
  | .branch target =>
    match d.pending with
    | [] => .error (.stackUnderflow "IFNOTGO" 1 0)
    | id :: rest =>
      .ok (({ d.absorb id with pending := rest }).jump target (.branch target (d.valueOf id)))
  | .takeResult =>
    match d.latestCall? with
    | none => .error .missingCall
    | some id => .ok ((d.absorb id).push (.result id))
  | .ret => .ok (d.emit .ret)
  | .drop count => .ok { d with pending := d.pending.drop count }
  | .unknown mnemonic => .ok (d.emit (.unknown mnemonic))

/-- The draft at the next address. -/
def advance (d : Draft) : Draft :=
  { d with offset := d.offset + 1 }

/-- The draft after a line. -/
def stepLine (d : Draft) (line : String) : Except Error Draft :=
  match (Command.ofLine line).bind d.step with
  | .ok d' => .ok d'.advance
  | .error fault => .error ⟨d.line, fault⟩

/-- The draft after a list of lines; the first line that fails ends the run. -/
def run (d : Draft) : List String → Except Error Draft
  | [] => .ok d
  | line :: rest => (d.stepLine line).bind fun d' => d'.run rest

/-! ## Events -/

variable (reg : Registry)

/-- What is noted when values are dropped: nothing, unless the latest live instruction is a call of
a known function that takes another number of values. -/
def dropEvents (d : Draft) (count : Nat) : List Event :=
  match d.live.head?.bind d.action? with
  | some (.call name) =>
    match reg.lookup name with
    | some sig =>
      if sig.params.length = count then []
      else [.argumentCount d.line count name sig.params.length]
    | none => []
  | _ => []

/-- What is noted while a command is carried out that does not fail. -/
def events (d : Draft) : Command → List Event
  | .call name =>
    if (reg.lookup name).isNone then [.unregisteredCall d.line name] else []
  | .takeResult => (d.latestCall?.map (Event.resultTaken d.line)).toList
  | .drop count => d.dropEvents reg count
  | .unknown mnemonic => [.unhandledMnemonic d.line mnemonic]
  | _ => []

/-- What is noted while a line is lifted. A line that fails leaves no event. -/
def lineEvents (d : Draft) (line : String) : List Event :=
  match Command.ofLine line with
  | .ok c => if (d.step c).toOption.isSome then d.events reg c else []
  | .error _ => []

/-- What is noted while lines are lifted, up to the first line that fails. -/
def runEvents (d : Draft) : List String → List Event
  | [] => []
  | line :: rest =>
    d.lineEvents reg line ++
      match d.stepLine line with
      | .ok d' => d'.runEvents rest
      | .error _ => []

end Draft

end Unstack
