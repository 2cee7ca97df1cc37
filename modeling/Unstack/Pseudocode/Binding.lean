import Unstack.Script

/-!
Bindings: which values get the name of a parameter. Slots are the live instructions that show in
pseudocode. The first parameter of a call names the slot right before the one that makes the call,
the second one the slot before that, and so on; only a slot that holds a value takes the name, and
of several names the last one given stays.
-/

namespace Unstack

/-- A live instruction that shows in pseudocode, with its number. -/
structure Slot where
  id : Nat
  instr : Instr
deriving DecidableEq, Repr

namespace Script

/-- The slots of a script, in the order of their addresses. -/
def slots (s : Script) : List Slot :=
  (s.instructions.filter fun p => !p.2.action.isUnknown).map fun p => ⟨p.1, p.2⟩

end Script

namespace Slot

/-- The calls that a slot makes, in the order in which its text shows them. -/
def calls (slot : Slot) : List Nat :=
  match slot.instr.action with
  | .call _ => [slot.id]
  | action => (action.expr?.map Expr.calls).getD []

end Slot

namespace Binding

/-- The parameters of a call with the slots they line up with, given the slots before the call, the
nearest one first. -/
def pairs (before : List Slot) (sig : Signature) : List (Param × Slot) :=
  sig.params.zip before

/-- The bindings of one call: the slots that hold a value. -/
def ofCall (before : List Slot) (sig : Signature) : List (Nat × String) :=
  (pairs before sig).filterMap fun (p, slot) =>
    if slot.instr.action.isAssign then some (slot.id, p.name) else none

/-- What is noted of one call of `name` made at `addr`. The first parameter without a slot ends the
list. -/
def callEvents (before : List Slot) (name : String) (addr : Nat) (sig : Signature) : List Event :=
  (pairs before sig).map (fun (p, slot) =>
      if slot.instr.action.isAssign then .argumentBound slot.instr.addr name p.name
      else .argumentNotAValue name addr p.name slot.instr.addr) ++
    (sig.params[before.length]?.map fun p => .argumentMissing name addr p.name).toList

variable (s : Script) (reg : Registry)

/-- The known calls that a slot makes, with the names and signatures of their functions. -/
def knownCalls (slot : Slot) : List (String × Signature) :=
  slot.calls.filterMap fun id =>
    (s.callee? id).bind fun name => (reg.lookup name).map fun sig => (name, sig)

/-- The bindings that the slots give, in the order in which they are made, after the slots in
`before` (the nearest one first). -/
def ofSlots (before : List Slot) : List Slot → List (Nat × String)
  | [] => []
  | slot :: rest =>
    (knownCalls s reg slot).flatMap (fun c => ofCall before c.2) ++ ofSlots (slot :: before) rest

/-- What is noted while the slots give their bindings. -/
def slotEvents (before : List Slot) : List Slot → List Event
  | [] => []
  | slot :: rest =>
    (knownCalls s reg slot).flatMap (fun c => callEvents before c.1 slot.instr.addr c.2) ++
      slotEvents (slot :: before) rest

end Binding

namespace Script

/-- The names that parameters give to values, by the numbers of the instructions that hold them. -/
def bindings (s : Script) (reg : Registry) : Table Nat String :=
  Table.ofList (Binding.ofSlots s reg [] s.slots)

/-- What is noted while values get their names. -/
def bindingEvents (s : Script) (reg : Registry) : List Event :=
  Binding.slotEvents s reg [] s.slots

end Script

end Unstack
