import Unstack.Draft
import Unstack.Text.Split

/-!
Scripts: lifted disassemblies. Labels and jumps name lines; a script resolves them to the first live
instruction at or after the line that is named.
-/

namespace Unstack

/-- A lifted disassembly. -/
structure Script where
  /-- Every instruction that was emitted; its position is its number. -/
  emitted : Array Instr
  /-- The numbers of the live instructions, in the order of their addresses. -/
  live : List Nat
  /-- The labels in increasing order, each with the address of its instruction. -/
  labels : List (Nat × Nat)
  /-- The addresses that jumps name, in increasing order. -/
  targets : List Nat
deriving DecidableEq

namespace Script

/-- The live instructions with their numbers, in the order of their addresses. -/
def instructions (s : Script) : List (Nat × Instr) :=
  s.live.filterMap fun id => s.emitted[id]?.map fun i => (id, i)

/-- The first of these instructions whose address is not below `addr`. -/
def firstFrom (addr : Nat) (l : List (Nat × Instr)) : Option (Nat × Instr) :=
  l.find? fun p => addr ≤ p.2.addr

/-- The number of the live instruction that an address stands for: the first one that is not before
it. -/
def resolve (s : Script) (addr : Nat) : Option Nat :=
  (firstFrom addr s.instructions).map (·.1)

/-- The address of the live instruction that an address stands for. -/
def resolveAddr (s : Script) (addr : Nat) : Option Nat :=
  (firstFrom addr s.instructions).map (·.2.addr)

/-- The numbers of the instructions that jumps go to. -/
def landings (s : Script) : List Nat :=
  s.targets.filterMap s.resolve

/-- The name of the function that the call with this number calls. -/
def callee? (s : Script) (id : Nat) : Option String :=
  match s.emitted[id]?.map Instr.action with
  | some (.call name) => some name
  | _ => none

end Script

namespace Draft

/-- The script of a draft, but for the labels. -/
def script (d : Draft) : Script where
  emitted := d.emitted
  live := d.live.reverse
  labels := []
  targets := d.targets.keys

/-- Resolves labels one after the other. The line that a failure names is the one after the label's
own, which is the address that the label stands for. -/
def resolveLabels (s : Script) : List (Nat × Nat) → Except Error (List (Nat × Nat))
  | [] => .ok []
  | (label, addr) :: rest =>
    match s.resolveAddr addr with
    | none => .error ⟨addr, .unresolvedLabel label addr⟩
    | some found => (resolveLabels s rest).map ((label, found) :: ·)

/-- Ends a draft: its labels are resolved. -/
def finish (d : Draft) : Except Error Script :=
  (resolveLabels d.script d.labels.entries).map fun labels => { d.script with labels }

/-- What is noted while labels are resolved, up to the first that is not; then `after`. -/
def labelEvents (s : Script) (after : List Event) : List (Nat × Nat) → List Event
  | [] => after
  | (label, addr) :: rest =>
    match s.resolveAddr addr with
    | none => []
    | some found => .labelResolved label found :: labelEvents s after rest

/-- What is noted of the targets of jumps. -/
def targetEvents (s : Script) : List Event :=
  s.targets.filterMap fun t => if (s.resolve t).isNone then some (.targetPastEnd t) else none

/-- What is noted while a draft is ended. -/
def finishEvents (d : Draft) : List Event :=
  labelEvents d.script (targetEvents d.script) d.labels.entries

end Draft

namespace Script

/-- The script of the lines of a disassembly. -/
def ofLines (lines : List String) : Except Error Script :=
  (({} : Draft).run lines).bind Draft.finish

/-- What is noted while the lines of a disassembly are lifted. -/
def liftEvents (reg : Registry) (lines : List String) : List Event :=
  ({} : Draft).runEvents reg lines ++
    match ({} : Draft).run lines with
    | .ok d => d.finishEvents
    | .error _ => []

/-- The lines of a source text. -/
def sourceLines (source : String) : List String :=
  (Text.lines source.toList).map String.ofList

/-- The listing of a script: its instructions, then its labels. -/
def listing (s : Script) : List String :=
  let landings := s.landings
  s.instructions.map (fun p => p.2.dump (landings.contains p.1)) ++
    s.labels.map fun l => s!"label {Hex.unsigned l.1} -> 0x{Hex.paddedDigits 4 l.2}"

end Script

end Unstack
