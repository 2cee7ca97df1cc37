import Mathlib.Order.Hom.Basic
import Unstack.Proofs.Command.Checks
import Unstack.Proofs.Draft.Targets

/-!
# Lifting at other addresses

Jumps name lines by address. When every address in a disassembly is exchanged for another one, in the same order,
lifting does the same at the new addresses: each step commutes with the exchange (`step_relocate`), and so does each
line (`stepLine_relocate`).
-/

namespace Unstack

open Command (codeWords)

variable (f : Nat ↪o Nat)

/-! ## The same at other addresses -/

/-- The address behind a line, which goes with the line. -/
def behind (addr : Nat) : Nat :=
  f (addr - 1) + 1

def Action.relocate : Action → Action
  | goto target => goto (f target)
  | branch target condition => branch (f target) condition
  | action => action

def Instr.relocate (i : Instr) : Instr :=
  ⟨f i.addr, i.action.relocate f⟩

def Command.relocate : Command → Command
  | jump target => jump (f target)
  | branch target => branch (f target)
  | c => c

def Fault.relocate : Fault → Fault
  | unresolvedLabel label addr => unresolvedLabel label (behind f addr)
  | fault => fault

def Error.relocate (e : Error) : Error :=
  ⟨behind f e.line, e.fault.relocate f⟩

theorem compare_relocate (a b : Nat) : compare (f a) (f b) = compare a b := by
  simp only [compare, compareOfLessAndEq, f.lt_iff_lt, f.eq_iff_eq]

def Draft.relocate (d : Draft) : Draft where
  emitted := d.emitted.map (Instr.relocate f)
  live := d.live
  pending := d.pending
  labels := d.labels.map (fun _ _ => rfl : ∀ a b : Nat, compare (id a) (id b) = compare a b) (behind f)
  targets := d.targets.map (compare_relocate f) id
  offset := f d.offset

namespace Draft

variable {f} {d d' : Draft}

/-! ## What is seen of a draft -/

theorem isCall_relocate (action : Action) : (action.relocate f).isCall = action.isCall := by
  cases action <;> rfl

theorem action?_relocate (id : Nat) : (d.relocate f).action? id = (d.action? id).map (Action.relocate f) := by
  simp only [action?, relocate, Array.getElem?_map, Option.map_map]
  rfl

theorem valueOf_relocate (id : Nat) : (d.relocate f).valueOf id = d.valueOf id := by
  simp only [valueOf, action?_relocate]
  cases d.action? id with
  | none => rfl
  | some action => cases action <;> rfl

theorem latestCall?_relocate : (d.relocate f).latestCall? = d.latestCall? := by
  simp only [latestCall?, action?_relocate, Option.any_map]
  congr 1
  funext id
  exact congrArg (Option.any · (d.action? id)) (funext isCall_relocate)

/-! ## What becomes of a draft -/

theorem relocate_emit (d : Draft) (action : Action) :
    (d.emit action).relocate f = (d.relocate f).emit (action.relocate f) := by
  simp only [relocate, emit, Array.map_push, Array.size_map]
  rfl

theorem relocate_push (d : Draft) (value : Expr) : (d.push value).relocate f = (d.relocate f).push value := by
  simp only [relocate, push, emit, Array.map_push, Array.size_map]
  rfl

theorem relocate_jump (d : Draft) (target : Nat) (action : Action) :
    (d.jump target action).relocate f = (d.relocate f).jump (f target) (action.relocate f) := by
  simp only [relocate, jump, emit, Array.map_push, Array.size_map, Table.map_insert]
  rfl

theorem relocate_applyUnary (d : Draft) (op : UnaryOp) (id : Nat) :
    (d.applyUnary op id).relocate f = (d.relocate f).applyUnary op id := by
  have he : (d.applyUnary op id).emitted.map (Instr.relocate f) = ((d.relocate f).applyUnary op id).emitted := by
    refine Array.ext_getElem? fun j => ?_
    simp only [applyUnary, relocate, Array.getElem?_map, Array.getElem?_modify]
    split
    · cases d.emitted[j]? with
      | none => rfl
      | some i =>
          obtain ⟨addr, action⟩ := i
          cases action <;> rfl
    · rfl
  simp only [relocate, he]
  rfl

theorem step_relocate (c : Command) :
    (d.relocate f).step (c.relocate f) = (d.step c).map (relocate f) := by
  have hpending : (d.relocate f).pending = d.pending := rfl
  cases c with
  | skip | drop => rfl
  | label l =>
      have hl : (d.relocate f).labels.contains l = d.labels.contains l :=
        Table.contains_map (f := id) (fun _ _ => rfl) _ _ l
      simp only [Command.relocate, step, hl]
      split
      · rfl
      · simp only [Except.map, relocate, Table.map_insert]
        rfl
  | push v => exact congrArg Except.ok (relocate_push d (.literal v)).symm
  | pushArgument i => exact congrArg Except.ok (relocate_push d (.argument i)).symm
  | pushLocal i => exact congrArg Except.ok (relocate_push d (.localVar i)).symm
  | unary op =>
      simp only [Command.relocate, step, hpending]
      cases d.pending with
      | nil => rfl
      | cons id rest => exact congrArg Except.ok (relocate_applyUnary d op id).symm
  | binary op =>
      simp only [Command.relocate, step, hpending, valueOf_relocate]
      rcases d.pending with _ | ⟨right, _ | ⟨left, rest⟩⟩
      · rfl
      · rfl
      · exact congrArg Except.ok (relocate_push { (d.absorb right).absorb left with pending := rest } _).symm
  | call name => exact congrArg Except.ok (relocate_emit d (.call name)).symm
  | jump t => exact congrArg Except.ok (relocate_jump d t (.goto t)).symm
  | branch t =>
      simp only [Command.relocate, step, hpending, valueOf_relocate]
      cases d.pending with
      | nil => rfl
      | cons id rest =>
          exact congrArg Except.ok (relocate_jump { d.absorb id with pending := rest } t (.branch t _)).symm
  | takeResult =>
      simp only [Command.relocate, step, latestCall?_relocate]
      cases d.latestCall? with
      | none => rfl
      | some id => exact congrArg Except.ok (relocate_push (d.absorb id) (.result id)).symm
  | ret => exact congrArg Except.ok (relocate_emit d .ret).symm
  | unknown m => exact congrArg Except.ok (relocate_emit d (.unknown m)).symm

theorem relocate_fault_of_step {c : Command} {fault : Fault} (h : d.step c = .error fault) :
    fault.relocate f = fault := by
  cases c with
  | label | unary | binary | branch | takeResult =>
      simp only [step] at h
      split at h
      all_goals cases h
      rfl
  | _ => cases h

end Draft

/-! ## Lines -/

namespace Command

variable {f}

/-- No check of a line looks at an address. -/
theorem relocate_fault_of_mem_checks (ws : List String) :
    ∀ fault ∈ (checks ws).map Check.fault, fault.relocate f = fault := by
  unfold checks
  split
  · simp
  · split <;> simp [present, within, optional, Fault.relocate]

theorem relocate_fault_of_ofLine {line : String} {fault : Fault} (h : ofLine line = .error fault) :
    fault.relocate f = fault := by
  have hraised := raised_eq_some.mpr h
  rw [raised_ofLine] at hraised
  exact relocate_fault_of_mem_checks _ _ (mem_of_firstFault hraised)

end Command

/-- The address that a line jumps to. -/
def Command.lineTarget? (line : String) : Option Nat :=
  (ofLine line).toOption.bind target?

/-- The line jumps nowhere and is the same one, or it is a jump and names the address at which its target is now. -/
inductive Moved : String → String → Prop where
  | kept {line} (h : Command.lineTarget? line = none) : Moved line line
  | jump {line line' m text text' rest} {t : Nat} (hm : m = "JUMP" ∨ m = "IFNOTGO")
      (hw : codeWords line = m :: text :: rest) (hv : Operand.read? text.toList = some (t : Int))
      (hw' : codeWords line' = m :: text' :: rest) (hv' : Operand.read? text'.toList = some (f t : Int)) :
      Moved line line'

theorem ofLine_of_moved {line line' : String} (h : Moved f line line') :
    Command.ofLine line' = (Command.ofLine line).map (Command.relocate f) := by
  cases h with
  | kept h =>
      cases hc : Command.ofLine line with
      | error _ => rfl
      | ok c =>
          have ht : c.target? = none := by simpa [Command.lineTarget?, hc, Except.toOption] using h
          cases c <;> first | rfl | cases ht
  | @jump _ m text text' rest t hm hw hv hw' hv' =>
      have haddress := Command.address?_natCast
      rw [Command.ofLine_eq, Command.ofLine_eq, hw, hw']
      rcases hm with rfl | rfl
      · simp only [Command.ofMnemonic, Command.operand_of_read? hv (haddress t),
          Command.operand_of_read? hv' (haddress (f t))]
        rfl
      · simp only [Command.ofMnemonic, Command.operand_of_read? hv (haddress t),
          Command.operand_of_read? hv' (haddress (f t))]
        rfl

namespace Draft

variable {f} {d : Draft} {line line' : String}

theorem relocate_fault {fault : Fault} (h : (Command.ofLine line).bind d.step = .error fault) :
    fault.relocate f = fault := by
  cases hc : Command.ofLine line with
  | error _ =>
      rw [hc] at h
      cases h
      exact Command.relocate_fault_of_ofLine hc
  | ok c =>
      rw [hc] at h
      exact relocate_fault_of_step h

theorem bind_step_relocate (h : Moved f line line') :
    (Command.ofLine line').bind (d.relocate f).step = ((Command.ofLine line).bind d.step).map (relocate f) := by
  rw [ofLine_of_moved f h]
  cases Command.ofLine line with
  | error _ => rfl
  | ok c => exact step_relocate c

/-- A line that has moved does the same or fails the same. -/
theorem stepLine_relocate (h : Moved f line line') :
    (∃ d' : Draft, d.stepLine line = .ok d'.advance ∧ d'.offset = d.offset ∧
        (d.relocate f).stepLine line' = .ok (d'.relocate f).advance) ∨
      ∃ e, d.stepLine line = .error e ∧ (d.relocate f).stepLine line' = .error (e.relocate f) := by
  have hb := bind_step_relocate (d := d) h
  cases hs : (Command.ofLine line).bind d.step with
  | error fault =>
      rw [hs] at hb
      refine Or.inr ⟨⟨d.line, fault⟩, by simp only [stepLine, hs], ?_⟩
      simp only [stepLine, hb, Except.map, Error.relocate, relocate_fault hs]
      rfl
  | ok d' =>
      rw [hs] at hb
      obtain ⟨c, _, hc⟩ := bind_eq_ok hs
      exact Or.inl ⟨d', by simp only [stepLine, hs], (step_sound hc).offset_eq, by simp only [stepLine, hb, Except.map]⟩

theorem run_idle {lines : List String} (h : ∀ line ∈ lines, codeWords line = []) (d : Draft) :
    d.run lines = .ok { d with offset := d.offset + lines.length } := by
  induction lines generalizing d with
  | nil => rfl
  | cons line lines ih =>
      obtain ⟨hline, hlines⟩ := List.forall_mem_cons.mp h
      have hc : Command.ofLine line = .ok .skip := by rw [Command.ofLine_eq, hline]
      rw [run, stepLine_of_step hc .skip]
      refine (ih hlines d.advance).trans ?_
      simp only [advance, List.length_cons, Nat.add_right_comm, Nat.add_assoc]

end Draft

end Unstack
