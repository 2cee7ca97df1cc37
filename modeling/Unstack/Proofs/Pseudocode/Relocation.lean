import Unstack.Proofs.Pseudocode.Blocks
import Unstack.Proofs.Script.Padding

/-!
# Pseudocode at other addresses

Addresses show in pseudocode where a jump goes and in the marker of what it goes to, and nowhere else. So a script at
other addresses has the same blocks but for these (`blocks_relocate`), and so has one whose lines are set apart by blank
lines and comments (`ofLines_padded`).
-/

namespace Unstack

variable (f : Nat ↪o Nat) {s : Script} {reg : Registry}

/-! ## Bindings -/

def Slot.relocate (slot : Slot) : Slot :=
  ⟨slot.id, slot.instr.relocate f⟩

variable {f}

theorem Script.callee?_relocate (id : Nat) : (s.relocate f).callee? id = s.callee? id := by
  simp only [callee?, relocate, Array.getElem?_map, Option.map_map]
  cases s.emitted[id]? with
  | none => rfl
  | some i =>
      obtain ⟨addr, action⟩ := i
      cases action <;> rfl

theorem isUnknown_relocate (action : Action) : (action.relocate f).isUnknown = action.isUnknown := by
  cases action <;> rfl

theorem isAssign_relocate (action : Action) : (action.relocate f).isAssign = action.isAssign := by
  cases action <;> rfl

theorem Script.slots_relocate : (s.relocate f).slots = s.slots.map (Slot.relocate f) := by
  have hp : (fun p : Nat × Instr => !p.2.action.isUnknown) ∘ Prod.map id (Instr.relocate f) =
      fun p => !p.2.action.isUnknown := funext fun p => congrArg (!·) (isUnknown_relocate p.2.action)
  simp only [slots, instructions_relocate, List.filter_map, List.map_map, hp]
  rfl

theorem Slot.calls_relocate (slot : Slot) : (slot.relocate f).calls = slot.calls := by
  obtain ⟨id, addr, action⟩ := slot
  cases action <;> rfl

namespace Binding

theorem ofCall_relocate (before : List Slot) (sig : Signature) :
    ofCall (before.map (Slot.relocate f)) sig = ofCall before sig := by
  rw [ofCall, pairs, List.zip_map_right, List.filterMap_map, ofCall, pairs]
  refine List.filterMap_congr fun q _ => ?_
  show (if (q.2.instr.action.relocate f).isAssign then some (q.2.id, q.1.name) else none) = _
  rw [isAssign_relocate]

theorem knownCalls_relocate (slot : Slot) :
    knownCalls (s.relocate f) reg (slot.relocate f) = knownCalls s reg slot := by
  simp only [knownCalls, Slot.calls_relocate, Script.callee?_relocate]

theorem ofSlots_relocate (before l : List Slot) :
    ofSlots (s.relocate f) reg (before.map (Slot.relocate f)) (l.map (Slot.relocate f)) =
      ofSlots s reg before l := by
  induction l generalizing before with
  | nil => rfl
  | cons slot l ih =>
      simp only [List.map_cons, ofSlots, knownCalls_relocate, ofCall_relocate]
      exact congrArg _ (ih (slot :: before))

end Binding

/-! ## Blocks -/

variable (f) in
def Block.relocate (b : Block) : Block :=
  { b with
    addr := f b.addr
    phrase := b.phrase.map fun p => { p with goto := p.goto.map f } }

namespace Script

theorem bindings_relocate : (s.relocate f).bindings reg = s.bindings reg := by
  rw [bindings, slots_relocate]
  exact congrArg Table.ofList (Binding.ofSlots_relocate [] s.slots)

theorem resultText_relocate : (s.relocate f).resultText reg = s.resultText reg := by
  funext id
  simp only [resultText, callee?_relocate]

theorem destination_relocate (t : Nat) : (s.relocate f).destination (f t) = f (s.destination t) := by
  rw [destination, resolveAddr_relocate, Option.getD_map]
  rfl

theorem phrase_relocate (name? : Option String) (slot : Nat) (action : Action) :
    (s.relocate f).phrase reg name? slot (action.relocate f) =
      (s.phrase reg name? slot action).map fun p => { p with goto := p.goto.map f } := by
  cases action with
  | assign value | branch t value => simp [Action.relocate, phrase, destination_relocate, resultText_relocate]
  | goto t => simp [Action.relocate, phrase, destination_relocate]
  | call | ret | unknown => rfl

theorem labelsAt_relocate (addr : Nat) : (s.relocate f).labelsAt (f addr) = s.labelsAt addr := by
  have hp : (fun l : Nat × Nat => decide (l.2 = f addr)) ∘ Prod.map id f = fun l => decide (l.2 = addr) :=
    funext fun l => decide_eq_decide.mpr f.eq_iff_eq
  simp only [labelsAt, relocate, List.filter_map, List.map_map, hp]
  rfl

theorem blocksFrom_relocate (names : Table Nat String) (landings : List Nat) (indented : Bool) (slot : Nat)
    (l : List (Nat × Instr)) :
    (s.relocate f).blocksFrom reg names landings indented slot (l.map (Prod.map id (Instr.relocate f))) =
      (s.blocksFrom reg names landings indented slot l).map (Block.relocate f) := by
  induction l generalizing indented slot with
  | nil => rfl
  | cons p l ih =>
      obtain ⟨id, i⟩ := p
      simp only [List.map_cons, Prod.map, blocksFrom, Instr.relocate, phrase_relocate, labelsAt_relocate,
        isUnknown_relocate]
      exact congrArg _ (ih _ _)

theorem blocks_relocate : (s.relocate f).blocks reg = (s.blocks reg).map (Block.relocate f) := by
  rw [blocks, bindings_relocate, landings_relocate, instructions_relocate]
  exact blocksFrom_relocate _ _ _ _ _

/-- Blank lines and comments between the lines of a disassembly change only addresses: those of the script or of the
error, and where jumps go in the pseudocode. -/
theorem ofLines_padded {lines moved : List String} {p : Padding lines.length}
    (hm : List.Forall₂ (Moved p.address) lines moved) :
    (∀ e, ofLines lines = .error e → ofLines (p.around 0 moved) = .error (e.relocate p.address)) ∧
      ∀ s, ofLines lines = .ok s →
        ofLines (p.around 0 moved) = .ok (s.relocate p.address) ∧
          (s.relocate p.address).landings = s.landings ∧
          ∀ reg, s.pseudocode reg = (s.blocks reg).flatMap Block.lines ∧
            (s.relocate p.address).pseudocode reg =
              ((s.blocks reg).map (Block.relocate p.address)).flatMap Block.lines := by
  have hlines := ofLines_around hm
  refine ⟨fun e he => ?_, fun s hs => ⟨?_, landings_relocate, fun reg => ⟨s.pseudocode_eq reg, ?_⟩⟩⟩
  · rw [hlines, he]
    rfl
  · rw [hlines, hs]
    rfl
  · rw [pseudocode_eq, blocks_relocate]

theorem ofLines_padded_comment :
    ∃ (p : Padding 4) (s : Script), ofLines ["PUSH 1", "IFNOTGO 2", "LABEL 7", "POPRC 1"] = .ok s ∧
      ofLines ["PUSH 1", "IFNOTGO 4", "", "# note", "LABEL 7", "POPRC 1"] = .ok (s.relocate p.address) ∧
      (s.relocate p.address).pseudocode .empty =
        ["if(! 0x1) then Goto 0x5", "", "JUMP_TARGET_0x5:", "  return", "", "LABEL_7:"] := by
  let p : Padding 4 := ⟨fun addr => if addr = 2 then ["", "# note"] else [], by decide⟩
  have hm : List.Forall₂ (Moved p.address) ["PUSH 1", "IFNOTGO 2", "LABEL 7", "POPRC 1"]
      ["PUSH 1", "IFNOTGO 4", "LABEL 7", "POPRC 1"] := by
    have hw : Command.codeWords "IFNOTGO 2" = ["IFNOTGO", "2"] := by decide
    have hw' : Command.codeWords "IFNOTGO 4" = ["IFNOTGO", "4"] := by decide
    have hjump : Moved p.address "IFNOTGO 2" "IFNOTGO 4" :=
      .jump (t := 2) (Or.inr rfl) hw (by decide) hw' (by decide)
    exact .cons (.kept (by decide)) (.cons hjump (.cons (.kept (by decide)) (.cons (.kept (by decide)) .nil)))
  obtain ⟨s, hs, _⟩ : ∃ s, ofLines ["PUSH 1", "IFNOTGO 2", "LABEL 7", "POPRC 1"] = .ok s ∧ s.live = [1, 2] :=
    exists_ok (by decide +kernel)
  obtain ⟨s', hs', ht⟩ : ∃ s, ofLines ["PUSH 1", "IFNOTGO 4", "", "# note", "LABEL 7", "POPRC 1"] = .ok s ∧
      s.pseudocode .empty = ["if(! 0x1) then Goto 0x5", "", "JUMP_TARGET_0x5:", "  return", "", "LABEL_7:"] :=
    exists_ok (by decide +kernel)
  have hpadded := ((ofLines_padded hm).2 s hs).1
  have haround : p.around 0 ["PUSH 1", "IFNOTGO 4", "LABEL 7", "POPRC 1"] =
      ["PUSH 1", "IFNOTGO 4", "", "# note", "LABEL 7", "POPRC 1"] := by decide
  rw [haround] at hpadded
  obtain rfl : s' = s.relocate p.address := Except.ok.inj (hs'.symm.trans hpadded)
  exact ⟨p, s, hs, hpadded, ht⟩

end Script

end Unstack
