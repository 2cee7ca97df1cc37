import Mathlib.Data.List.Forall2
import Unstack.Pseudocode.Layout
import Unstack.Proofs.Script.Live

/-!
# Pseudocode, block by block

Every live instruction shows one block: a marker if a jump goes to it, its own line, and the markers of the labels
that are resolved to it. A block keeps the addresses that it shows apart from its texts. The pseudocode of a script is
the lines of its blocks, one block after the other (`pseudocode_eq`).
-/

namespace Unstack

/-- The line of an instruction, not indented: a text and, at the end of a jump, the address that it goes to. -/
structure Phrase where
  text : String
  goto : Option Nat
deriving DecidableEq

def Phrase.line (p : Phrase) : String :=
  p.text ++ p.goto.elim "" fun addr => "Goto " ++ Hex.unsigned addr

/-- What a live instruction shows in pseudocode. -/
structure Block where
  addr : Nat
  /-- Whether a jump goes to the instruction. -/
  landing : Bool
  indented : Bool
  phrase : Option Phrase
  labels : List Nat
deriving DecidableEq

namespace Block

/-- The line of the instruction and the labels behind it. -/
def body (b : Block) : List String :=
  (b.phrase.map fun p => if b.indented then "  " ++ p.line else p.line).toList ++
    b.labels.flatMap fun label => Script.marker s!"LABEL_{label}"

def lines (b : Block) : List String :=
  (if b.landing then Script.landingLines b.addr else []) ++ b.body

end Block

namespace Script

variable (s : Script) (reg : Registry)

/-! ## The blocks of a script -/

/-- The address that a jump to `target` shows. -/
def destination (target : Nat) : Nat :=
  (s.resolveAddr target).getD target

def phrase (name? : Option String) (slot : Nat) : Action → Option Phrase
  | .assign value => some ⟨name?.getD s!"var_{slot}" ++ " := " ++ value.render (s.resultText reg), none⟩
  | .call name => some ⟨callText reg name, none⟩
  | .goto target => some ⟨"", some (s.destination target)⟩
  | .branch target condition =>
    some ⟨condition.guard (s.resultText reg) ++ " then ", some (s.destination target)⟩
  | .ret => some ⟨"return", none⟩
  | .unknown _ => none

def labelsAt (addr : Nat) : List Nat :=
  (s.labels.filter fun l => l.2 = addr).map (·.1)

/-- The blocks of these instructions, the first of which is slot number `slot` or stands right before it. -/
def blocksFrom (names : Table Nat String) (landings : List Nat) (indented : Bool) (slot : Nat) :
    List (Nat × Instr) → List Block
  | [] => []
  | (id, i) :: rest =>
    let block : Block :=
      { addr := i.addr
        landing := landings.contains id
        indented := indented || landings.contains id
        phrase := s.phrase reg (names.get? id) slot i.action
        labels := s.labelsAt i.addr }
    block :: blocksFrom names landings (block.indented || !block.labels.isEmpty)
      (if i.action.isUnknown then slot else slot + 1) rest

/-- The blocks of the live instructions, in their order. -/
def blocks : List Block :=
  s.blocksFrom reg (s.bindings reg) s.landings false 0 s.instructions

/-! ## Blocks and lines -/

theorem actionText_eq (name? : Option String) (slot : Nat) (action : Action) :
    s.actionText reg name? slot action = (s.phrase reg name? slot action).map Phrase.line := by
  cases action with
  | assign value => simp [actionText, phrase, Phrase.line]
  | call name => simp [actionText, phrase, Phrase.line]
  | goto target => simp [actionText, phrase, Phrase.line, gotoText, destination]
  | branch target condition => simp [actionText, phrase, Phrase.line, gotoText, destination]
  | ret => simp [actionText, phrase, Phrase.line]
  | unknown mnemonic => rfl

theorem labelLines_eq (addr : Nat) :
    s.labelLines addr = (s.labelsAt addr).flatMap fun label => marker s!"LABEL_{label}" := by
  rw [labelLines, labelsAt, List.flatMap_map]

theorem isEmpty_labelLines (addr : Nat) : (s.labelLines addr).isEmpty = (s.labelsAt addr).isEmpty := by
  rw [labelLines_eq]
  cases s.labelsAt addr <;> rfl

theorem layout_eq (names : Table Nat String) (landings : List Nat) (indented : Bool) (slot : Nat)
    (l : List (Nat × Instr)) :
    s.layout reg names landings indented slot l =
      (s.blocksFrom reg names landings indented slot l).flatMap Block.lines := by
  induction l generalizing indented slot with
  | nil => rfl
  | cons p l ih =>
      obtain ⟨id, i⟩ := p
      simp only [layout, blocksFrom, List.flatMap_cons, ih, Block.lines, Block.body, actionText_eq,
        ← isEmpty_labelLines, ← labelLines_eq, Option.map_map, List.append_assoc]
      rfl

/-- The pseudocode of a script is the lines of its blocks. -/
theorem pseudocode_eq : s.pseudocode reg = (s.blocks reg).flatMap Block.lines :=
  s.layout_eq reg _ _ _ _ _

/-! ## Blocks and instructions -/

/-- A block shows its instruction: the marker if a jump goes to it, and the phrase of its action under some slot
number. -/
structure Shows (p : Nat × Instr) (b : Block) : Prop where
  addr : b.addr = p.2.addr
  landing : b.landing = s.landings.contains p.1
  phrase : ∃ slot, b.phrase = s.phrase reg ((s.bindings reg).get? p.1) slot p.2.action

theorem forall₂_shows_blocksFrom (indented : Bool) (slot : Nat) (l : List (Nat × Instr)) :
    List.Forall₂ (s.Shows reg) l (s.blocksFrom reg (s.bindings reg) s.landings indented slot l) := by
  induction l generalizing indented slot with
  | nil => exact .nil
  | cons p l ih => exact .cons ⟨rfl, rfl, slot, rfl⟩ (ih _ _)

theorem forall₂_shows : List.Forall₂ (s.Shows reg) s.instructions (s.blocks reg) :=
  s.forall₂_shows_blocksFrom reg _ _ _

/-- Every live instruction has one block, at its own address. -/
theorem map_addr_blocks : (s.blocks reg).map (·.addr) = s.instructions.map (·.2.addr) := by
  rw [← List.forall₂_eq_eq_eq, List.forall₂_map_left_iff, List.forall₂_map_right_iff]
  exact (s.forall₂_shows reg).flip.imp fun _ _ hs => hs.addr

theorem blocks_sorted (hs : s.instructions.Pairwise fun p q => p.1 < q.1 ∧ p.2.addr < q.2.addr) :
    (s.blocks reg).Pairwise fun b c => b.addr < c.addr := by
  have haddrs : ((s.blocks reg).map Block.addr).Pairwise (· < ·) := by
    rw [map_addr_blocks]
    exact List.pairwise_map.mpr (hs.imp And.right)
  exact List.pairwise_map.mp haddrs

/-- The block of an instruction, with its slot number. -/
theorem exists_block_of_append {before after : List (Nat × Instr)} {p : Nat × Instr}
    (h : s.instructions = before ++ p :: after) :
    ∃ b ∈ s.blocks reg, b.addr = p.2.addr ∧ b.phrase =
      s.phrase reg ((s.bindings reg).get? p.1) (before.filter fun q => !q.2.action.isUnknown).length p.2.action := by
  have hfrom : ∀ (indented : Bool) (slot : Nat),
      ∃ b ∈ s.blocksFrom reg (s.bindings reg) s.landings indented slot (before ++ p :: after), b.addr = p.2.addr ∧
        b.phrase = s.phrase reg ((s.bindings reg).get? p.1)
          (slot + (before.filter fun q => !q.2.action.isUnknown).length) p.2.action := by
    clear h
    induction before with
    | nil => exact fun _ _ => ⟨_, List.mem_cons_self, rfl, rfl⟩
    | cons q before ih =>
        intro indented slot
        obtain ⟨b, hb, haddr, hphrase⟩ := ih _ _
        refine ⟨b, List.mem_cons_of_mem _ hb, haddr, hphrase.trans ?_⟩
        congr 1
        rw [List.filter_cons]
        cases q.2.action.isUnknown with
        | true => rfl
        | false => exact (Nat.add_right_comm slot 1 _).trans (Nat.add_assoc slot _ 1)
  rw [blocks, h]
  obtain ⟨b, hb, haddr, hphrase⟩ := hfrom false 0
  exact ⟨b, hb, haddr, hphrase.trans (by rw [Nat.zero_add])⟩

theorem exists_shows_of_mem {b : Block} (hb : b ∈ s.blocks reg) :
    ∃ p ∈ s.instructions, s.Shows reg p b := by
  obtain ⟨n, hn, rfl⟩ := List.mem_iff_getElem.mp hb
  have h := s.forall₂_shows reg
  have hlt : n < s.instructions.length := h.length_eq ▸ hn
  exact ⟨_, List.getElem_mem hlt, h.get hlt hn⟩

theorem exists_block_of_mem {p : Nat × Instr} (hp : p ∈ s.instructions) :
    ∃ b ∈ s.blocks reg, s.Shows reg p b := by
  obtain ⟨n, hn, rfl⟩ := List.mem_iff_getElem.mp hp
  have h := s.forall₂_shows reg
  have hlt : n < (s.blocks reg).length := h.length_eq ▸ hn
  exact ⟨_, List.getElem_mem hlt, h.get hn hlt⟩

end Script

end Unstack
