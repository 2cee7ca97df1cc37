import Unstack.Proofs.Pseudocode.Blocks
import Unstack.Proofs.Script.Resolution
import Unstack.Proofs.Text.Hex

/-!
# Jumps and the markers they name

A jump shows the address of the instruction that it goes to, and the marker of this address stands once, in front of
the lines of that instruction. A jump past the end shows an address without a marker. Every marker is named by a jump
(`ofLines_closed`). No other line is taken for a marker, because no other line that starts like one ends in a colon.
-/

namespace Unstack

variable {s : Script} {reg : Registry}

/-! ## Texts that do not end in a colon -/

def EndsPlain (text : String) : Prop :=
  text.toList.getLast? ≠ some ':'

instance (text : String) : Decidable (EndsPlain text) :=
  inferInstanceAs (Decidable (_ ≠ _))

theorem EndsPlain.append {front back : String} (hf : EndsPlain front) (hb : EndsPlain back) :
    EndsPlain (front ++ back) := by
  rw [EndsPlain, String.toList_append, List.getLast?_append, ne_eq, Option.or_eq_some_iff]
  rintro (h | ⟨_, h⟩)
  · exact hb h
  · exact hf h

theorem EndsPlain.append_left {back : String} (front : String) (hne : back ≠ "") (hb : EndsPlain back) :
    EndsPlain (front ++ back) := by
  rw [EndsPlain, String.toList_append, List.getLast?_append, ne_eq, Option.or_eq_some_iff]
  rintro (h | ⟨h, _⟩)
  · exact hb h
  · exact hne (String.toList_eq_nil_iff.mp (List.getLast?_eq_none_iff.mp h))

theorem endsPlain_ofList {l : List Char} (h : ':' ∉ l) : EndsPlain (String.ofList l) := by
  rw [EndsPlain, String.toList_ofList]
  exact fun he => h (List.mem_of_getLast? he)

theorem endsPlain_unsigned (n : Nat) : EndsPlain (Hex.unsigned n) :=
  .append (by decide) (endsPlain_ofList (Hex.not_mem_toDigits (by decide) n))

theorem endsPlain_signed (v : Int) : EndsPlain (Hex.signed v) := by
  rw [Hex.signed]
  split
  · exact .append (by decide) (endsPlain_unsigned _)
  · exact endsPlain_unsigned _

theorem endsPlain_toString (n : Nat) : EndsPlain (toString n) := by
  rw [Nat.toString_eq_ofList_toDigits]
  refine endsPlain_ofList fun hc => ?_
  have hd := Nat.isDigit_of_mem_toDigits (by decide) (by decide) hc
  exact absurd hd (by decide)

namespace Expr

theorem endsPlain_parenthesize (e : Expr) {text : String} (h : EndsPlain text) :
    EndsPlain (e.parenthesize text) := by
  cases e with
  | binary => exact .append_left _ (by decide) (by decide)
  | _ => exact h

theorem endsPlain_render {call : Nat → String} (hc : ∀ id, EndsPlain (call id)) (e : Expr) :
    EndsPlain (e.render call) := by
  induction e with
  | literal value => exact endsPlain_signed value
  | argument index => exact .append_left _ (by decide) (by decide)
  | localVar index => exact .append (by decide) (endsPlain_toString index)
  | result id => exact hc id
  | binary op left right _ ihr =>
      exact .append (.append_left _ (by decide) (by decide)) (endsPlain_parenthesize right ihr)
  | unary op operand ih =>
      exact .append (by cases op <;> decide) (endsPlain_parenthesize operand ih)

end Expr

namespace Script

theorem endsPlain_callText (name : String) : EndsPlain (callText reg name) := by
  rw [callText]
  split
  · exact .append_left _ (by decide) (by decide)
  · exact .append_left _ (by decide) (by decide)

theorem endsPlain_resultText (id : Nat) : EndsPlain (s.resultText reg id) := by
  rw [resultText]
  cases s.callee? id with
  | none => exact (by decide : EndsPlain "")
  | some name => exact endsPlain_callText name

theorem endsPlain_line {name? : Option String} {slot : Nat} {action : Action} {p : Phrase}
    (h : s.phrase reg name? slot action = some p) : EndsPlain p.line := by
  have hgoto : ∀ text addr, EndsPlain (Phrase.line ⟨text, some addr⟩) := fun text addr =>
    .append_left text (by simp [Hex.unsigned]) (.append (by decide) (endsPlain_unsigned addr))
  have hplain : ∀ text, EndsPlain text → EndsPlain (Phrase.line ⟨text, none⟩) :=
    fun text ht => .append ht (by decide : EndsPlain "")
  cases action with
  | assign value =>
      cases h
      refine hplain _ (.append (.append_left _ (by decide) (by decide)) ?_)
      exact Expr.endsPlain_render endsPlain_resultText value
  | call name => cases h; exact hplain _ (endsPlain_callText name)
  | goto target => cases h; exact hgoto _ _
  | branch target condition => cases h; exact hgoto _ _
  | ret => cases h; exact hplain _ (by decide)
  | unknown mnemonic => cases h

/-! ## Lines that are markers -/

/-- The line that marks an instruction by this text. -/
def landingMark (text : String) : String :=
  "JUMP_TARGET_" ++ text ++ ":"

theorem not_endsPlain_landingMark (text : String) : ¬ EndsPlain (landingMark text) := by
  rw [EndsPlain, landingMark, String.toList_append, List.getLast?_append]
  exact fun h => h rfl

theorem landingMark_inj {text text' : String} (h : landingMark text = landingMark text') : text = text' :=
  (String.append_right_inj _).mp ((String.append_left_inj _).mp h)

theorem landingMark_ne_empty (text : String) : landingMark text ≠ "" := by
  intro h
  exact not_endsPlain_landingMark text (h ▸ by decide)

theorem landingMark_ne_label (text label : String) : landingMark text ≠ "LABEL_" ++ label ++ ":" := by
  intro h
  have hfirst := congrArg (fun line => line.toList.head?) h
  simp [landingMark] at hfirst

theorem endsPlain_own {b : Block} {line : String} (hb : b ∈ s.blocks reg)
    (hl : line ∈ (b.phrase.map fun p => if b.indented then "  " ++ p.line else p.line).toList) : EndsPlain line := by
  obtain ⟨p, _, hshows⟩ := s.exists_shows_of_mem reg hb
  obtain ⟨slot, hp⟩ := hshows.phrase
  rw [Option.mem_toList, Option.map_eq_some_iff] at hl
  obtain ⟨phrase, hphrase, rfl⟩ := hl
  have hends := endsPlain_line (hp.symm.trans hphrase)
  split
  · exact .append (by decide) hends
  · exact hends

theorem landingMark_not_mem_body {b : Block} (hb : b ∈ s.blocks reg) (text : String) :
    landingMark text ∉ b.body := by
  rw [Block.body, List.mem_append, not_or]
  constructor
  · exact fun hm => not_endsPlain_landingMark text (endsPlain_own hb hm)
  · rw [List.mem_flatMap]
    rintro ⟨label, _, hm⟩
    rcases List.mem_cons.mp hm with he | hm
    · exact landingMark_ne_empty text he
    · exact landingMark_ne_label text _ (List.mem_singleton.mp hm)

theorem mem_lines_landingMark {b : Block} (hb : b ∈ s.blocks reg) (text : String) :
    landingMark text ∈ b.lines ↔ b.landing = true ∧ text = Hex.unsigned b.addr := by
  rw [Block.lines, List.mem_append, or_iff_left (landingMark_not_mem_body hb text)]
  by_cases hl : b.landing = true
  · rw [if_pos hl, and_iff_right hl]
    constructor
    · intro hm
      rcases List.mem_cons.mp hm with he | hm
      · exact absurd he (landingMark_ne_empty text)
      · exact landingMark_inj (List.mem_singleton.mp hm)
    · rintro rfl
      exact List.mem_cons_of_mem _ List.mem_cons_self
  · rw [if_neg hl]
    exact iff_of_false List.not_mem_nil fun h => hl h.1

theorem mem_pseudocode_landingMark (text : String) :
    landingMark text ∈ s.pseudocode reg ↔
      ∃ b ∈ s.blocks reg, b.landing = true ∧ text = Hex.unsigned b.addr := by
  rw [pseudocode_eq, List.mem_flatMap]
  exact exists_congr fun b => and_congr_right fun hb => mem_lines_landingMark hb text

/-! ## The closure of jumps and markers -/

/-- The line of the instruction at this address ends in the text. -/
def EndsIn (s : Script) (reg : Registry) (addr : Nat) (ending : String) : Prop :=
  ∃ b ∈ s.blocks reg, b.addr = addr ∧ ∃ p front, b.phrase = some p ∧ p.line = front ++ ending

/-- The marker of this address stands once, under an empty line, behind the lines of all instructions before the
address and in front of the lines of the one at the address. -/
def MarkedOnce (s : Script) (reg : Registry) (addr : Nat) : Prop :=
  (s.pseudocode reg).count (landingMark (Hex.unsigned addr)) = 1 ∧
    ∃ before b after, s.blocks reg = before ++ b :: after ∧
      (∀ c ∈ before, c.addr < addr) ∧ b.addr = addr ∧ (∀ c ∈ after, addr < c.addr) ∧
      s.pseudocode reg = before.flatMap Block.lines ++
        "" :: landingMark (Hex.unsigned addr) :: (b.body ++ after.flatMap Block.lines)

/-- Jumps name markers, and markers are named by jumps. -/
structure Closed (s : Script) (reg : Registry) : Prop where
  /-- The pseudocode is the lines of the blocks, one block for each live instruction. -/
  blocks : s.pseudocode reg = (s.blocks reg).flatMap Block.lines
  shows : List.Forall₂ (s.Shows reg) s.instructions (s.blocks reg)
  /-- A jump names the marker of the first instruction that is not before its target. -/
  landing : ∀ p ∈ s.instructions, ∀ target, p.2.action.target? = some target →
    (∃ q ∈ s.instructions, target ≤ q.2.addr) →
    ∃ addr, s.Nearest target addr ∧ s.EndsIn reg p.2.addr ("Goto " ++ Hex.unsigned addr) ∧
      s.MarkedOnce reg addr
  /-- A jump past the end names its target, which no marker does. -/
  past : ∀ p ∈ s.instructions, ∀ target, p.2.action.target? = some target →
    (∀ q ∈ s.instructions, q.2.addr < target) →
    s.EndsIn reg p.2.addr ("Goto " ++ Hex.unsigned target) ∧
      landingMark (Hex.unsigned target) ∉ s.pseudocode reg
  named : ∀ text, landingMark text ∈ s.pseudocode reg →
    ∃ p ∈ s.instructions, p.2.action.target?.isSome ∧ s.EndsIn reg p.2.addr ("Goto " ++ text)

theorem endsIn_destination (reg : Registry) {p : Nat × Instr} {target : Nat} (hp : p ∈ s.instructions)
    (ht : p.2.action.target? = some target) :
    s.EndsIn reg p.2.addr ("Goto " ++ Hex.unsigned (s.destination target)) := by
  obtain ⟨b, hb, hshows⟩ := s.exists_block_of_mem reg hp
  obtain ⟨slot, hphrase⟩ := hshows.phrase
  refine ⟨b, hb, hshows.addr, ?_⟩
  rw [hphrase]
  cases ha : p.2.action with
  | goto t | branch t _ =>
      rw [ha] at ht
      cases ht
      exact ⟨_, _, rfl, rfl⟩
  | _ => rw [ha] at ht; cases ht

theorem destination_eq {target : Nat} {p : Nat × Instr} (h : firstFrom target s.instructions = some p) :
    s.destination target = p.2.addr := by
  rw [destination, resolveAddr, h]
  rfl

theorem markedOnce_of_landing {b : Block} (hs : (s.blocks reg).Pairwise fun b c => b.addr < c.addr)
    (hb : b ∈ s.blocks reg) (hl : b.landing = true) : s.MarkedOnce reg b.addr := by
  obtain ⟨before, after, hsplit⟩ := List.append_of_mem hb
  have hlines : b.lines = "" :: landingMark (Hex.unsigned b.addr) :: b.body := by
    rw [Block.lines, if_pos hl]
    rfl
  have hcode : s.pseudocode reg = before.flatMap Block.lines ++
      "" :: landingMark (Hex.unsigned b.addr) :: (b.body ++ after.flatMap Block.lines) := by
    rw [pseudocode_eq, hsplit, List.flatMap_append, List.flatMap_cons, hlines]
    rfl
  rw [hsplit, List.pairwise_append, List.pairwise_cons] at hs
  obtain ⟨_, ⟨hafter, _⟩, hbefore⟩ := hs
  have hbefore : ∀ c ∈ before, c.addr < b.addr := fun c hc => hbefore c hc b List.mem_cons_self
  -- another block has another address, and so another marker if it has one
  have hother : ∀ l : List Block, (∀ c ∈ l, c ∈ s.blocks reg ∧ c.addr ≠ b.addr) →
      (l.flatMap Block.lines).count (landingMark (Hex.unsigned b.addr)) = 0 := by
    intro l hl
    rw [List.count_eq_zero, List.mem_flatMap]
    rintro ⟨c, hc, hm⟩
    obtain ⟨hcb, hne⟩ := hl c hc
    exact hne (Hex.unsigned_injective ((mem_lines_landingMark hcb _).mp hm).2).symm
  refine ⟨?_, before, b, after, hsplit, hbefore, rfl, hafter, hcode⟩
  have hne : "" ≠ landingMark (Hex.unsigned b.addr) := (landingMark_ne_empty _).symm
  rw [hcode, List.count_append, List.count_cons_of_ne hne, List.count_cons_self, List.count_append,
    hother before fun c hc => ⟨by simp [hsplit, hc], Nat.ne_of_lt (hbefore c hc)⟩,
    hother after fun c hc => ⟨by simp [hsplit, hc], Nat.ne_of_gt (hafter c hc)⟩,
    List.count_eq_zero.mpr (landingMark_not_mem_body hb _)]

/-- In the pseudocode of a disassembly jumps and markers belong together. -/
theorem ofLines_closed {lines : List String} (h : ofLines lines = .ok s) (reg : Registry) :
    s.Closed reg := by
  have hsorted := ofLines_sorted h
  refine ⟨s.pseudocode_eq reg, s.forall₂_shows reg, ?_, ?_, ?_⟩
  · rintro p hp target ht ⟨q, hq, hle⟩
    cases hf : firstFrom target s.instructions with
    | none => exact absurd hle (Nat.not_le_of_lt (firstFrom_eq_none.mp hf q hq))
    | some found =>
        obtain ⟨hfound, hfirst, hleast⟩ := firstFrom_eq_some hsorted hf
        have hends := endsIn_destination reg hp ht
        rw [destination_eq hf] at hends
        refine ⟨found.2.addr, ⟨hfirst, ⟨found, hfound, rfl⟩, hleast⟩, hends, ?_⟩
        obtain ⟨b, hb, hshows⟩ := s.exists_block_of_mem reg hfound
        have hl : b.landing = true := by
          rw [hshows.landing, contains_landings hfound]
          exact ⟨target, (mem_targets h target).mpr ⟨p, hp, ht⟩, hf⟩
        rw [← hshows.addr]
        exact markedOnce_of_landing (s.blocks_sorted reg hsorted) hb hl
  · intro p hp target ht hpast
    have hends := endsIn_destination reg hp ht
    rw [destination, resolveAddr, firstFrom_eq_none.mpr hpast] at hends
    refine ⟨hends, ?_⟩
    rw [mem_pseudocode_landingMark]
    rintro ⟨b, hb, _, he⟩
    obtain ⟨q, hq, hshows⟩ := s.exists_shows_of_mem reg hb
    have heq : target = q.2.addr := (Hex.unsigned_injective he).trans hshows.addr
    exact absurd (hpast q hq) (heq ▸ Nat.lt_irrefl _)
  · intro text hm
    obtain ⟨b, hb, hl, rfl⟩ := (mem_pseudocode_landingMark text).mp hm
    obtain ⟨q, hq, hshows⟩ := s.exists_shows_of_mem reg hb
    rw [hshows.landing, contains_landings hq] at hl
    obtain ⟨target, ht, hf⟩ := hl
    obtain ⟨p, hp, ht⟩ := (mem_targets h target).mp ht
    have hends := endsIn_destination reg hp ht
    rw [destination_eq hf, ← hshows.addr] at hends
    exact ⟨p, hp, by rw [ht]; rfl, hends⟩

theorem ofLines_closed_folded :
    ∃ s, ofLines ["PUSH 1", "IFNOTGO 3", "POPLOCVAR 0", "PUSH 2", "PUSH 3", "ADD", "JUMP 40", "JUMP 0"] = .ok s ∧
      s.Closed .empty ∧
      s.pseudocode .empty = ["", "JUMP_TARGET_0x1:", "  if(! 0x1) then Goto 0x5", "", "JUMP_TARGET_0x5:",
        "  var_1 := 0x2 + 0x3", "  Goto 0x40", "  Goto 0x1"] := by
  obtain ⟨s, hs, hcode⟩ : ∃ s, ofLines
      ["PUSH 1", "IFNOTGO 3", "POPLOCVAR 0", "PUSH 2", "PUSH 3", "ADD", "JUMP 40", "JUMP 0"] = .ok s ∧
        s.pseudocode .empty = ["", "JUMP_TARGET_0x1:", "  if(! 0x1) then Goto 0x5", "", "JUMP_TARGET_0x5:",
          "  var_1 := 0x2 + 0x3", "  Goto 0x40", "  Goto 0x1"] := exists_ok (by decide +kernel)
  exact ⟨s, hs, ofLines_closed hs .empty, hcode⟩

end Script

end Unstack
