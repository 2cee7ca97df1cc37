import Unstack.Proofs.Pseudocode.Markers

/-!
# The texts of instructions

A line of pseudocode that is neither empty nor the marker of a jump target or of a label is the text of one
instruction, and every instruction that shows has one such line (`filter_isMarker_pseudocode`).
-/

namespace Unstack

variable {s : Script} {reg : Registry}

/-- A line that stands between the texts of instructions. -/
def IsMarker (line : String) : Prop :=
  line = "" ∨ ¬ EndsPlain line ∧ ("JUMP_TARGET_".toList <+: line.toList ∨ "LABEL_".toList <+: line.toList)

instance (line : String) : Decidable (IsMarker line) :=
  inferInstanceAs (Decidable (_ ∨ _))

/-- The line is the text, indented or not. -/
def Indents (text line : String) : Prop :=
  line = text ∨ line = "  " ++ text

/-- The line of a block's own instruction. -/
def Block.line? (b : Block) : Option String :=
  b.phrase.map fun p => if b.indented then "  " ++ p.line else p.line

namespace Script

theorem line?_of_phrase {b : Block} {p : Phrase} (h : b.phrase = some p) :
    ∃ line, b.line? = some line ∧ Indents p.line line := by
  refine ⟨_, by rw [Block.line?, h, Option.map_some], ?_⟩
  split
  · exact Or.inr rfl
  · exact Or.inl rfl

theorem isMarker_marker {text line : String}
    (ht : "JUMP_TARGET_".toList <+: text.toList ∨ "LABEL_".toList <+: text.toList) (hl : line ∈ marker text) :
    IsMarker line := by
  rcases List.mem_cons.mp hl with rfl | hl
  · exact Or.inl rfl
  · rw [List.mem_singleton.mp hl]
    refine Or.inr ⟨?_, ?_⟩
    · rw [EndsPlain, String.toList_append, List.getLast?_append]
      exact fun h => h rfl
    · rw [String.toList_append]
      exact ht.imp (fun h => h.trans (List.prefix_append _ _)) fun h => h.trans (List.prefix_append _ _)

theorem phrase_line_ne_empty {name? : Option String} {slot : Nat} {action : Action} {p : Phrase}
    (h : s.phrase reg name? slot action = some p) : p.line ≠ "" := by
  have hgoto : ∀ text addr, Phrase.line ⟨text, some addr⟩ ≠ "" := by
    intro text addr
    simp [Phrase.line]
  cases action with
  | assign value => cases h; simp [Phrase.line]
  | call name =>
      cases h
      simp only [Phrase.line, callText]
      split <;> simp
  | goto target => cases h; exact hgoto _ _
  | branch target condition => cases h; exact hgoto _ _
  | ret => cases h; simp [Phrase.line]
  | unknown mnemonic => cases h

theorem not_isMarker_line {b : Block} (hb : b ∈ s.blocks reg) {line : String} (hl : b.line? = some line) :
    ¬ IsMarker line := by
  obtain ⟨_, _, hshows⟩ := s.exists_shows_of_mem reg hb
  obtain ⟨slot, hp⟩ := hshows.phrase
  obtain ⟨p, hphrase, rfl⟩ := Option.map_eq_some_iff.mp hl
  have hends := endsPlain_line (hp.symm.trans hphrase)
  have hne := phrase_line_ne_empty (hp.symm.trans hphrase)
  rintro (he | ⟨he, _⟩)
  · split at he
    · simp at he
    · exact hne he
  · refine he ?_
    split
    · exact .append (by decide) hends
    · exact hends

theorem filter_isMarker_lines {b : Block} (hb : b ∈ s.blocks reg) :
    b.lines.filter (¬ IsMarker ·) = b.line?.toList := by
  have hlanding : ∀ line ∈ (if b.landing then landingLines b.addr else []), IsMarker line := by
    intro line hl
    split at hl
    · refine isMarker_marker (Or.inl ?_) hl
      rw [String.toList_append]
      exact List.prefix_append _ _
    · cases hl
  have hlabels : ∀ line ∈ b.labels.flatMap fun label => marker s!"LABEL_{label}", IsMarker line := by
    intro line hl
    obtain ⟨label, _, hl⟩ := List.mem_flatMap.mp hl
    refine isMarker_marker (Or.inr ?_) hl
    rw [String.toList_append]
    exact List.prefix_append _ _
  have hline : ∀ line ∈ b.line?.toList, ¬ IsMarker line :=
    fun line hl => not_isMarker_line hb (Option.mem_toList.mp hl)
  have hlines : b.lines = (if b.landing then landingLines b.addr else []) ++
      (b.line?.toList ++ b.labels.flatMap fun label => marker s!"LABEL_{label}") := rfl
  rw [hlines, List.filter_append, List.filter_append, List.filter_eq_nil_iff.mpr (by simpa using hlanding),
    List.filter_eq_self.mpr (by simpa using hline), List.filter_eq_nil_iff.mpr (by simpa using hlabels),
    List.nil_append, List.append_nil]

/-- Without its markers pseudocode is the lines of the instructions that show. -/
theorem filter_isMarker_pseudocode (s : Script) (reg : Registry) :
    (s.pseudocode reg).filter (¬ IsMarker ·) = (s.blocks reg).filterMap Block.line? := by
  rw [pseudocode_eq, List.filter_flatMap, List.filterMap_eq_flatMap_toList]
  exact List.flatMap_congr fun b hb => filter_isMarker_lines hb

end Script

end Unstack
