import Unstack.Proofs.Pseudocode.Markers

/-!
# What the lines of pseudocode come to

Pseudocode has one line for every live instruction that means something, and two for every marker, one of them empty.
Labels are looked up by the address of an instruction. Each is resolved to the address of one live instruction, and no
two of these have the same address, so no label is lost and none is shown twice (`ofLines_accounted`).
-/

namespace Unstack

open Command (Labels codeWords wordsOf)

variable {s : Script} {reg : Registry} {b : Block}

namespace Script

/-! ## Lines that mark labels -/

/-- The line that marks a label. -/
def labelMark (label : Nat) : String :=
  s!"LABEL_{label}" ++ ":"

/-- The line marks a jump target or a label. -/
def IsMark (line : String) : Prop :=
  (∃ addr, line = landingMark (Hex.unsigned addr)) ∨ ∃ label, line = labelMark label

theorem labelMark_inj {label label' : Nat} : labelMark label = labelMark label' ↔ label = label' := by
  refine ⟨fun h => ?_, congrArg labelMark⟩
  have h : "LABEL_" ++ toString label = "LABEL_" ++ toString label' := (String.append_left_inj _).mp h
  exact Decimal.toString_injective ((String.append_right_inj _).mp h)

theorem not_endsPlain_labelMark (label : Nat) : ¬ EndsPlain (labelMark label) := by
  rw [EndsPlain, labelMark, String.toList_append, List.getLast?_append]
  exact fun h => h rfl

theorem IsMark.not_endsPlain {line : String} (h : IsMark line) : ¬ EndsPlain line := by
  rcases h with ⟨addr, rfl⟩ | ⟨label, rfl⟩
  · exact not_endsPlain_landingMark _
  · exact not_endsPlain_labelMark label

theorem labelMark_not_mem_landingLines (label addr : Nat) : labelMark label ∉ landingLines addr := by
  intro hm
  rcases List.mem_cons.mp hm with he | hm
  · exact not_endsPlain_labelMark label (he ▸ by decide)
  · exact landingMark_ne_label _ _ (List.mem_singleton.mp hm).symm

/-! ## The labels of a block -/

theorem count_marker (label other : Nat) :
    (marker s!"LABEL_{other}").count (labelMark label) = [other].count label := by
  have hempty : "" ≠ labelMark label := fun he => not_endsPlain_labelMark label (he ▸ by decide)
  rw [marker, List.count_cons_of_ne hempty]
  show [labelMark other].count (labelMark label) = _
  rw [List.count_singleton, List.count_singleton, beq_eq_decide, beq_eq_decide, decide_eq_decide.mpr labelMark_inj]

/-- A block marks each of its labels. -/
theorem count_lines (hb : b ∈ s.blocks reg) (label : Nat) : b.lines.count (labelMark label) = b.labels.count label := by
  have hfront : (if b.landing then landingLines b.addr else []).count (labelMark label) = 0 := by
    rw [List.count_eq_zero]
    split
    · exact labelMark_not_mem_landingLines label b.addr
    · exact List.not_mem_nil
  have hown : labelMark label ∉ (b.phrase.map fun p => if b.indented then "  " ++ p.line else p.line).toList :=
    fun hm => not_endsPlain_labelMark label (endsPlain_own hb hm)
  rw [Block.lines, Block.body, List.count_append, List.count_append, hfront, List.count_eq_zero.mpr hown, Nat.zero_add,
    Nat.zero_add]
  induction b.labels with
  | nil => rfl
  | cons other labels ih =>
      rw [List.flatMap_cons, List.count_append, count_marker, ih, ← List.count_append, List.singleton_append]

/-! ## All labels -/

/-- Labels that are regrouped by these addresses are the same labels, if the addresses are those of the labels and none
of them comes twice. -/
theorem flatMap_filter_perm {addrs : List Nat} {labels : List (Nat × Nat)} (ha : addrs.Nodup)
    (hl : ∀ l ∈ labels, l.2 ∈ addrs) : (addrs.flatMap fun a => labels.filter (·.2 = a)).Perm labels := by
  induction addrs generalizing labels with
  | nil =>
      rw [List.eq_nil_iff_forall_not_mem.mpr fun l hm => List.not_mem_nil (hl l hm)]
      exact .refl _
  | cons a addrs ih =>
      obtain ⟨hnot, hnodup⟩ := List.nodup_cons.mp ha
      have hother : addrs.flatMap (fun a' => labels.filter (·.2 = a')) =
          addrs.flatMap fun a' => (labels.filter (¬ ·.2 = a)).filter (·.2 = a') := by
        refine List.flatMap_congr fun a' ha' => ?_
        rw [List.filter_filter]
        refine List.filter_congr fun l _ => ?_
        have hne : a' ≠ a := by
          rintro rfl
          exact hnot ha'
        by_cases he : l.2 = a' <;> simp [he, hne]
      have hmem : ∀ l ∈ labels.filter (¬ ·.2 = a), l.2 ∈ addrs := by
        intro l hm
        obtain ⟨hm, hne⟩ := List.mem_filter.mp hm
        exact (List.mem_cons.mp (hl l hm)).resolve_left (of_decide_eq_true hne)
      have hrest := ih hnodup hmem
      rw [List.flatMap_cons, hother]
      refine (hrest.append_left _).trans ?_
      simpa using List.filter_append_perm (fun l : Nat × Nat => decide (l.2 = a)) labels

theorem labels_of_mem_blocks (hb : b ∈ s.blocks reg) : b.labels = s.labelsAt b.addr := by
  have hfrom : ∀ (l : List (Nat × Instr)) (indented : Bool) (slot : Nat),
      b ∈ s.blocksFrom reg (s.bindings reg) s.landings indented slot l → b.labels = s.labelsAt b.addr := by
    intro l
    induction l with
    | nil => exact fun _ _ hm => absurd hm List.not_mem_nil
    | cons p l ih =>
        intro indented slot hm
        rcases List.mem_cons.mp hm with rfl | hm
        · rfl
        · exact ih _ _ hm
  exact hfrom _ _ _ hb

theorem mem_labels_of_mem_blocks (hb : b ∈ s.blocks reg) {label : Nat} :
    label ∈ b.labels ↔ (label, b.addr) ∈ s.labels := by
  simp [labels_of_mem_blocks hb, labelsAt]

/-- The blocks have all labels, each once, if each is resolved to the address of a live instruction. -/
theorem flatMap_labels_perm (hs : s.instructions.Pairwise fun p q => p.1 < q.1 ∧ p.2.addr < q.2.addr)
    (hl : ∀ l ∈ s.labels, ∃ p ∈ s.instructions, p.2.addr = l.2) :
    ((s.blocks reg).flatMap Block.labels).Perm (s.labels.map (·.1)) := by
  have hlabels : (s.blocks reg).flatMap Block.labels = (s.instructions.map (·.2.addr)).flatMap s.labelsAt := by
    rw [← s.map_addr_blocks reg, List.flatMap_map]
    exact List.flatMap_congr fun b hb => labels_of_mem_blocks hb
  have haddrs : (s.instructions.map (·.2.addr)).Nodup :=
    List.pairwise_map.mpr (hs.imp fun hlt => Nat.ne_of_lt hlt.2)
  have hperm := flatMap_filter_perm haddrs fun l hm => List.mem_map.mpr (hl l hm)
  rw [hlabels]
  refine .trans (.of_eq ?_) (hperm.map _)
  rw [List.map_flatMap]
  rfl

/-! ## The number of lines -/

theorem length_lines (b : Block) :
    b.lines.length = (if b.landing then 2 else 0) + b.phrase.toList.length + 2 * b.labels.length := by
  have hmarkers : (b.labels.flatMap fun label => marker s!"LABEL_{label}").length = 2 * b.labels.length := by
    induction b.labels with
    | nil => rfl
    | cons label labels ih =>
        rw [List.flatMap_cons, List.length_append, ih]
        exact (Nat.add_comm _ _).trans (Nat.mul_succ 2 _).symm
  rw [Block.lines, Block.body, List.length_append, List.length_append, hmarkers]
  cases b.landing <;> cases b.phrase <;> simp [landingLines, marker]
  omega

theorem length_phrase (name? : Option String) (slot : Nat) (action : Action) :
    (s.phrase reg name? slot action).toList.length = if action.isUnknown then 0 else 1 := by
  cases action <;> rfl

theorem length_flatMap_lines {l : List (Nat × Instr)} {blocks : List Block} (h : List.Forall₂ (s.Shows reg) l blocks) :
    (blocks.flatMap Block.lines).length =
      (l.filter fun p => !p.2.action.isUnknown).length + 2 * l.countP (fun p => s.landings.contains p.1) +
        2 * (blocks.flatMap Block.labels).length := by
  induction h with
  | nil => rfl
  | @cons p b l blocks hshows _ ih =>
      obtain ⟨slot, hphrase⟩ := hshows.phrase
      rw [List.flatMap_cons, List.length_append, ih, length_lines, hphrase, length_phrase, hshows.landing,
        List.flatMap_cons, List.length_append, List.filter_cons, List.countP_cons]
      cases p.2.action.isUnknown <;> cases s.landings.contains p.1 <;> simp <;> omega

/-- Whether the line defines a label. -/
def isLabel (line : String) : Bool :=
  (wordsOf line).head? = some "LABEL"

theorem length_labels {lines : List String} (h : ofLines lines = .ok s) : s.labels.length = lines.countP isLabel := by
  obtain ⟨d, hd, hf⟩ := ofLines_eq_ok h
  obtain ⟨labels, hlabels, rfl⟩ := Draft.finish_eq_ok hf
  have hkeys := congrArg List.length (Draft.map_fst_resolveLabels hlabels)
  rw [List.length_map, List.length_map] at hkeys
  refine hkeys.trans (Draft.step_induction (motive := fun lines d => d.labels.entries.length = lines.countP isLabel)
    rfl ?_ hd)
  intro lines d line c d' _ _ ih hr hs
  show d'.labels.entries.length = _
  rw [(Draft.labels_step hr hs).length_eq, List.length_append, ih, List.countP_append, List.countP_singleton,
    Nat.add_comm, isLabel]
  have hhead : (codeWords line).head? = some "LABEL" ↔ (wordsOf line).head? = some "LABEL" :=
    Command.head?_codeWords (by decide)
  simp only [decide_eq_true_eq, ← hhead]
  split <;> rfl

/-! ## Indented lines -/

theorem exists_mark_landing (b : Block) :
    (∃ line ∈ if b.landing then landingLines b.addr else [], IsMark line) ↔ b.landing = true := by
  cases b.landing with
  | false => simp
  | true => exact iff_of_true ⟨_, List.mem_cons_of_mem _ List.mem_cons_self, Or.inl ⟨b.addr, rfl⟩⟩ rfl

/-- A block shows a marker if a jump goes to it or a label stands for it. -/
theorem exists_mark_lines (hb : b ∈ s.blocks reg) :
    (∃ line ∈ b.lines, IsMark line) ↔ b.landing = true ∨ b.labels ≠ [] := by
  constructor
  · rintro ⟨line, hline, hmarker⟩
    rw [Block.lines, Block.body, List.mem_append, List.mem_append] at hline
    rcases hline with hline | hline | hline
    · exact Or.inl ((exists_mark_landing b).mp ⟨line, hline, hmarker⟩)
    · exact absurd (endsPlain_own hb hline) hmarker.not_endsPlain
    · obtain ⟨label, hlabel, _⟩ := List.mem_flatMap.mp hline
      exact Or.inr (List.ne_nil_of_mem hlabel)
  · rintro (hl | hl)
    · obtain ⟨line, hline, hmarker⟩ := (exists_mark_landing b).mpr hl
      exact ⟨line, List.mem_append_left _ hline, hmarker⟩
    · obtain ⟨label, hlabel⟩ := List.exists_mem_of_ne_nil _ hl
      refine ⟨labelMark label, List.mem_append_right _ (List.mem_append_right _ ?_), Or.inr ⟨label, rfl⟩⟩
      exact List.mem_flatMap.mpr ⟨label, hlabel, List.mem_cons_of_mem _ List.mem_cons_self⟩

/-- A block is indented if it is to be from the start, or a marker stands in front of its own line. -/
theorem indented_blocksFrom {names : Table Nat String} {landings : List Nat} {indented : Bool} {slot : Nat}
    {l : List (Nat × Instr)} {before after : List Block}
    (h : s.blocksFrom reg names landings indented slot l = before ++ b :: after) :
    b.indented = true ↔
      indented = true ∨ (∃ c ∈ before, c.landing = true ∨ c.labels ≠ []) ∨ b.landing = true := by
  induction l generalizing indented slot before with
  | nil => simp [blocksFrom] at h
  | cons p l ih =>
      cases before with
      | nil =>
          obtain ⟨rfl, -⟩ := List.cons.inj h
          simp
      | cons c before =>
          obtain ⟨rfl, hrest⟩ := List.cons.inj h
          rw [ih hrest]
          simp [or_assoc]

theorem indented_iff {before after : List Block} (h : s.blocks reg = before ++ b :: after) :
    b.indented = true ↔
      ∃ line ∈ before.flatMap Block.lines ++ (if b.landing then landingLines b.addr else []), IsMark line := by
  have hmem : ∀ c ∈ before, c ∈ s.blocks reg := fun c hc => h ▸ List.mem_append_left _ hc
  have hbefore : (∃ line ∈ before.flatMap Block.lines, IsMark line) ↔
      ∃ c ∈ before, c.landing = true ∨ c.labels ≠ [] := by
    simp only [List.mem_flatMap]
    constructor
    · rintro ⟨line, ⟨c, hc, hline⟩, hmarker⟩
      exact ⟨c, hc, (exists_mark_lines (hmem c hc)).mp ⟨line, hline, hmarker⟩⟩
    · rintro ⟨c, hc, hl⟩
      obtain ⟨line, hline, hmarker⟩ := (exists_mark_lines (hmem c hc)).mpr hl
      exact ⟨line, ⟨c, hc, hline⟩, hmarker⟩
  simp only [List.mem_append, or_and_right, exists_or, hbefore, exists_mark_landing]
  exact (indented_blocksFrom h).trans (or_iff_right Bool.false_ne_true)

/-! ## The account -/

/-- What the lines of the pseudocode of a disassembly come to. -/
structure Accounted (lines : List String) (s : Script) (reg : Registry) : Prop where
  /-- The pseudocode is the lines of the blocks, one block for each live instruction. -/
  blocks : s.pseudocode reg = (s.blocks reg).flatMap Block.lines
  /-- Only a line without a meaning shows no text. -/
  shows : List.Forall₂ (fun p b => s.Shows reg p b ∧ b.phrase.toList.length = if p.2.action.isUnknown then 0 else 1)
    s.instructions (s.blocks reg)
  labels : ∀ b ∈ s.blocks reg, b.labels.Pairwise (· < ·) ∧ ∀ label, label ∈ b.labels ↔ (label, b.addr) ∈ s.labels
  /-- The line of an instruction is indented if a marker stands in front of it. -/
  indented : ∀ before b after, s.blocks reg = before ++ b :: after → (b.indented = true ↔
    ∃ line ∈ before.flatMap Block.lines ++ (if b.landing then landingLines b.addr else []), IsMark line)
  /-- A line that defines a label has one line in the pseudocode, with one instruction. -/
  defined : ∀ (l : Nat) (line : String), lines[l]? = some line → isLabel line = true →
    ∃ label, Labels line label ∧ (s.pseudocode reg).count (labelMark label) = 1 ∧
      ∃ b ∈ s.blocks reg, s.Nearest (l + 1) b.addr ∧ ∀ c ∈ s.blocks reg, label ∈ c.labels ↔ c = b
  marked : ∀ label, labelMark label ∈ s.pseudocode reg → ∃ line ∈ lines, Labels line label
  length : (s.pseudocode reg).length =
    s.slots.length + 2 * s.instructions.countP (fun p => s.landings.contains p.1) + 2 * lines.countP isLabel

theorem ofLines_labels_perm (reg : Registry) {lines : List String} (h : ofLines lines = .ok s) :
    ((s.blocks reg).flatMap Block.labels).Perm (s.labels.map (·.1)) := by
  refine flatMap_labels_perm (ofLines_sorted h) fun ⟨label, addr⟩ hm => ?_
  obtain ⟨_, _, _, _, hnearest⟩ := (mem_labels h label addr).mp hm
  exact hnearest.2.1

/-- The pseudocode marks every label once. -/
theorem count_pseudocode (reg : Registry) {lines : List String} (h : ofLines lines = .ok s) (label : Nat) :
    (s.pseudocode reg).count (labelMark label) = (s.labels.map (·.1)).count label := by
  rw [← (ofLines_labels_perm reg h).count_eq, pseudocode_eq, List.count_flatMap, List.count_flatMap]
  exact congrArg List.sum (List.map_congr_left fun b hb => count_lines hb label)

theorem nodup_labels {lines : List String} (h : ofLines lines = .ok s) : (s.labels.map (·.1)).Nodup :=
  List.pairwise_map.mpr ((labels_sorted h).imp Nat.ne_of_lt)

/-- A label that a line defines is marked once, by the block of the instruction that it stands for. -/
theorem exists_block_of_isLabel (reg : Registry) {lines : List String} (h : ofLines lines = .ok s) {l : Nat}
    {line : String} (hline : lines[l]? = some line) (hhead : isLabel line = true) :
    ∃ label, Labels line label ∧ (s.pseudocode reg).count (labelMark label) = 1 ∧
      ∃ b ∈ s.blocks reg, s.Nearest (l + 1) b.addr ∧ ∀ c ∈ s.blocks reg, label ∈ c.labels ↔ c = b := by
  obtain ⟨label, hlabel, ⟨addr, hm⟩, honce⟩ := exists_label h hline (of_decide_eq_true hhead)
  obtain ⟨l', line', hline', hlabel', hnearest⟩ := (mem_labels h label addr).mp hm
  obtain rfl := honce l' line' hline' hlabel'
  obtain ⟨p, hp, hpaddr⟩ := hnearest.2.1
  obtain ⟨b, hb, hshows⟩ := s.exists_block_of_mem reg hp
  have haddr : b.addr = addr := hshows.addr.trans hpaddr
  refine ⟨label, hlabel, ?_, b, hb, haddr ▸ hnearest, fun c hc => ?_⟩
  · rw [count_pseudocode reg h]
    exact List.count_eq_one_of_mem (nodup_labels h) (List.mem_map.mpr ⟨_, hm, rfl⟩)
  · rw [mem_labels_of_mem_blocks hc]
    constructor
    · intro hm'
      have he := List.inj_on_of_nodup_map (nodup_labels h) hm' hm rfl
      exact eq_of_key_eq (s.blocks_sorted reg (ofLines_sorted h)) hc hb ((congrArg Prod.snd he).trans haddr.symm)
    · rintro rfl
      exact haddr ▸ hm

theorem exists_line_of_labelMark {lines : List String} (h : ofLines lines = .ok s) {label : Nat}
    (hmark : labelMark label ∈ s.pseudocode reg) : ∃ line ∈ lines, Labels line label := by
  have hcount := List.count_pos_iff.mpr hmark
  rw [count_pseudocode reg h, List.count_pos_iff, List.mem_map] at hcount
  obtain ⟨⟨_, addr⟩, hm, rfl⟩ := hcount
  obtain ⟨_, line, hline, hlabel, _⟩ := (mem_labels h _ addr).mp hm
  exact ⟨line, List.mem_of_getElem? hline, hlabel⟩

/-- The pseudocode of a disassembly has the lines that its instructions, its jumps and its labels ask for. -/
theorem ofLines_accounted {lines : List String} (h : ofLines lines = .ok s) (reg : Registry) :
    s.Accounted lines reg where
  blocks := s.pseudocode_eq reg
  shows := by
    refine (s.forall₂_shows reg).imp fun p b hshows => ⟨hshows, ?_⟩
    obtain ⟨slot, hphrase⟩ := hshows.phrase
    rw [hphrase, length_phrase]
  labels b hb := by
    refine ⟨?_, fun label => mem_labels_of_mem_blocks hb⟩
    rw [labels_of_mem_blocks hb]
    exact List.pairwise_map.mpr ((labels_sorted h).filter _)
  indented _ _ _ := indented_iff
  defined _ _ := exists_block_of_isLabel reg h
  marked _ := exists_line_of_labelMark h
  length := by
    rw [pseudocode_eq, length_flatMap_lines (s.forall₂_shows reg), (ofLines_labels_perm reg h).length_eq,
      List.length_map, length_labels h, slots, List.length_map]

theorem ofLines_accounted_indented :
    ∃ s, ofLines ["PUSH 1", "LABEL 7", "LABEL 2", "NOP", "PUSH 2", "JUMP 4"] = .ok s ∧
      s.Accounted ["PUSH 1", "LABEL 7", "LABEL 2", "NOP", "PUSH 2", "JUMP 4"] .empty ∧
      s.pseudocode .empty = ["var_0 := 0x1", "", "LABEL_2:", "", "LABEL_7:", "", "JUMP_TARGET_0x4:",
        "  var_1 := 0x2", "  Goto 0x4"] := by
  obtain ⟨s, hs, hcode⟩ : ∃ s, ofLines ["PUSH 1", "LABEL 7", "LABEL 2", "NOP", "PUSH 2", "JUMP 4"] = .ok s ∧
      s.pseudocode .empty = ["var_0 := 0x1", "", "LABEL_2:", "", "LABEL_7:", "", "JUMP_TARGET_0x4:",
        "  var_1 := 0x2", "  Goto 0x4"] := exists_ok (by decide +kernel)
  exact ⟨s, hs, ofLines_accounted hs .empty, hcode⟩

end Script

end Unstack
