import Unstack.Proofs.Draft.Targets
import Unstack.Proofs.Script.Acceptance
import Unstack.Proofs.Script.Conservation

/-!
# What addresses stand for

An address stands for the first live instruction that is not before it. A search by halving finds it, because the live
instructions stand in the order of their addresses. The targets of a script are those of its live jumps, and its labels
are those of its lines (`ofLines_resolved`).
-/

namespace Unstack

open Command (Labels Reads codeWords wordsOf)

/-! ## Search by halving -/

/-- The first number from `lo` on of which `below` does not hold, which is at most `hi`, by halving. -/
def halve (below : Nat → Bool) (lo hi : Nat) : Nat :=
  if lo < hi then
    if below ((lo + hi) / 2) then halve below ((lo + hi) / 2 + 1) hi else halve below lo ((lo + hi) / 2)
  else lo
termination_by hi - lo

/-- What holds of a number and not of a greater one before `lo` or from `hi` on is found between the two. -/
theorem lt_halve_iff {below : Nat → Bool} (hmono : ∀ {i j}, i ≤ j → below j = true → below i = true) {lo hi : Nat}
    (hlo : ∀ i < lo, below i = true) (hhi : ∀ i, hi ≤ i → below i = false) (i : Nat) :
    i < halve below lo hi ↔ below i = true := by
  fun_induction halve below lo hi with
  | case1 lo hi hlt hmid ih =>
      -- it holds of the middle, and so of all before the middle
      exact ih (fun i hi => hmono (Nat.le_of_lt_succ hi) hmid) hhi
  | case2 lo hi hlt hmid ih =>
      -- it does not hold of the middle, and so of none behind it
      exact ih hlo fun i hi => Bool.eq_false_iff.mpr fun hbelow => hmid (hmono hi hbelow)
  | case3 lo hi hle =>
      refine ⟨hlo i, fun hbelow => Nat.lt_of_not_le fun hi' => ?_⟩
      rw [hhi i (Nat.le_trans (Nat.le_of_not_lt hle) hi')] at hbelow
      cases hbelow

namespace Script

variable {d : Draft} {s : Script} {lines : List String}

/-- Where the first live instruction stands that is not before the address, by halving the live instructions. -/
def search (s : Script) (addr : Nat) : Nat :=
  halve (fun n => (s.live[n]?.bind (s.emitted[·]?)).any (·.addr < addr)) 0 s.live.length

/-- The address is the least one of a live instruction that is not before the target. -/
def Nearest (s : Script) (target addr : Nat) : Prop :=
  target ≤ addr ∧ (∃ p ∈ s.instructions, p.2.addr = addr) ∧
    ∀ p ∈ s.instructions, target ≤ p.2.addr → addr ≤ p.2.addr

/-! ## Resolving -/

section

variable (hs : s.instructions.Pairwise fun p q => p.1 < q.1 ∧ p.2.addr < q.2.addr)

include hs in
theorem firstFrom_eq_some_iff {addr : Nat} {p : Nat × Instr} :
    firstFrom addr s.instructions = some p ↔ p ∈ s.instructions ∧ s.Nearest addr p.2.addr := by
  constructor
  · intro h
    obtain ⟨hp, hle, hleast⟩ := firstFrom_eq_some hs h
    exact ⟨hp, hle, ⟨p, hp, rfl⟩, hleast⟩
  · rintro ⟨hp, hle, _, hleast⟩
    cases hf : firstFrom addr s.instructions with
    | none => exact absurd (firstFrom_eq_none.mp hf p hp) (Nat.not_lt.mpr hle)
    | some q =>
        obtain ⟨hq, hleq, hleastq⟩ := firstFrom_eq_some hs hf
        have haddr := Nat.le_antisymm (hleastq p hp hle) (hleast q hq hleq)
        rw [eq_of_key_eq (f := fun p => p.2.addr) (hs.imp And.right) hq hp haddr]

include hs in
theorem resolve_eq_some {addr id : Nat} :
    s.resolve addr = some id ↔ ∃ i, (id, i) ∈ s.instructions ∧ s.Nearest addr i.addr := by
  simp only [resolve, Option.map_eq_some_iff, firstFrom_eq_some_iff hs]
  constructor
  · rintro ⟨p, hp, rfl⟩
    exact ⟨p.2, hp⟩
  · rintro ⟨i, hi⟩
    exact ⟨(id, i), hi, rfl⟩

include hs in
theorem resolveAddr_eq_some {addr found : Nat} : s.resolveAddr addr = some found ↔ s.Nearest addr found := by
  simp only [resolveAddr, Option.map_eq_some_iff, firstFrom_eq_some_iff hs]
  constructor
  · rintro ⟨p, ⟨_, hp⟩, rfl⟩
    exact hp
  · rintro hn
    obtain ⟨p, hp, rfl⟩ := hn.2.1
    exact ⟨p, ⟨hp, hn⟩, rfl⟩

include hs in
/-- A greater address stands for no earlier instruction. -/
theorem resolve_mono {a b id : Nat} (hab : a ≤ b) (h : s.resolve b = some id) :
    ∃ id', s.resolve a = some id' ∧ id' ≤ id := by
  obtain ⟨q, hq, rfl⟩ := Option.map_eq_some_iff.mp h
  obtain ⟨hqmem, hle, _⟩ := firstFrom_eq_some hs hq
  cases hp : firstFrom a s.instructions with
  | none => exact absurd (firstFrom_eq_none.mp hp q hqmem) (Nat.not_lt.mpr (Nat.le_trans hab hle))
  | some p =>
      refine ⟨p.1, by rw [resolve, hp]; rfl, ?_⟩
      obtain ⟨_, before, after, hsplit, hbefore⟩ := List.find?_eq_some_iff_append.mp hp
      rw [hsplit] at hqmem hs
      rcases List.mem_append.mp hqmem with hq' | hq'
      · have hlt : q.2.addr < a := by simpa using hbefore q hq'
        exact absurd (Nat.le_trans hab hle) (Nat.not_le.mpr hlt)
      · rcases List.mem_cons.mp hq' with rfl | hq'
        · exact Nat.le_refl _
        · exact Nat.le_of_lt ((List.pairwise_cons.mp (List.pairwise_append.mp hs).2.1).1 q hq').1

theorem emitted_of_live (hl : s.instructions.map (·.1) = s.live) (n : Nat) :
    s.live[n]?.bind (s.emitted[·]?) = s.instructions[n]?.map (·.2) := by
  rw [← hl, List.getElem?_map]
  cases hp : s.instructions[n]? with
  | none => rfl
  | some p => exact (mem_instructions.mp (List.mem_of_getElem? hp)).2

include hs in
theorem addr_le_addr {m n : Nat} {p q : Nat × Instr} (hmn : m ≤ n) (hp : s.instructions[m]? = some p)
    (hq : s.instructions[n]? = some q) : p.2.addr ≤ q.2.addr := by
  obtain ⟨hm, rfl⟩ := List.getElem?_eq_some_iff.mp hp
  obtain ⟨hn, rfl⟩ := List.getElem?_eq_some_iff.mp hq
  rcases Nat.lt_or_eq_of_le hmn with hlt | rfl
  · exact Nat.le_of_lt (List.pairwise_iff_getElem.mp hs m n hm hn hlt).2
  · exact Nat.le_refl _

include hs in
/-- The live instructions in front of what the search finds are those before the address. -/
theorem lt_search_iff (hl : s.instructions.map (·.1) = s.live) (addr n : Nat) :
    n < s.search addr ↔ ∃ p, s.instructions[n]? = some p ∧ p.2.addr < addr := by
  have hbelow : ∀ n : Nat, (s.live[n]?.bind (s.emitted[·]?)).any (·.addr < addr) = true ↔
      ∃ p, s.instructions[n]? = some p ∧ p.2.addr < addr := by
    intro n
    rw [emitted_of_live hl]
    cases s.instructions[n]? <;> simp
  refine (lt_halve_iff ?_ (fun n hn => absurd hn (Nat.not_lt_zero n)) ?_ n).trans (hbelow n)
  · intro m n hmn hn
    obtain ⟨q, hq, hlt⟩ := (hbelow n).mp hn
    have hm := Nat.lt_of_le_of_lt hmn (List.getElem?_eq_some_iff.mp hq).1
    exact (hbelow m).mpr ⟨_, List.getElem?_eq_getElem hm,
      Nat.lt_of_le_of_lt (addr_le_addr hs hmn (List.getElem?_eq_getElem hm) hq) hlt⟩
  · intro n hn
    rw [List.getElem?_eq_none hn]
    rfl

include hs in
/-- The search finds what the address stands for. -/
theorem resolve_eq_search (hl : s.instructions.map (·.1) = s.live) (addr : Nat) :
    s.resolve addr = s.live[s.search addr]? := by
  have hsearch := lt_search_iff hs hl addr
  have hindex : ∀ q ∈ s.instructions, ∃ n, s.instructions[n]? = some q := fun q => List.mem_iff_getElem?.mp
  rw [resolve, ← hl, List.getElem?_map]
  congr 1
  cases hp : s.instructions[s.search addr]? with
  | none =>
      refine firstFrom_eq_none.mpr fun q hq => ?_
      obtain ⟨n, hn⟩ := hindex q hq
      have hlt : n < s.search addr :=
        Nat.lt_of_lt_of_le (List.getElem?_eq_some_iff.mp hn).1 (List.getElem?_eq_none_iff.mp hp)
      obtain ⟨_, hq', hbelow⟩ := (hsearch n).mp hlt
      rwa [Option.some.inj (hn.symm.trans hq')]
  | some p =>
      have hmem := List.mem_of_getElem? hp
      refine (firstFrom_eq_some_iff hs).mpr ⟨hmem, ?_, ⟨p, hmem, rfl⟩, fun q hq hle => ?_⟩
      · exact Nat.le_of_not_lt fun hlt => Nat.lt_irrefl _ ((hsearch _).mpr ⟨p, hp, hlt⟩)
      · obtain ⟨n, hn⟩ := hindex q hq
        refine addr_le_addr hs (Nat.le_of_not_lt fun hlt => ?_) hp hn
        obtain ⟨_, hq', hbelow⟩ := (hsearch n).mp hlt
        rw [← Option.some.inj (hn.symm.trans hq')] at hbelow
        exact Nat.not_lt.mpr hle hbelow

end

/-! ## Targets -/

/-- The targets that a script keeps are those of its jumps. -/
theorem mem_targets (h : ofLines lines = .ok s) (t : Nat) :
    t ∈ s.targets ↔ ∃ p ∈ s.instructions, p.2.action.target? = some t := by
  obtain ⟨d, hd, hf⟩ := ofLines_eq_ok h
  obtain ⟨labels, _, rfl⟩ := Draft.finish_eq_ok hf
  refine (Draft.mem_targets_iff hd t).trans ?_
  rw [Draft.goals, (Draft.tally_perm_instructions _ d).mem_iff]
  simp only [List.mem_flatMap, Option.mem_toList]
  rfl

theorem mem_landings {id : Nat} :
    s.landings.contains id = true ↔ id ∈ s.live ∧ ∃ t ∈ s.targets, s.resolve t = some id := by
  rw [landings, List.contains_iff_mem, List.mem_filterMap]
  refine (and_iff_right_of_imp ?_).symm
  rintro ⟨t, _, ht⟩
  obtain ⟨p, hp, rfl⟩ := Option.map_eq_some_iff.mp ht
  exact (mem_instructions.mp (List.mem_of_find?_eq_some hp)).1

end Script

namespace Draft

variable {d : Draft} {s : Script} {lines : List String}

/-! ## Labels -/

/-- The labels of a draft are those of its lines, each with the address behind its line. -/
structure Labelled (lines : List String) (d : Draft) : Prop where
  mem : ∀ e, e ∈ d.labels.entries ↔ ∃ (l : Nat) (line : String), lines[l]? = some line ∧ Labels line e.1 ∧ e.2 = l + 1
  read : ∀ line ∈ lines, (codeWords line).head? = some "LABEL" → ∃ label, Labels line label

theorem getElem?_concat_eq_some {line line' : String} {l : Nat} :
    (lines ++ [line])[l]? = some line' ↔ lines[l]? = some line' ∨ l = lines.length ∧ line = line' := by
  rcases Nat.lt_trichotomy l lines.length with hlt | rfl | hgt
  · rw [List.getElem?_append_left hlt, or_iff_left fun h => Nat.ne_of_lt hlt h.1]
  · simp
  · rw [List.getElem?_eq_none (by rw [List.length_append]; exact hgt), List.getElem?_eq_none (Nat.le_of_lt hgt)]
    simp [Nat.ne_of_gt hgt]

theorem labelled_of_run (h : ({} : Draft).run lines = .ok d) : d.Labelled lines := by
  refine step_induction (motive := fun lines d => Labelled lines d) ?_ ?_ h
  · exact ⟨fun e => by simp [Table.empty], fun line hl => absurd hl List.not_mem_nil⟩
  · intro lines d line c d' _ hoffset ih hr hs
    refine ⟨fun e => (mem_labels_step hr hs e).trans ?_, fun l hl => ?_⟩
    · rw [ih.mem, hoffset]
      constructor
      · rintro (⟨hhead, rfl⟩ | ⟨l, line', hl, hlabel, he⟩)
        · exact ⟨lines.length, line, List.getElem?_concat_length, (Command.labels_iff hr).mpr ⟨hhead, rfl⟩, rfl⟩
        · exact ⟨l, line', getElem?_concat_eq_some.mpr (Or.inl hl), hlabel, he⟩
      · rintro ⟨l, line', hl, hlabel, he⟩
        rcases getElem?_concat_eq_some.mp hl with hl | ⟨rfl, rfl⟩
        · exact Or.inr ⟨l, line', hl, hlabel, he⟩
        · obtain ⟨hhead, hid⟩ := (Command.labels_iff hr).mp hlabel
          exact Or.inl ⟨hhead, Prod.ext hid he⟩
    · rcases List.mem_append.mp hl with hl | hl
      · exact ih.read l hl
      · obtain rfl := List.mem_singleton.mp hl
        exact fun hhead => ⟨_, (Command.labels_iff hr).mpr ⟨hhead, rfl⟩⟩

/-- No two lines define the same label. -/
theorem Labelled.once (h : d.Labelled lines) {l l' label : Nat} {line line' : String} (hl : lines[l]? = some line)
    (hlabel : Labels line label) (hl' : lines[l']? = some line') (hlabel' : Labels line' label) : l' = l := by
  have he := Table.eq_of_mem_entries ((h.mem (label, l' + 1)).mpr ⟨l', line', hl', hlabel', rfl⟩)
    ((h.mem (label, l + 1)).mpr ⟨l, line, hl, hlabel, rfl⟩) rfl
  exact Nat.succ.inj (congrArg Prod.snd he)

theorem mem_resolveLabels {l labels : List (Nat × Nat)} (h : resolveLabels s l = .ok labels) (label found : Nat) :
    (label, found) ∈ labels ↔ ∃ addr, (label, addr) ∈ l ∧ s.resolveAddr addr = some found := by
  induction l generalizing labels with
  | nil =>
      cases h
      simp
  | cons e l ih =>
      obtain ⟨first, addr⟩ := e
      rw [resolveLabels] at h
      split at h
      · cases h
      · rename_i hfound
        obtain ⟨rest, hrest, rfl⟩ := map_eq_ok h
        simp only [List.mem_cons, Prod.mk.injEq, ih hrest]
        constructor
        · rintro (⟨rfl, rfl⟩ | ⟨a, ha, hr⟩)
          · exact ⟨addr, Or.inl ⟨rfl, rfl⟩, hfound⟩
          · exact ⟨a, Or.inr ha, hr⟩
        · rintro ⟨a, ⟨rfl, rfl⟩ | ha, hr⟩
          · exact Or.inl ⟨rfl, Option.some.inj (hr.symm.trans hfound)⟩
          · exact Or.inr ⟨a, ha, hr⟩

theorem map_fst_resolveLabels {l labels : List (Nat × Nat)} (h : resolveLabels s l = .ok labels) :
    labels.map (·.1) = l.map (·.1) := by
  induction l generalizing labels with
  | nil => cases h; rfl
  | cons e l ih =>
      rw [resolveLabels] at h
      split at h
      · cases h
      · obtain ⟨rest, hrest, rfl⟩ := map_eq_ok h
        rw [List.map_cons, List.map_cons, ih hrest]

end Draft

namespace Script

variable {s : Script} {lines : List String}

theorem ofLines_live (h : ofLines lines = .ok s) : s.instructions.map (·.1) = s.live := by
  obtain ⟨d, hd, hf⟩ := ofLines_eq_ok h
  obtain ⟨labels, _, rfl⟩ := Draft.finish_eq_ok hf
  exact Draft.map_fst_instructions (Draft.run_wellFormed hd)

theorem mem_labels (h : ofLines lines = .ok s) (label addr : Nat) :
    (label, addr) ∈ s.labels ↔
      ∃ (l : Nat) (line : String), lines[l]? = some line ∧ Labels line label ∧ s.Nearest (l + 1) addr := by
  have hs := ofLines_sorted h
  obtain ⟨d, hd, hf⟩ := ofLines_eq_ok h
  obtain ⟨labels, hlabels, rfl⟩ := Draft.finish_eq_ok hf
  show (label, addr) ∈ labels ↔ ∃ (l : Nat) (line : String), _ ∧ _ ∧ d.script.Nearest (l + 1) addr
  simp only [Draft.mem_resolveLabels hlabels, (Draft.labelled_of_run hd).mem, resolveAddr_eq_some (s := d.script) hs]
  constructor
  · rintro ⟨_, ⟨l, line, hline, hlabel, rfl⟩, hn⟩
    exact ⟨l, line, hline, hlabel, hn⟩
  · rintro ⟨l, line, hline, hlabel, hn⟩
    exact ⟨_, ⟨l, line, hline, hlabel, rfl⟩, hn⟩

/-- A line that defines a label has its own entry. -/
theorem exists_label (h : ofLines lines = .ok s) {l : Nat} {line : String} (hline : lines[l]? = some line)
    (hhead : (wordsOf line).head? = some "LABEL") :
    ∃ label, Labels line label ∧ (∃ addr, (label, addr) ∈ s.labels) ∧
      ∀ (l' : Nat) (line' : String), lines[l']? = some line' → Labels line' label → l' = l := by
  obtain ⟨d, hd, hf⟩ := ofLines_eq_ok h
  obtain ⟨labels, hlabels, rfl⟩ := Draft.finish_eq_ok hf
  have hlines := Draft.labelled_of_run hd
  have hwords := Command.codeWords_of_head hhead (by decide)
  obtain ⟨label, hlab⟩ := hlines.read line (List.mem_of_getElem? hline) (hwords ▸ hhead)
  have hentry := (hlines.mem (label, l + 1)).mpr ⟨l, line, hline, hlab, rfl⟩
  obtain ⟨addr, haddr⟩ := Option.ne_none_iff_exists'.mp (Draft.resolveLabels_eq_ok.mp ⟨labels, hlabels⟩ _ hentry)
  exact ⟨label, hlab, ⟨addr, (Draft.mem_resolveLabels hlabels label addr).mpr ⟨_, hentry, haddr⟩⟩,
    fun _ _ hl' => hlines.once hline hlab hl'⟩

theorem labels_sorted (h : ofLines lines = .ok s) : s.labels.Pairwise fun a b => a.1 < b.1 := by
  obtain ⟨d, _, hf⟩ := ofLines_eq_ok h
  obtain ⟨labels, hlabels, rfl⟩ := Draft.finish_eq_ok hf
  have hkeys := List.pairwise_map.mpr (Draft.labels_entries_sorted d)
  rw [← Draft.map_fst_resolveLabels hlabels] at hkeys
  exact List.pairwise_map.mp hkeys

/-! ## Resolution -/

/-- What addresses, jumps and labels of a disassembly come to in its script. -/
structure Resolved (lines : List String) (s : Script) : Prop where
  live : s.instructions.map (·.1) = s.live
  sorted : s.instructions.Pairwise fun p q => p.1 < q.1 ∧ p.2.addr < q.2.addr
  /-- An address stands for the first live instruction that is not before it. -/
  first : ∀ addr id, s.resolve addr = some id ↔ ∃ i, (id, i) ∈ s.instructions ∧ s.Nearest addr i.addr
  past : ∀ addr, s.resolve addr = none ↔ ∀ p ∈ s.instructions, p.2.addr < addr
  searched : ∀ addr, s.resolve addr = s.live[s.search addr]?
  mono : ∀ a b id, a ≤ b → s.resolve b = some id → ∃ id', s.resolve a = some id' ∧ id' ≤ id
  targets : ∀ t, t ∈ s.targets ↔ ∃ p ∈ s.instructions, p.2.action.target? = some t
  landings : ∀ id, s.landings.contains id = true ↔ id ∈ s.live ∧ ∃ t ∈ s.targets, s.resolve t = some id
  /-- A label stands for the first live instruction behind its line. -/
  labels : ∀ label addr, (label, addr) ∈ s.labels ↔
    ∃ (l : Nat) (line : String), lines[l]? = some line ∧ Labels line label ∧ s.Nearest (l + 1) addr
  /-- Every line that defines a label has its own entry. -/
  entries : ∀ (l : Nat) (line : String), lines[l]? = some line → (wordsOf line).head? = some "LABEL" →
    ∃ label, Labels line label ∧ (∃ addr, (label, addr) ∈ s.labels) ∧
      ∀ (l' : Nat) (line' : String), lines[l']? = some line' → Labels line' label → l' = l
  labels_sorted : s.labels.Pairwise fun a b => a.1 < b.1

/-- In the script of a disassembly addresses stand for the nearest live instructions that are not before them. -/
theorem ofLines_resolved (h : ofLines lines = .ok s) : s.Resolved lines := by
  have hs := ofLines_sorted h
  have hl := ofLines_live h
  exact {
    live := hl
    sorted := hs
    first := fun addr id => resolve_eq_some hs
    past := fun addr => Option.map_eq_none_iff.trans firstFrom_eq_none
    searched := resolve_eq_search hs hl
    mono := fun a b id => resolve_mono hs
    targets := mem_targets h
    landings := fun id => mem_landings
    labels := mem_labels h
    entries := fun l line => exists_label h
    labels_sorted := labels_sorted h }

theorem ofLines_resolved_folded :
    ∃ s, ofLines ["PUSH 1", "PUSH 2", "ADD", "IFNOTGO 1", "LABEL 7", "PUSH 3", "JUMP 40"] = .ok s ∧
      s.Resolved ["PUSH 1", "PUSH 2", "ADD", "IFNOTGO 1", "LABEL 7", "PUSH 3", "JUMP 40"] ∧
      s.labels = [(7, 5)] ∧ s.targets = [0x1, 0x40] ∧ s.landings = [3] := by
  obtain ⟨s, hs, hview⟩ : ∃ s, ofLines
      ["PUSH 1", "PUSH 2", "ADD", "IFNOTGO 1", "LABEL 7", "PUSH 3", "JUMP 40"] = .ok s ∧
        (s.labels, s.targets, s.landings) = ([(7, 5)], [0x1, 0x40], [3]) := exists_ok (by decide +kernel)
  obtain ⟨hlabels, hview⟩ := Prod.mk.inj hview
  exact ⟨s, hs, ofLines_resolved hs, hlabels, Prod.mk.inj hview⟩

end Script

end Unstack
