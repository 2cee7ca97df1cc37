import Unstack.Proofs.Draft.Counting
import Unstack.Proofs.Script.Live

/-!
# Which disassemblies become a script

A disassembly becomes a script if each of its lines passes the checks of its operands and of the counts of the lines
before it, and if an instruction follows the last label. Otherwise the error is that of the first line that fails,
or else that of the least label that no instruction follows (`ofLines_judged`). Lifting does not see the registry.
-/

namespace Unstack

open Command (codeWords)

variable {d : Draft} {s : Script} {k : Counts}

/-! ## Judging lines by their counts -/

namespace Counts

/-- The fault of a line after the lines counted. -/
def fault? (k : Counts) (line : String) : Option Fault :=
  firstFault (Command.checks (codeWords line) ++ k.checks (codeWords line))

def ofLines (lines : List String) : Counts :=
  lines.foldl (fun k line => k.next (codeWords line)) {}

/-- Every line that emits an instruction comes before this address. -/
def Past (k : Counts) (addr : Nat) : Prop :=
  ∀ n, k.lastEmit = some n → n < addr

/-- A line after the last label emits an instruction, if there is a label. -/
def Settled (k : Counts) : Prop :=
  ∀ label addr, k.labels.head? = some (label, addr) → ∃ n, k.lastEmit = some n ∧ addr ≤ n

/-- The error is that of the least label that no instruction follows. -/
def Unresolved (k : Counts) (e : Error) : Prop :=
  ∃ label addr, (label, addr) ∈ k.labels ∧ k.Past addr ∧ (∀ l ∈ k.labels, k.Past l.2 → label ≤ l.1) ∧
    e = ⟨addr, .unresolvedLabel label addr⟩

theorem ofLines_append (lines : List String) (line : String) :
    ofLines (lines ++ [line]) = (ofLines lines).next (codeWords line) := by
  rw [ofLines, List.foldl_append]
  rfl

theorem lines_ofLines (lines : List String) : (ofLines lines).lines = lines.length := by
  induction lines using List.reverseRecOn with
  | nil => rfl
  | append_singleton lines line ih =>
      rw [ofLines_append, List.length_append, ← ih]
      rfl

/-- Later labels have greater addresses, and no address is past the lines. -/
theorem labels_sorted (lines : List String) :
    (ofLines lines).labels.Pairwise (fun l r => r.2 ≤ l.2) ∧
      ∀ l ∈ (ofLines lines).labels, l.2 ≤ (ofLines lines).lines := by
  induction lines using List.reverseRecOn with
  | nil => exact ⟨.nil, fun l hl => absurd hl List.not_mem_nil⟩
  | append_singleton lines line ih =>
      obtain ⟨hs, hle⟩ := ih
      have hle : ∀ l ∈ (ofLines lines).labels, l.2 ≤ (ofLines lines).lines + 1 :=
        fun l hl => Nat.le_succ_of_le (hle l hl)
      rw [ofLines_append]
      by_cases hlabel : (codeWords line).head? = some "LABEL"
      · simp only [next, hlabel, ↓reduceIte]
        refine ⟨List.pairwise_cons.mpr ⟨hle, hs⟩, fun l hl => ?_⟩
        rcases List.mem_cons.mp hl with rfl | hl
        · exact Nat.le_refl _
        · exact hle l hl
      · simp only [next, hlabel, ↓reduceIte]
        exact ⟨hs, hle⟩

theorem not_past {addr : Nat} : ¬ k.Past addr ↔ ∃ n, k.lastEmit = some n ∧ addr ≤ n := by
  simp only [Past, not_forall, Nat.not_lt, exists_prop]

/-- What follows the last label follows all of them. -/
theorem settled_iff (lines : List String) :
    (ofLines lines).Settled ↔ ∀ l ∈ (ofLines lines).labels, ¬ (ofLines lines).Past l.2 := by
  have hs := (labels_sorted lines).1
  rw [Settled]
  cases hl : (ofLines lines).labels with
  | nil => simp
  | cons last labels =>
      rw [hl] at hs
      constructor
      · intro h l hmem
        obtain ⟨n, hn, hle⟩ := h last.1 last.2 rfl
        have hlast : l.2 ≤ last.2 := by
          rcases List.mem_cons.mp hmem with rfl | hmem
          · exact Nat.le_refl _
          · exact (List.pairwise_cons.mp hs).1 l hmem
        exact not_past.mpr ⟨n, hn, Nat.le_trans hlast hle⟩
      · rintro h label addr he
        cases he
        exact not_past.mp (h _ List.mem_cons_self)

end Counts

def Passes (lines : List String) : Prop :=
  ∀ before line after, lines = before ++ line :: after → (Counts.ofLines before).fault? line = none

/-- The error is that of the first line that fails a check, which is counted from one. -/
def Fails (lines : List String) (e : Error) : Prop :=
  ∃ before line after fault, lines = before ++ line :: after ∧ Passes before ∧
    (Counts.ofLines before).fault? line = some fault ∧ e = ⟨before.length + 1, fault⟩

theorem Passes.nil : Passes [] := by
  intro before line after h
  simp at h

theorem passes_append {lines : List String} {line : String} :
    Passes (lines ++ [line]) ↔ Passes lines ∧ (Counts.ofLines lines).fault? line = none := by
  constructor
  · intro h
    refine ⟨fun before l after he => h before l (after ++ [line]) ?_, h lines line [] rfl⟩
    rw [he, List.append_assoc, List.cons_append]
  · rintro ⟨h, hl⟩ before l after he
    rcases List.eq_nil_or_concat after with rfl | ⟨after, last, rfl⟩
    · obtain ⟨rfl, hline⟩ := List.append_inj' he rfl
      cases hline
      exact hl
    · rw [List.concat_eq_append, ← List.cons_append, ← List.append_assoc] at he
      exact h before l after (List.append_inj' he rfl).1

theorem Fails.append {lines : List String} {e : Error} (h : Fails lines e) (line : String) :
    Fails (lines ++ [line]) e := by
  obtain ⟨before, l, after, fault, rfl, hp, hf, he⟩ := h
  exact ⟨before, l, after ++ [line], fault, by simp, hp, hf, he⟩

theorem passes_or_fails (lines : List String) : Passes lines ∨ ∃ e, Fails lines e := by
  induction lines using List.reverseRecOn with
  | nil => exact Or.inl .nil
  | append_singleton lines line ih =>
      rcases ih with hp | ⟨e, he⟩
      · cases hf : (Counts.ofLines lines).fault? line with
        | none => exact Or.inl (passes_append.mpr ⟨hp, hf⟩)
        | some fault => exact Or.inr ⟨_, lines, line, [], fault, rfl, hp, hf, rfl⟩
      · exact Or.inr ⟨e, he.append line⟩

/-! ## Runs -/

namespace Draft

variable {line : String}

theorem raised_line (hd : d.Counted k) (line : String) :
    raised ((Command.ofLine line).bind d.step) = k.fault? line :=
  raised_bind (Command.raised_ofLine line) fun _ hc => hd.raised_step (Command.reads_of_ofLine hc)

theorem stepLine_of_fault?_eq_none (hd : d.Counted k) (h : d.WellFormed) (hf : k.fault? line = none) :
    ∃ d', d.stepLine line = .ok d' ∧ d'.WellFormed ∧ d'.Counted (k.next (codeWords line)) := by
  rw [← raised_line hd, raised_eq_none] at hf
  obtain ⟨d', hs⟩ := hf
  have hl : d.stepLine line = .ok d'.advance := by simp only [stepLine, hs]
  obtain ⟨c, hc, hs⟩ := bind_eq_ok hs
  have hs := step_sound hs
  exact ⟨_, hl, h.step hs, hd.step h (Command.reads_of_ofLine hc) hs⟩

theorem stepLine_of_fault?_eq_some {fault : Fault} (hd : d.Counted k) (hf : k.fault? line = some fault) :
    d.stepLine line = .error ⟨k.lines + 1, fault⟩ := by
  rw [← raised_line hd, raised_eq_some] at hf
  simp only [stepLine, hf, Draft.line, hd.offset]

theorem Counted.init : ({} : Draft).Counted {} where
  pending := rfl
  calls := rfl
  labels _ := Iff.rfl
  lastEmit := rfl
  offset := rfl

theorem run_of_passes {lines : List String} (h : Passes lines) :
    ∃ d, ({} : Draft).run lines = .ok d ∧ d.WellFormed ∧ d.Counted (Counts.ofLines lines) := by
  induction lines using List.reverseRecOn with
  | nil => exact ⟨{}, rfl, .init, .init⟩
  | append_singleton lines line ih =>
      obtain ⟨hp, hf⟩ := passes_append.mp h
      obtain ⟨d, hd, hw, hc⟩ := ih hp
      obtain ⟨d', hl, hw, hc⟩ := stepLine_of_fault?_eq_none hc hw hf
      refine ⟨d', ?_, hw, Counts.ofLines_append lines line ▸ hc⟩
      rw [run_append, hd]
      exact (run_singleton d line).trans hl

theorem run_of_fails {lines : List String} {e : Error} (h : Fails lines e) :
    ({} : Draft).run lines = .error e := by
  obtain ⟨before, line, after, fault, rfl, hp, hf, rfl⟩ := h
  obtain ⟨d, hd, _, hc⟩ := run_of_passes hp
  have hl := stepLine_of_fault?_eq_some hc hf
  rw [Counts.lines_ofLines] at hl
  rw [run_append, hd]
  simp only [Except.bind, run, hl]

/-! ## Labels -/

/-- No instruction is left at an address or after it when every line that emits one comes before it. -/
theorem resolveAddr_eq_none (hd : d.Counted k) (h : d.WellFormed) (addr : Nat) :
    d.script.resolveAddr addr = none ↔ k.Past addr := by
  have hlast : ∀ n, k.lastEmit = some n ↔
      ∃ id, d.live.head? = some id ∧ ∃ i, d.emitted[id]? = some i ∧ i.addr = n := by
    intro n
    rw [← hd.lastEmit]
    simp [addrs, Option.bind_eq_some_iff]
  simp only [Script.resolveAddr, Script.firstFrom, Option.map_eq_none_iff, List.find?_eq_none,
    decide_eq_true_eq, Nat.not_le, Counts.Past, hlast]
  constructor
  · rintro hall n ⟨id, hid, i, hi, rfl⟩
    refine hall (id, i) (Script.mem_instructions.mpr ⟨?_, hi⟩)
    exact List.mem_reverse.mpr (List.mem_of_mem_head? hid)
  · intro hpast p hp
    obtain ⟨hlive, hi⟩ := Script.mem_instructions.mp hp
    have hlive := List.mem_reverse.mp hlive
    cases hl : d.live with
    | nil => rw [hl] at hlive; cases hlive
    | cons last rest =>
        -- no live instruction comes after the latest one, and that one comes before the address
        obtain ⟨i, hlast⟩ := instr_of_live h (hl ▸ List.mem_cons_self : last ∈ d.live)
        have hlt := hpast i.addr ⟨last, by rw [hl]; rfl, i, hlast, rfl⟩
        have hsorted := h.live_sorted
        rw [hl] at hlive hsorted
        rcases List.mem_cons.mp hlive with heq | hrest
        · rw [heq] at hi
          rw [← Option.some.inj (hlast.symm.trans hi)]
          exact hlt
        · exact Nat.lt_trans (addr_lt_addr h ((List.pairwise_cons.mp hsorted).1 _ hrest) hi hlast) hlt

theorem resolveLabels_eq_ok {l : List (Nat × Nat)} :
    (∃ labels, resolveLabels s l = .ok labels) ↔ ∀ e ∈ l, s.resolveAddr e.2 ≠ none := by
  induction l with
  | nil => simp [resolveLabels]
  | cons e l ih =>
      obtain ⟨label, addr⟩ := e
      simp only [resolveLabels, List.forall_mem_cons]
      cases s.resolveAddr addr with
      | none => simp
      | some found =>
          rw [← ih]
          cases resolveLabels s l <;> simp [Except.map]

theorem resolveLabels_eq_error {l : List (Nat × Nat)} {e : Error} (hs : l.Pairwise fun a b => a.1 < b.1) :
    resolveLabels s l = .error e ↔
      ∃ label addr, (label, addr) ∈ l ∧ s.resolveAddr addr = none ∧
        (∀ r ∈ l, s.resolveAddr r.2 = none → label ≤ r.1) ∧ e = ⟨addr, .unresolvedLabel label addr⟩ := by
  induction l with
  | nil => simp [resolveLabels]
  | cons r l ih =>
      obtain ⟨label, addr⟩ := r
      obtain ⟨hlt, hs⟩ := List.pairwise_cons.mp hs
      cases ha : s.resolveAddr addr with
      | none =>
          simp only [resolveLabels, ha]
          constructor
          · intro he
            cases he
            refine ⟨label, addr, List.mem_cons_self, ha, fun r hr _ => ?_, rfl⟩
            rcases List.mem_cons.mp hr with rfl | hr
            · exact Nat.le_refl _
            · exact Nat.le_of_lt (hlt r hr)
          · rintro ⟨least, at', hmem, _, hleast, rfl⟩
            -- a label that comes later in the list is greater than the first one
            have hle := hleast (label, addr) List.mem_cons_self ha
            rcases List.mem_cons.mp hmem with he | hmem
            · cases he
              rfl
            · exact absurd (hlt _ hmem) (Nat.not_lt.mpr hle)
      | some found =>
          have hmap : resolveLabels s ((label, addr) :: l) = .error e ↔ resolveLabels s l = .error e := by
            simp only [resolveLabels, ha]
            cases resolveLabels s l <;> simp [Except.map]
          rw [hmap, ih hs]
          constructor
          · rintro ⟨least, at', hmem, hn, hleast, he⟩
            refine ⟨least, at', List.mem_cons_of_mem _ hmem, hn, fun r hr hrn => ?_, he⟩
            rcases List.mem_cons.mp hr with rfl | hr
            · rw [ha] at hrn
              cases hrn
            · exact hleast r hr hrn
          · rintro ⟨least, at', hmem, hn, hleast, he⟩
            rcases List.mem_cons.mp hmem with heq | hmem
            · cases heq
              rw [ha] at hn
              cases hn
            · exact ⟨least, at', hmem, hn, fun r hr => hleast r (List.mem_cons_of_mem _ hr), he⟩

theorem labels_entries_sorted (d : Draft) : d.labels.entries.Pairwise fun a b => a.1 < b.1 :=
  d.labels.sorted.imp fun h => Nat.compare_eq_lt.mp h

theorem finish_isOk (hd : d.Counted k) (h : d.WellFormed) :
    (∃ s, d.finish = .ok s) ↔ ∀ l ∈ k.labels, ¬ k.Past l.2 := by
  have hok : (∃ s, d.finish = .ok s) ↔ ∃ labels, resolveLabels d.script d.labels.entries = .ok labels := by
    simp only [finish]
    cases resolveLabels d.script d.labels.entries <;> simp [Except.map]
  simp only [hok, resolveLabels_eq_ok, ne_eq, resolveAddr_eq_none hd h, hd.labels]

theorem finish_eq_error (hd : d.Counted k) (h : d.WellFormed) (e : Error) :
    d.finish = .error e ↔ k.Unresolved e := by
  have herror : d.finish = .error e ↔ resolveLabels d.script d.labels.entries = .error e := by
    simp only [finish]
    cases resolveLabels d.script d.labels.entries <;> simp [Except.map]
  simp only [herror, resolveLabels_eq_error (labels_entries_sorted d), resolveAddr_eq_none hd h, hd.labels,
    Counts.Unresolved]

end Draft

/-! ## Acceptance -/

namespace Script

/-- A disassembly becomes a script exactly if all its lines pass and its labels are settled; otherwise the error is
that of the first line that fails, or else that of the least label that no instruction follows. -/
theorem ofLines_judged (lines : List String) :
    ((∃ s, ofLines lines = .ok s) ↔ Passes lines ∧ (Counts.ofLines lines).Settled) ∧
      ∀ e, ofLines lines = .error e ↔
        Fails lines e ∨ (Passes lines ∧ (Counts.ofLines lines).Unresolved e) := by
  rcases passes_or_fails lines with hp | ⟨fault, hf⟩
  · obtain ⟨d, hd, hw, hc⟩ := Draft.run_of_passes hp
    have hfails : ∀ e, ¬ Fails lines e := by
      intro e he
      rw [Draft.run_of_fails he] at hd
      cases hd
    have hrun : ofLines lines = d.finish := by
      rw [ofLines, hd]
      rfl
    refine ⟨?_, fun e => ?_⟩
    · rw [hrun, Draft.finish_isOk hc hw, Counts.settled_iff, and_iff_right hp]
    · rw [hrun, Draft.finish_eq_error hc hw, and_iff_right hp, or_iff_right (hfails e)]
  · have hrun : ofLines lines = .error fault := by
      rw [ofLines, Draft.run_of_fails hf]
      rfl
    have hpasses : ¬ Passes lines := by
      intro hp
      obtain ⟨d, hd, _⟩ := Draft.run_of_passes hp
      rw [Draft.run_of_fails hf] at hd
      cases hd
    refine ⟨?_, fun e => ?_⟩
    · simp [hrun, hpasses]
    · simp only [hrun, hpasses, false_and, or_false, Except.error.injEq]
      constructor
      · rintro rfl
        exact hf
      · intro he
        have hrun := (Draft.run_of_fails hf).symm.trans (Draft.run_of_fails he)
        cases hrun
        rfl

example : (Counts.ofLines ["PUSH 1", "CALL f", "PUSHRC 0", "ADD"]).fault? "ADD" =
    some (.stackUnderflow "ADD" 2 1) := by decide +kernel

end Script

end Unstack
