import Unstack.Proofs.Pseudocode.Naming
import Unstack.Proofs.Pseudocode.Texts
import Unstack.Proofs.Script.Acceptance

/-!
# The call at the end

Values that are pushed right before a call at the end of a disassembly are the last instructions of the script, in
front of the call. No slot behind them makes another call, so each of them shows under the name of its parameter
(`forall₂_literals`).
-/

namespace Unstack

open Command (Pushes Calls)

variable {d d' : Draft} {s : Script} {reg : Registry} {name : String} {sig : Signature}

namespace Draft

/-! ## What the lines at the end emit -/

/-- The instructions that assign these values, the first one of them under this number and at this address. -/
def literals (id addr : Nat) : List Int → List (Nat × Instr)
  | [] => []
  | v :: values => (id, ⟨addr, .assign (.literal v)⟩) :: literals (id + 1) (addr + 1) values

theorem instructions_emit (h : d.WellFormed) (action : Action) :
    (d.emit action).script.instructions = d.script.instructions ++ [(d.emitted.size, ⟨d.offset, action⟩)] := by
  have hold : d.live.reverse.filterMap (fun id => (d.emit action).script.emitted[id]?.map fun i => (id, i)) =
      d.script.instructions := by
    refine List.filterMap_congr fun id hid => congrArg _ ?_
    exact getElem?_emit_of_lt (h.live_lt id (List.mem_reverse.mp hid))
  have hnew : (d.emit action).script.emitted[d.emitted.size]? = some ⟨d.offset, action⟩ := getElem?_emit_size d action
  show (d.emitted.size :: d.live).reverse.filterMap _ = _
  rw [List.reverse_cons, List.filterMap_append, hold, List.filterMap_cons, hnew]
  rfl

theorem instructions_push (h : d.WellFormed) (value : Expr) :
    (d.push value).script.instructions = d.script.instructions ++ [(d.emitted.size, ⟨d.offset, .assign value⟩)] :=
  instructions_emit h (.assign value)

/-- The draft has these values more, and no label. -/
structure Extended (d : Draft) (values : List Int) (d' : Draft) : Prop where
  wellFormed : d'.WellFormed
  offset : d'.offset = d.offset + values.length
  labels : d'.labels = d.labels
  instructions : d'.script.instructions = d.script.instructions ++ literals d.emitted.size d.offset values

theorem run_literals {lines : List String} {values : List Int} (hp : List.Forall₂ Pushes lines values)
    (h : d.WellFormed) : ∃ d', d.run lines = .ok d' ∧ d.Extended values d' := by
  induction hp generalizing d with
  | nil => exact ⟨d, rfl, h, rfl, rfl, by simp [literals]⟩
  | @cons line v lines values hline _ ih =>
      have hstep : d.stepLine line = .ok (d.push (.literal v)).advance := stepLine_of_step hline.ofLine .push
      have hpush : (d.push (.literal v)).advance.WellFormed := h.push (by simp [Expr.calls])
      obtain ⟨d', hr, he⟩ := ih hpush
      refine ⟨d', ?_, he.wellFormed, ?_, he.labels, ?_⟩
      · simp only [run, hstep]
        exact hr
      · rw [he.offset, List.length_cons]
        simp only [push, emit, advance]
        omega
      · have hnext : (d.push (.literal v)).advance.script.instructions =
            d.script.instructions ++ [(d.emitted.size, ⟨d.offset, .assign (.literal v)⟩)] :=
          instructions_push h (.literal v)
        rw [he.instructions, hnext, List.append_assoc]
        simp [literals, push, emit, advance]

/-- No label stands for an address past the next line. -/
theorem label_le_offset {lines : List String} (h : ({} : Draft).run lines = .ok d) :
    ∀ l ∈ d.labels.entries, l.2 ≤ d.offset := by
  refine run_induction (motive := fun _ d => ∀ l ∈ d.labels.entries, l.2 ≤ d.offset) ?_ ?_ h
  · exact fun l hl => absurd hl List.not_mem_nil
  · intro lines d line d' ih hl
    obtain ⟨c, d₁, hr, hs, rfl⟩ := stepLine_eq_ok hl
    intro l hl
    show l.2 ≤ d₁.offset + 1
    rw [hs.offset_eq]
    rcases (mem_labels_step hr hs l).mp hl with ⟨_, rfl⟩ | hl
    · exact Nat.le_refl _
    · exact Nat.le_succ_of_le (ih l hl)

/-- Labels are resolved if an instruction follows the last one of them. -/
theorem finish_of_le {p : Nat × Instr} (hp : p ∈ d.script.instructions)
    (hl : ∀ l ∈ d.labels.entries, l.2 ≤ p.2.addr) : ∃ s, d.finish = .ok s := by
  obtain ⟨labels, hlabels⟩ := resolveLabels_eq_ok.mpr fun l hmem => by
    rw [Script.resolveAddr, ne_eq, Option.map_eq_none_iff, Script.firstFrom_eq_none]
    exact fun hall => Nat.not_lt.mpr (hl l hmem) (hall p hp)
  exact ⟨{ d.script with labels }, by simp only [finish, hlabels, Except.map]⟩

end Draft

namespace Script

/-- A call behind its values at the end of a disassembly: its script ends in what these lines emit. -/
theorem ofLines_call {front pushes : List String} {call : String} {values : List Int}
    (hd : ({} : Draft).run front = .ok d) (hp : List.Forall₂ Pushes pushes values) (hc : Calls call name) :
    ∃ s id, ofLines (front ++ pushes ++ [call]) = .ok s ∧
      s.instructions = d.script.instructions ++ Draft.literals d.emitted.size d.offset values ++
        [(id, ⟨d.offset + values.length, .call name⟩)] := by
  obtain ⟨d₁, hr, he⟩ := Draft.run_literals hp (Draft.run_wellFormed hd)
  have hinstr := Draft.instructions_emit he.wellFormed (.call name)
  have hrun : ({} : Draft).run (front ++ pushes ++ [call]) = .ok (d₁.emit (.call name)).advance := by
    refine Draft.run_concat ?_ (Draft.stepLine_of_step hc.ofLine .call)
    rw [Draft.run_append, hd]
    exact hr
  have hlast : (d₁.emitted.size, ⟨d₁.offset, .call name⟩) ∈ (d₁.emit (.call name)).advance.script.instructions := by
    show _ ∈ (d₁.emit (.call name)).script.instructions
    rw [hinstr]
    simp
  obtain ⟨s, hs⟩ := Draft.finish_of_le hlast fun l hl => by
    have hl : l ∈ d.labels.entries := he.labels ▸ hl
    have hle := Draft.label_le_offset hd l hl
    show l.2 ≤ d₁.offset
    rw [he.offset]
    omega
  have hlines : ofLines (front ++ pushes ++ [call]) = .ok s := by
    rw [ofLines, hrun]
    exact hs
  refine ⟨s, d₁.emitted.size, hlines, ?_⟩
  obtain ⟨labels, _, rfl⟩ := Draft.finish_eq_ok hs
  refine hinstr.trans ?_
  rw [he.instructions, he.offset]

/-! ## The names of the values -/

theorem slots_append {l : List (Nat × Instr)} {id addr : Nat} {values : List Int} {p : Nat × Instr}
    (h : s.instructions = l ++ Draft.literals id addr values ++ [p]) (hp : p.2.action.isUnknown = false) :
    ∃ before, s.slots = before ++ (Draft.literals id addr values).map (fun q => ⟨q.1, q.2⟩) ++ [⟨p.1, p.2⟩] := by
  have hknown : (Draft.literals id addr values).filter (fun q => !q.2.action.isUnknown) =
      Draft.literals id addr values := by
    clear h
    induction values generalizing id addr with
    | nil => rfl
    | cons v values ih =>
        rw [Draft.literals, List.filter_cons_of_pos (by rfl), ih]
  refine ⟨(l.filter fun q => !q.2.action.isUnknown).map fun q => ⟨q.1, q.2⟩, ?_⟩
  rw [slots, h, List.filter_append, List.filter_append, hknown]
  simp [hp]

theorem namesGiven_literals {id addr : Nat} (values : List Int) (distance : Nat) (rest : List Slot) :
    Binding.namesGiven s reg distance ((Draft.literals id addr values).map (fun q => ⟨q.1, q.2⟩) ++ rest) =
      Binding.namesGiven s reg (distance + values.length) rest := by
  induction values generalizing id addr distance with
  | nil => rfl
  | cons v values ih =>
      have hcalls : Binding.knownCalls s reg ⟨id, ⟨addr, .assign (.literal v)⟩⟩ = [] := rfl
      simp only [Draft.literals, List.map_cons, List.cons_append, Binding.namesGiven, hcalls, List.flatMap_nil,
        List.nil_append, ih, List.length_cons]
      congr 1
      omega

/-- What a value with the name of a parameter shows. -/
def assignText (p : Param) (v : Int) : String :=
  p.name ++ " := " ++ Hex.signed v

/-- The values in front of the last call show under the names of its parameters, the first of which stand in `rest`
for the values behind them. -/
theorem forall₂_literals {before : List Slot} {c : Slot} {id addr : Nat} {values : List Int} {params rest : List Param}
    {bs : List Block}
    (hslots : s.slots = before ++ (Draft.literals id addr values).map (fun q => ⟨q.1, q.2⟩) ++ [c])
    (hid : (s.slots.map (·.id)).Nodup) (hcalls : Binding.knownCalls s reg c = [(name, sig)])
    (hparams : sig.params = params.reverse ++ rest) (hlen : params.length = values.length)
    (hb : List.Forall₂ (s.Shows reg) (Draft.literals id addr values) bs) :
    List.Forall₂ Indents (List.zipWith assignText params values) (bs.filterMap Block.line?) := by
  -- a value that is done goes to `before`, and its parameter, the last one that is left, to `rest`
  induction values generalizing before id addr params rest bs with
  | nil =>
      cases hb
      rw [List.zipWith_nil_right]
      exact .nil
  | cons v values ih =>
      obtain ⟨p, params, rfl⟩ := List.exists_cons_of_length_eq_add_one hlen
      rw [List.length_cons, List.length_cons, Nat.add_right_cancel_iff] at hlen
      cases hb with
      | @cons _ b _ bs hshows hb =>
          have hsplit : s.slots = before ++ ⟨id, ⟨addr, .assign (.literal v)⟩⟩ ::
              ((Draft.literals (id + 1) (addr + 1) values).map (fun q => ⟨q.1, q.2⟩) ++ [c]) := by
            rw [hslots]
            simp [Draft.literals]
          have hparam : sig.params[values.length]? = some p := by
            rw [hparams, List.reverse_cons, List.append_assoc, List.getElem?_append_right (by simp [hlen])]
            simp [hlen]
          have hname : (s.bindings reg).get? id = some p.name := by
            refine (bindings_get? hsplit hid rfl).trans ?_
            rw [namesGiven_literals, Nat.zero_add, Binding.namesGiven, hcalls]
            simp [hparam, Binding.namesGiven]
          obtain ⟨slot, hphrase⟩ := hshows.phrase
          obtain ⟨line, hline, hindents⟩ := line?_of_phrase hphrase
          have htext : Phrase.line ⟨p.name ++ " := " ++ Hex.signed v, none⟩ = assignText p v := by
            simp [Phrase.line, assignText]
          rw [hname] at hindents
          rw [List.zipWith_cons_cons, List.filterMap_cons_some hline]
          have hslots' : s.slots = (before ++ [⟨id, ⟨addr, .assign (.literal v)⟩⟩]) ++
              (Draft.literals (id + 1) (addr + 1) values).map (fun q => ⟨q.1, q.2⟩) ++ [c] := by
            rw [hsplit]
            simp
          have hparams' : sig.params = params.reverse ++ p :: rest := by
            rw [hparams]
            simp
          exact .cons (htext ▸ hindents) (ih hslots' hparams' hlen hb)

theorem forall₂_append_left {α β : Type} {R : α → β → Prop} {l₁ l₂ : List α} {l : List β}
    (h : List.Forall₂ R (l₁ ++ l₂) l) :
    ∃ m₁ m₂, l = m₁ ++ m₂ ∧ List.Forall₂ R l₁ m₁ ∧ List.Forall₂ R l₂ m₂ := by
  induction l₁ generalizing l with
  | nil => exact ⟨[], l, rfl, .nil, h⟩
  | cons a l₁ ih =>
      cases h with
      | cons hab h =>
          obtain ⟨m₁, m₂, rfl, h₁, h₂⟩ := ih h
          exact ⟨_ :: m₁, m₂, rfl, .cons hab h₁, h₂⟩

/-- Pseudocode that ends in a call behind its values names these by its parameters. -/
theorem exists_lines_call {lines : List String} {l : List (Nat × Instr)} {c id addr callAddr : Nat} {values : List Int}
    (h : ofLines lines = .ok s)
    (hinstr : s.instructions = l ++ Draft.literals id addr values.reverse ++ [(c, ⟨callAddr, .call name⟩)])
    (hsig : reg.lookup name = some sig) (hlen : values.length = sig.params.length) :
    ∃ before last, (s.pseudocode reg).filter (¬ IsMarker ·) = before ++ last ∧
      List.Forall₂ Indents ((List.zipWith assignText sig.params values).reverse ++ [callText reg name]) last := by
  have hcallee : s.callee? c = some name := by
    have hmem : (c, ⟨callAddr, .call name⟩) ∈ s.instructions := by simp [hinstr]
    simp only [callee?, (mem_instructions.mp hmem).2, Option.map_some]
  have hcalls : Binding.knownCalls s reg ⟨c, ⟨callAddr, .call name⟩⟩ = [(name, sig)] := by
    simp [Binding.knownCalls, Slot.calls, hcallee, hsig]
  obtain ⟨before, hslots⟩ := slots_append hinstr rfl
  have hshows := s.forall₂_shows reg
  rw [hinstr] at hshows
  obtain ⟨bs, bs', hblocks, hshows, hlast⟩ := forall₂_append_left hshows
  obtain ⟨front, bs, rfl, _, hvalues⟩ := forall₂_append_left hshows
  obtain ⟨b, _, hb, hnil, rfl⟩ := List.forall₂_cons_left_iff.mp hlast
  obtain rfl := List.forall₂_nil_left_iff.mp hnil
  obtain ⟨slot, hphrase⟩ := hb.phrase
  obtain ⟨line, hline, hindents⟩ := line?_of_phrase hphrase
  have htext : Phrase.line ⟨callText reg name, none⟩ = callText reg name := by simp [Phrase.line]
  have hparams : sig.params = sig.params.reverse.reverse ++ [] := by simp
  have hnamed := forall₂_literals hslots (nodup_slots (ofLines_sorted h)) hcalls hparams (by simp [hlen]) hvalues
  refine ⟨front.filterMap Block.line?, bs.filterMap Block.line? ++ [line], ?_, ?_⟩
  · rw [filter_isMarker_pseudocode, hblocks, List.filterMap_append, List.filterMap_append,
      List.filterMap_cons_some hline, List.filterMap_nil, List.append_assoc]
  · rw [List.reverse_zipWith hlen.symm]
    exact List.rel_append hnamed (.cons (htext ▸ hindents) .nil)

end Script

end Unstack
