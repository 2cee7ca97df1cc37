import Unstack.Proofs.Draft.Step

/-!
# The invariant of lifting

Drafts name instructions by number, and a command changes instructions in place, takes live ones away and
copies their values. `WellFormed` is what all of this keeps intact: numbers follow addresses, what is pending is
a live assignment, and a result refers to an earlier call that is no longer live. `run_wellFormed` says that every
draft that lines lead to has it.
-/

namespace Unstack.Draft

open Command (Reads codeWords)

variable {d d' : Draft}

/-- The number of a call whose result was taken. -/
def Taken (d : Draft) (id : Nat) : Prop :=
  d.IsCall id ∧ id ∉ d.live

/-- The invariant. Lists in a draft have the latest number first. -/
structure WellFormed (d : Draft) : Prop where
  /-- Addresses increase with the numbers of the instructions. -/
  addrs_sorted : d.addrs.Pairwise (· < ·)
  /-- Every address is that of a line before the next one. -/
  addrs_lt : ∀ a ∈ d.addrs, a < d.offset
  live_sorted : d.live.Pairwise (· > ·)
  live_lt : ∀ id ∈ d.live, id < d.emitted.size
  pending_sorted : d.pending.Pairwise (· > ·)
  pending_live : ∀ id ∈ d.pending, id ∈ d.live
  pending_assign : ∀ id ∈ d.pending, ∃ value, d.action? id = some (.assign value)
  /-- A result, wherever it stands, refers to an earlier call that is not live. -/
  result_taken : ∀ id e, d.expr? id = some e → ∀ c ∈ e.calls, c < id ∧ d.Taken c

theorem nodup_of_sorted {l : List Nat} (h : l.Pairwise (· > ·)) : l.Nodup :=
  h.imp Nat.ne_of_gt

theorem IsCall.lt_size {id : Nat} (h : d.IsCall id) : id < d.emitted.size :=
  lt_size_of_action? h.choose_spec

theorem IsCall.not_assign {id : Nat} {value : Expr} (h : d.IsCall id) :
    d.action? id ≠ some (.assign value) := by
  obtain ⟨name, hn⟩ := h
  rw [hn]
  simp

theorem IsCall.emit {id : Nat} (action : Action) (h : d.IsCall id) :
    (d.emit action).IsCall id := by
  obtain ⟨name, hn⟩ := h
  exact ⟨name, by rw [action?_emit_of_lt action (lt_size_of_action? hn), hn]⟩

theorem IsCall.applyUnary {id top : Nat} {value : Expr} {op : UnaryOp}
    (ht : d.action? top = some (.assign value)) (h : d.IsCall id) :
    (d.applyUnary op top).IsCall id := by
  have hne : id ≠ top := by
    rintro rfl
    exact h.not_assign ht
  obtain ⟨name, hn⟩ := h
  exact ⟨name, by rw [action?_applyUnary ht, if_neg hne, hn]⟩

theorem Taken.emit {id : Nat} (action : Action) (h : d.Taken id) : (d.emit action).Taken id := by
  refine ⟨h.1.emit action, fun hm => ?_⟩
  rcases List.mem_cons.mp hm with rfl | hm
  · exact Nat.lt_irrefl _ h.1.lt_size
  · exact h.2 hm

theorem Taken.consume {c : Nat} (id : Nat) (h : d.Taken c) : (d.consume id).Taken c :=
  ⟨h.1, fun hm => h.2 (List.mem_of_mem_erase hm)⟩

namespace WellFormed

theorem init : ({} : Draft).WellFormed where
  addrs_sorted := .nil
  addrs_lt := by simp [addrs]
  live_sorted := .nil
  live_lt := by simp
  pending_sorted := .nil
  pending_live := by simp
  pending_assign := by simp
  result_taken := by simp [expr?, action?]

/-- No two instructions have the same address. -/
theorem id_eq_of_addr {a : Nat} {id id' : Nat} (h : d.WellFormed) (hid : d.addrs[id]? = some a)
    (hid' : d.addrs[id']? = some a) : id = id' :=
  (List.getElem?_inj (List.getElem?_eq_some_iff.mp hid).1 (h.addrs_sorted.imp Nat.ne_of_lt)).mp (hid.trans hid'.symm)

theorem live_nodup (h : d.WellFormed) : d.live.Nodup :=
  nodup_of_sorted h.live_sorted

theorem pending_nodup (h : d.WellFormed) : d.pending.Nodup :=
  nodup_of_sorted h.pending_sorted

theorem action?_pending {id : Nat} (h : d.WellFormed) (hid : id ∈ d.pending) :
    d.action? id = some (.assign (d.valueOf id)) := by
  obtain ⟨value, hv⟩ := h.pending_assign id hid
  rw [valueOf_eq hv, hv]

theorem taken_of_mem_calls {id c : Nat} (h : d.WellFormed) (hid : id ∈ d.pending)
    (hc : c ∈ (d.valueOf id).calls) : d.Taken c := by
  have he : d.expr? id = some (d.valueOf id) := by
    rw [expr?, h.action?_pending hid]
    rfl
  exact (h.result_taken id _ he c hc).2

/-- A call is not pending, so taking it away is consuming it. -/
theorem absorb_eq_consume {id : Nat} (h : d.WellFormed) (hc : d.IsCall id) :
    d.absorb id = d.consume id := by
  have hp : id ∉ d.pending := by
    intro hp
    exact hc.not_assign (h.action?_pending hp)
  simp only [consume, List.erase_of_not_mem hp]
  rfl

/-! ## What keeps it -/

theorem advance (h : d.WellFormed) : d.advance.WellFormed where
  addrs_sorted := h.addrs_sorted
  addrs_lt a ha := Nat.lt_succ_of_lt (h.addrs_lt a ha)
  live_sorted := h.live_sorted
  live_lt := h.live_lt
  pending_sorted := h.pending_sorted
  pending_live := h.pending_live
  pending_assign := h.pending_assign
  result_taken := h.result_taken

theorem consume (id : Nat) (h : d.WellFormed) : (d.consume id).WellFormed where
  addrs_sorted := h.addrs_sorted
  addrs_lt := h.addrs_lt
  live_sorted := h.live_sorted.sublist List.erase_sublist
  live_lt i hi := h.live_lt i (List.mem_of_mem_erase hi)
  pending_sorted := h.pending_sorted.sublist List.erase_sublist
  pending_live i hi := by
    obtain ⟨hne, hi⟩ := h.pending_nodup.mem_erase_iff.mp hi
    exact h.live_nodup.mem_erase_iff.mpr ⟨hne, h.pending_live i hi⟩
  pending_assign i hi := h.pending_assign i (List.mem_of_mem_erase hi)
  result_taken i e he c hc :=
    ⟨(h.result_taken i e he c hc).1, (h.result_taken i e he c hc).2.consume id⟩

theorem drop (n : Nat) (h : d.WellFormed) :
    ({ d with pending := d.pending.drop n } : Draft).WellFormed where
  addrs_sorted := h.addrs_sorted
  addrs_lt := h.addrs_lt
  live_sorted := h.live_sorted
  live_lt := h.live_lt
  pending_sorted := h.pending_sorted.sublist (List.drop_sublist n _)
  pending_live i hi := h.pending_live i (List.mem_of_mem_drop hi)
  pending_assign i hi := h.pending_assign i (List.mem_of_mem_drop hi)
  result_taken := h.result_taken

/-- The new instruction has the address of the line, so the draft is well formed at the next line. -/
theorem emit {action : Action} (h : d.WellFormed)
    (ha : ∀ e, action.expr? = some e → ∀ c ∈ e.calls, d.Taken c) :
    (d.emit action).advance.WellFormed where
  addrs_sorted := by
    show (d.emit action).addrs.Pairwise (· < ·)
    rw [addrs_emit]
    refine List.pairwise_append.mpr ⟨h.addrs_sorted, List.pairwise_singleton _ _, ?_⟩
    intro a ha b hb
    rw [List.mem_singleton.mp hb]
    exact h.addrs_lt a ha
  addrs_lt := by
    show ∀ a ∈ (d.emit action).addrs, a < d.offset + 1
    intro a ha
    rw [addrs_emit, List.mem_append, List.mem_singleton] at ha
    rcases ha with ha | rfl
    · exact Nat.lt_succ_of_lt (h.addrs_lt a ha)
    · exact Nat.lt_succ_self _
  live_sorted := List.pairwise_cons.mpr ⟨h.live_lt, h.live_sorted⟩
  live_lt i hi := by
    show i < (d.emitted.push _).size
    rw [Array.size_push]
    rcases List.mem_cons.mp hi with rfl | hi
    · exact Nat.lt_succ_self _
    · exact Nat.lt_succ_of_lt (h.live_lt i hi)
  pending_sorted := h.pending_sorted
  pending_live i hi := List.mem_cons_of_mem _ (h.pending_live i hi)
  pending_assign i hi := by
    obtain ⟨value, hv⟩ := h.pending_assign i hi
    exact ⟨value, (action?_emit_of_lt action (lt_size_of_action? hv)).trans hv⟩
  result_taken i e he c hc := by
    change ((d.emit action).action? i).bind Action.expr? = some e at he
    rw [action?_emit] at he
    split at he
    · rename_i hi
      subst hi
      have ht := ha e he c hc
      exact ⟨ht.1.lt_size, ht.emit action⟩
    · obtain ⟨hlt, ht⟩ := h.result_taken i e he c hc
      exact ⟨hlt, ht.emit action⟩

theorem push {value : Expr} (h : d.WellFormed) (hv : ∀ c ∈ value.calls, d.Taken c) :
    (d.push value).advance.WellFormed :=
  have he : (d.emit (.assign value)).advance.WellFormed :=
    h.emit (by intro e he; cases he; exact hv)
  { addrs_sorted := he.addrs_sorted
    addrs_lt := he.addrs_lt
    live_sorted := he.live_sorted
    live_lt := he.live_lt
    pending_sorted := List.pairwise_cons.mpr
      ⟨fun i hi => h.live_lt i (h.pending_live i hi), h.pending_sorted⟩
    pending_live := by
      intro i hi
      rcases List.mem_cons.mp hi with rfl | hi
      · exact List.mem_cons_self
      · exact List.mem_cons_of_mem _ (h.pending_live i hi)
    pending_assign := by
      intro i hi
      rcases List.mem_cons.mp hi with rfl | hi
      · exact ⟨value, by
          show (d.emit (.assign value)).action? _ = _
          rw [action?_emit, if_pos rfl]⟩
      · exact he.pending_assign i hi
    result_taken := he.result_taken }

theorem jump {target : Nat} {action : Action} (h : d.WellFormed)
    (ha : ∀ e, action.expr? = some e → ∀ c ∈ e.calls, d.Taken c) :
    (d.jump target action).advance.WellFormed :=
  have he := h.emit ha
  ⟨he.addrs_sorted, he.addrs_lt, he.live_sorted, he.live_lt, he.pending_sorted, he.pending_live,
    he.pending_assign, he.result_taken⟩

theorem applyUnary {op : UnaryOp} {id : Nat} (h : d.WellFormed) (hid : id ∈ d.pending) :
    (d.applyUnary op id).WellFormed :=
  have hv := h.action?_pending hid
  { addrs_sorted := by rw [addrs_applyUnary]; exact h.addrs_sorted
    addrs_lt := by rw [addrs_applyUnary]; exact h.addrs_lt
    live_sorted := h.live_sorted
    live_lt := by
      intro i hi
      show i < (d.emitted.modify id _).size
      rw [Array.size_modify]
      exact h.live_lt i hi
    pending_sorted := h.pending_sorted
    pending_live := h.pending_live
    pending_assign := by
      intro i hi
      rw [action?_applyUnary hv]
      split
      · exact ⟨_, rfl⟩
      · exact h.pending_assign i hi
    result_taken := by
      intro i e he c hc
      rw [expr?, action?_applyUnary hv] at he
      split at he
      · rename_i hi
        subst hi
        cases he
        have he : d.expr? i = some (d.valueOf i) := by rw [expr?, hv]; rfl
        obtain ⟨hlt, hcall, hlive⟩ := h.result_taken i _ he c hc
        exact ⟨hlt, hcall.applyUnary hv, hlive⟩
      · obtain ⟨hlt, hcall, hlive⟩ := h.result_taken i e he c hc
        exact ⟨hlt, hcall.applyUnary hv, hlive⟩ }

theorem step {c : Command} (h : d.WellFormed) (hs : Step d c d') : d'.advance.WellFormed := by
  cases hs with
  | skip => exact h.advance
  | label _ =>
      exact ⟨h.addrs_sorted, fun a ha => Nat.lt_succ_of_lt (h.addrs_lt a ha), h.live_sorted, h.live_lt,
        h.pending_sorted, h.pending_live, h.pending_assign, h.result_taken⟩
  | push | pushArgument | pushLocal => exact h.push (by simp [Expr.calls])
  | unary hp =>
      refine (h.applyUnary ?_).advance
      rw [hp]
      exact List.mem_cons_self
  | @binary op right left rest hp =>
      refine ((h.consume right).consume left).push fun c hc => ?_
      have hr : ∀ c ∈ (d.valueOf right).calls, d.Taken c :=
        fun c => h.taken_of_mem_calls (by simp [hp])
      have hl : ∀ c ∈ (d.valueOf left).calls, d.Taken c :=
        fun c => h.taken_of_mem_calls (by simp [hp])
      rw [Expr.calls, List.mem_append] at hc
      exact (hc.elim (hl c) (hr c)).consume right |>.consume left
  | call | ret | unknown => exact h.emit (by intro e he; cases he)
  | jump => exact h.jump (by intro e he; cases he)
  | @branch t id rest hp =>
      refine (h.consume id).jump ?_
      intro e he c hc
      cases he
      exact (h.taken_of_mem_calls (by simp [hp]) hc).consume id
  | @takeResult id hc =>
      have hid := mem_live_of_latestCall? hc
      rw [h.absorb_eq_consume hid.2]
      refine (h.consume id).push fun c hc => ?_
      rw [Expr.calls, List.mem_singleton] at hc
      subst hc
      exact ⟨hid.2, h.live_nodup.not_mem_erase⟩
  | drop => exact (h.drop _).advance

/-! ## How the calls change -/

theorem liveCalls_emit (h : d.WellFormed) (action : Action) :
    (d.emit action).liveCalls =
      if action.isCall then d.emitted.size :: d.liveCalls else d.liveCalls := by
  have hold : d.live.filter (fun id => ((d.emit action).action? id).any Action.isCall) = d.liveCalls :=
    List.filter_congr fun id hid => by rw [action?_emit_of_lt action (h.live_lt id hid)]
  have hnew : ((d.emit action).action? d.emitted.size).any Action.isCall = action.isCall := by
    rw [action?_emit, if_pos rfl, Option.any_some]
  show (d.emitted.size :: d.live).filter _ = _
  rw [List.filter_cons, hnew, hold]

theorem liveCalls_push (h : d.WellFormed) (value : Expr) :
    (d.push value).liveCalls = d.liveCalls :=
  h.liveCalls_emit (.assign value)

theorem liveCalls_consume {id : Nat} (h : d.WellFormed) (hid : id ∈ d.pending) :
    (d.consume id).liveCalls = d.liveCalls := by
  have hc : id ∉ d.liveCalls := by
    intro hc
    exact (mem_liveCalls.mp hc).2.not_assign (h.action?_pending hid)
  exact List.erase_filter.symm.trans (List.erase_of_not_mem hc)

theorem liveCalls_takeResult {id : Nat} (h : d.latestCall? = some id) :
    d.liveCalls = id :: (d.consume id).liveCalls := by
  rw [latestCall?_eq, List.head?_eq_some_iff] at h
  obtain ⟨rest, hr⟩ := h
  have he : (d.consume id).liveCalls = d.liveCalls.erase id := List.erase_filter.symm
  rw [he, hr, List.erase_cons_head]

theorem liveCalls_applyUnary {op : UnaryOp} {id : Nat} (h : d.WellFormed) (hid : id ∈ d.pending) :
    (d.applyUnary op id).liveCalls = d.liveCalls := by
  exact List.filter_congr fun j _ => any_isCall_applyUnary (h.action?_pending hid) j

end WellFormed

theorem run_wellFormed {lines : List String} (h : ({} : Draft).run lines = .ok d) :
    d.WellFormed := by
  refine run_induction (motive := fun _ d => d.WellFormed) .init ?_ h
  intro lines d line d' ih hl
  obtain ⟨c, d₁, _, hs, rfl⟩ := stepLine_eq_ok hl
  exact ih.step hs

/-- Induction on the lines that lead to a draft, from one well-formed draft to the next. -/
theorem step_induction {motive : List String → Draft → Prop} (nil : motive [] {})
    (snoc : ∀ {lines d line c d'}, d.WellFormed → d.offset = lines.length → motive lines d →
      Reads (codeWords line) c → Step d c d' → motive (lines ++ [line]) d'.advance)
    {lines : List String} (h : ({} : Draft).run lines = .ok d) : motive lines d := by
  have hm : d.WellFormed ∧ d.offset = lines.length ∧ motive lines d := by
    refine run_induction (motive := fun lines d => d.WellFormed ∧ d.offset = lines.length ∧ motive lines d)
      ⟨.init, rfl, nil⟩ ?_ h
    intro lines d line d' ⟨hw, ho, ih⟩ hl
    obtain ⟨c, d₁, hr, hs, rfl⟩ := stepLine_eq_ok hl
    refine ⟨hw.step hs, ?_, snoc hw ho ih hr hs⟩
    simp [advance, hs.offset_eq, ho]
  exact hm.2.2

end Unstack.Draft
