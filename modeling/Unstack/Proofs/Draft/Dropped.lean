import Unstack.Proofs.Draft.WellFormed

/-!
# Values that were dropped

What takes a value from the stack is all that changes it or takes its assignment away. So an assignment that is no
longer pending stays live as it is, whatever lines follow (`Dropped.run`). The values that are pushed right before a
call and dropped right behind it are such ones (`run_call`).
-/

namespace Unstack.Draft

variable {d d' : Draft} {id : Nat} {i : Instr}

/-- The instruction is not pending, so it keeps what it does. -/
structure Fixed (d : Draft) (id : Nat) (i : Instr) : Prop where
  instr : d.emitted[id]? = some i
  not_pending : id ∉ d.pending

/-- The instruction is live and is neither pending nor a call, so nothing takes it away. -/
structure Dropped (d : Draft) (id : Nat) (i : Instr) : Prop extends d.Fixed id i where
  live : id ∈ d.live
  not_call : i.action.isCall = false

namespace Fixed

theorem lt_size (h : d.Fixed id i) : id < d.emitted.size :=
  (Array.getElem?_eq_some_iff.mp h.instr).1

theorem step {c : Command} (h : d.Fixed id i) (hs : Step d c d') : d'.Fixed id i where
  instr := getElem?_step hs h.instr fun _ _ hid => h.not_pending (List.mem_of_mem_head? hid)
  not_pending hm := (mem_pending_step hs hm).elim h.not_pending (Nat.ne_of_lt h.lt_size)

end Fixed

theorem Dropped.consume {other : Nat} (h : d.Dropped id i) (ho : other ∈ d.pending) :
    (d.consume other).Dropped id i := by
  refine ⟨⟨h.instr, fun hm => h.not_pending (List.mem_of_mem_erase hm)⟩, (List.mem_erase_of_ne ?_).mpr h.live,
    h.not_call⟩
  rintro rfl
  exact h.not_pending ho

theorem Dropped.step {c : Command} (h : d.Dropped id i) (hs : Step d c d') : d'.Dropped id i := by
  refine ⟨h.toFixed.step hs, ?_, h.not_call⟩
  cases hs with
  | skip | label | unary | drop => exact h.live
  | push | pushArgument | pushLocal | call | jump | ret | unknown => exact List.mem_cons_of_mem _ h.live
  | @binary op right left rest hp =>
      have hleft : left ∈ (d.consume right).pending := by
        rw [pending_consume hp]
        exact List.mem_cons_self
      exact List.mem_cons_of_mem _ ((h.consume (hp ▸ List.mem_cons_self)).consume hleft).live
  | branch hp => exact List.mem_cons_of_mem _ (h.consume (hp ▸ List.mem_cons_self)).live
  | @takeResult call hc =>
      obtain ⟨_, name, hn⟩ := mem_live_of_latestCall? hc
      refine List.mem_cons_of_mem _ ((List.mem_erase_of_ne ?_).mpr h.live)
      rintro rfl
      rw [action?, h.instr, Option.map_some, Option.some.injEq] at hn
      have hcall := h.not_call
      rw [hn] at hcall
      cases hcall

theorem Fixed.run {lines : List String} (h : d.Fixed id i) (hr : d.run lines = .ok d') : d'.Fixed id i :=
  run_preserves (P := fun d => d.Fixed id i) (fun h hs => ⟨(h.step hs).instr, (h.step hs).not_pending⟩) h hr

theorem Dropped.run {lines : List String} (h : d.Dropped id i) (hr : d.run lines = .ok d') : d'.Dropped id i :=
  run_preserves (P := fun d => d.Dropped id i)
    (fun h hs => ⟨⟨(h.step hs).instr, (h.step hs).not_pending⟩, (h.step hs).live, h.not_call⟩) h hr

/-! ## The values of a call -/

/-- The draft has a number of literals more, each at the address of its line. -/
structure Pushed (d : Draft) (count : Nat) (d' : Draft) : Prop where
  offset : d'.offset = d.offset + count
  size : d'.emitted.size = d.emitted.size + count
  instr : ∀ j < count, ∃ v, d'.emitted[d.emitted.size + j]? = some ⟨d.offset + j, .assign (.literal v)⟩
  live : ∀ j < count, d.emitted.size + j ∈ d'.live
  pending : d'.pending.drop count = d.pending

theorem run_pushes {lines : List String} (h : ∀ line ∈ lines, ∃ v, Command.ofLine line = .ok (.push v)) (d : Draft) :
    ∃ d', d.run lines = .ok d' ∧ d.Pushed lines.length d' := by
  induction lines using List.reverseRecOn with
  | nil => exact ⟨d, rfl, rfl, rfl, by simp, by simp, rfl⟩
  | append_singleton lines line ih =>
      obtain ⟨d₁, hr, hp⟩ := ih fun l hl => h l (List.mem_append_left _ hl)
      obtain ⟨v, hv⟩ := h line (by simp)
      refine ⟨_, run_concat hr (stepLine_of_step hv .push), ?_⟩
      rw [List.length_append]
      exact
        { offset := congrArg (· + 1) hp.offset
          size := by
            show (d₁.emitted.push _).size = _
            rw [Array.size_push, hp.size]
            rfl
          instr := by
            intro j hj
            rcases Nat.lt_succ_iff_lt_or_eq.mp hj with hj | rfl
            · obtain ⟨w, hw⟩ := hp.instr j hj
              exact ⟨w, getElem?_emit_of_eq_some _ hw⟩
            · refine ⟨v, ?_⟩
              rw [← hp.size, ← hp.offset]
              exact getElem?_emit_size d₁ _
          live := by
            intro j hj
            rcases Nat.lt_succ_iff_lt_or_eq.mp hj with hj | rfl
            · exact List.mem_cons_of_mem _ (hp.live j hj)
            · rw [← hp.size]
              exact List.mem_cons_self
          pending := hp.pending }

/-- Behind a call whose values are pushed right before it and dropped right behind it, these are dropped for good. -/
theorem run_call (hw : d.WellFormed) {pushes : List String} {call drop name : String}
    (hp : ∀ line ∈ pushes, ∃ v, Command.ofLine line = .ok (.push v)) (hc : Command.ofLine call = .ok (.call name))
    (hd : Command.ofLine drop = .ok (.drop pushes.length)) :
    ∃ d', d.run (pushes ++ [call, drop]) = .ok d' ∧
      (∀ j < pushes.length, ∃ v, d'.Dropped (d.emitted.size + j) ⟨d.offset + j, .assign (.literal v)⟩) ∧
      d'.Fixed (d.emitted.size + pushes.length) ⟨d.offset + pushes.length, .call name⟩ := by
  obtain ⟨d₁, hr, hpushed⟩ := run_pushes hp d
  have hcall := stepLine_of_step hc (Step.call (d := d₁))
  have hdrop := stepLine_of_step hd (Step.drop (d := (d₁.emit (.call name)).advance))
  have hfresh : ∀ j, d.emitted.size + j ∉ d.pending := by
    intro j hm
    exact Nat.not_lt.mpr (Nat.le_add_right _ j) (hw.live_lt _ (hw.pending_live _ hm))
  have hpending : ∀ j, d.emitted.size + j ∉ d₁.pending.drop pushes.length := by
    intro j
    rw [hpushed.pending]
    exact hfresh j
  have hrun := run_concat (run_concat hr hcall) hdrop
  rw [← List.append_cons] at hrun
  refine ⟨_, hrun, fun j hj => ?_, ?_⟩
  · obtain ⟨v, hv⟩ := hpushed.instr j hj
    exact ⟨v, ⟨getElem?_emit_of_eq_some _ hv, hpending j⟩, List.mem_cons_of_mem _ (hpushed.live j hj), rfl⟩
  · refine ⟨?_, hpending _⟩
    rw [← hpushed.size, ← hpushed.offset]
    exact getElem?_emit_size d₁ _

end Unstack.Draft
