import Unstack.Proofs.Script.Live

/-!
# Nothing that lifting looks up is missing

A draft is full of numbers that are looked up later: when values are folded, when addresses are resolved and when
calls are shown. `Grounded` says that each of these lookups finds what it is meant to find. It follows from the
invariant, so it holds of every draft that lines lead to (`run_representation`). Lifting does not see the registry.
-/

namespace Unstack

variable {d : Draft} {s : Script}

namespace Draft

/-- Folding the value with this number finds it among the live ones, takes it away and reads the expression of an
assignment. -/
structure Folds (d : Draft) (id : Nat) : Prop where
  found : id ∈ d.live
  gone : id ∉ (d.absorb id).live
  read : d.action? id = some (.assign (d.valueOf id))

/-- Every lookup finds what it is meant to find. -/
structure Grounded (d : Draft) : Prop where
  folds_one : ∀ id rest, d.pending = id :: rest → d.Folds id
  /-- Two values are there once two are counted, and both can be folded, the top one first. -/
  folds_two : 2 ≤ d.pending.length →
    ∃ right left rest, d.pending = right :: left :: rest ∧ d.Folds right ∧ (d.absorb right).Folds left
  in_range : ∀ id, (id ∈ d.live ∨ id ∈ d.pending ∨ ∃ j e, d.expr? j = some e ∧ id ∈ e.calls) →
    id < d.emitted.size
  /-- A script has every live instruction, in the order of the addresses. -/
  numbers : d.script.instructions.map (·.1) = d.live.reverse
  addrs : (d.script.instructions.map (·.2.addr)).Pairwise (· < ·)
  /-- An address cuts the live instructions in two, and resolves to the first one behind the cut. -/
  partitioned : ∀ addr, ∃ before after, d.script.instructions = before ++ after ∧
    (∀ p ∈ before, p.2.addr < addr) ∧ (∀ p ∈ after, addr ≤ p.2.addr) ∧
    Script.firstFrom addr d.script.instructions = after.head?
  /-- The calls of a slot, and the results in any expression, live or not, are calls in the finished script. -/
  callees : ∀ s, d.finish = .ok s →
    (∀ slot ∈ s.slots, ∀ c ∈ slot.calls, ∃ name, s.callee? c = some name) ∧
    ∀ id e, d.expr? id = some e → ∀ c ∈ e.calls, ∃ name, s.callee? c = some name

end Draft

/-! ## Slots -/

theorem Slot.mem_calls {slot : Slot} {c : Nat} (h : c ∈ slot.calls) :
    (∃ name, slot.instr.action = .call name ∧ c = slot.id) ∨
      ∃ e, slot.instr.action.expr? = some e ∧ c ∈ e.calls := by
  simp only [Slot.calls] at h
  split at h
  · rename_i name hn
    exact Or.inl ⟨name, hn, List.mem_singleton.mp h⟩
  · cases he : slot.instr.action.expr? with
    | none => simp [he] at h
    | some e => exact Or.inr ⟨e, rfl, by simpa [he] using h⟩

namespace Draft

theorem action?_of_mem_instructions {p : Nat × Instr} (h : p ∈ d.script.instructions) :
    p.1 ∈ d.live ∧ d.action? p.1 = some p.2.action := by
  obtain ⟨hl, hi⟩ := Script.mem_instructions.mp h
  have hi : d.emitted[p.1]? = some p.2 := hi
  exact ⟨List.mem_reverse.mp hl, by rw [action?, hi]; rfl⟩

/-! ## Folding -/

theorem WellFormed.folds {id : Nat} (h : d.WellFormed) (hid : id ∈ d.pending) : d.Folds id where
  found := h.pending_live id hid
  gone := h.live_nodup.not_mem_erase
  read := h.action?_pending hid

theorem WellFormed.folds_two (h : d.WellFormed) (hp : 2 ≤ d.pending.length) :
    ∃ right left rest, d.pending = right :: left :: rest ∧ d.Folds right ∧
      (d.absorb right).Folds left := by
  match hd : d.pending, hp with
  | right :: left :: rest, _ =>
      have hleft : left ∈ d.pending := by simp [hd]
      have hne : left ≠ right := by
        have hn := h.pending_nodup
        rw [hd] at hn
        rintro rfl
        exact (List.nodup_cons.mp hn).1 List.mem_cons_self
      refine ⟨right, left, rest, rfl, h.folds (by simp [hd]), ?_⟩
      exact
        { found := h.live_nodup.mem_erase_iff.mpr ⟨hne, h.pending_live left hleft⟩
          gone := (h.live_nodup.erase right).not_mem_erase
          read := h.action?_pending hleft }

/-! ## Calls -/

theorem WellFormed.slot_calls {slot : Slot} {c : Nat} (h : d.WellFormed)
    (hs : slot ∈ d.script.slots) (hc : c ∈ slot.calls) : d.IsCall c := by
  obtain ⟨_, ha⟩ := action?_of_mem_instructions (Script.mem_slots.mp hs).1
  rcases Slot.mem_calls hc with ⟨name, hn, rfl⟩ | ⟨e, he, hc⟩
  · exact ⟨name, hn ▸ ha⟩
  · have he : d.expr? slot.id = some e := by rw [expr?, ha]; exact he
    exact (h.result_taken slot.id e he c hc).2.1

theorem WellFormed.grounded (h : d.WellFormed) : d.Grounded where
  folds_one id rest hp := h.folds (by simp [hp])
  folds_two := h.folds_two
  in_range id hid := by
    rcases hid with hid | hid | ⟨j, e, he, hc⟩
    · exact h.live_lt id hid
    · exact h.live_lt id (h.pending_live id hid)
    · exact (h.result_taken j e he id hc).2.1.lt_size
  numbers := map_fst_instructions h
  addrs := List.pairwise_map.mpr ((instructions_sorted h).imp And.right)
  partitioned := partition_instructions h
  callees s hs := by
    obtain ⟨labels, _, rfl⟩ := finish_eq_ok hs
    refine ⟨fun slot hslot c hc => Script.callee?_eq_some (h.slot_calls hslot hc), ?_⟩
    intro id e he c hc
    exact Script.callee?_eq_some (h.result_taken id e he c hc).2.1

/-- Every draft that lines lead to keeps the invariant, and every lookup in it finds what it is meant to find. -/
theorem run_representation {lines : List String} (h : ({} : Draft).run lines = .ok d) :
    d.WellFormed ∧ d.Grounded :=
  ⟨run_wellFormed h, (run_wellFormed h).grounded⟩

theorem run_representation_folded :
    ∃ d, ({} : Draft).run ["PUSH 1", "CALL f", "PUSHRC 0", "ADD", "UNARY 0", "PUSHVAR 3"] = .ok d ∧
      d.WellFormed ∧ d.Grounded ∧ d.live = [4, 3] ∧ d.pending = [4, 3] := by
  obtain ⟨d, hd, hrun⟩ : ∃ d, ({} : Draft).run
      ["PUSH 1", "CALL f", "PUSHRC 0", "ADD", "UNARY 0", "PUSHVAR 3"] = .ok d ∧
        (d.live, d.pending) = ([4, 3], [4, 3]) := exists_ok (by decide +kernel)
  obtain ⟨hw, hg⟩ := run_representation hd
  obtain ⟨hlive, hpending⟩ := Prod.mk.inj hrun
  exact ⟨d, hd, hw, hg, hlive, hpending⟩

end Draft

end Unstack
