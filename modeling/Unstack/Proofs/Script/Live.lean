import Mathlib.Data.List.Basic
import Mathlib.Data.List.Nodup
import Mathlib.Data.List.TakeWhile
import Unstack.Pseudocode.Binding
import Unstack.Proofs.Draft.WellFormed

/-!
# The live instructions of a script

A script shows the live instructions of the draft that it was made from, in the order of their addresses.
`partition_instructions` says that an address cuts them in two, and that what an address resolves to stands right
behind the cut.
-/

namespace Unstack

variable {d : Draft} {s : Script}

theorem eq_of_key_eq {α : Type} {f : α → Nat} {l : List α} (h : l.Pairwise fun a b => f a < f b) {a b : α}
    (ha : a ∈ l) (hb : b ∈ l) (he : f a = f b) : a = b :=
  List.inj_on_of_nodup_map (List.pairwise_map.mpr (h.imp Nat.ne_of_lt)) ha hb he

namespace Draft

/-! ## Ending a draft -/

theorem finish_eq_ok (h : d.finish = .ok s) :
    ∃ labels, resolveLabels d.script d.labels.entries = .ok labels ∧ s = { d.script with labels } := by
  obtain ⟨labels, hl, rfl⟩ := map_eq_ok h
  exact ⟨labels, hl, rfl⟩

end Draft

namespace Script

theorem ofLines_eq_ok {lines : List String} (h : ofLines lines = .ok s) :
    ∃ d, ({} : Draft).run lines = .ok d ∧ d.finish = .ok s :=
  bind_eq_ok h

/-! ## Instructions by number -/

theorem mem_instructions {p : Nat × Instr} :
    p ∈ s.instructions ↔ p.1 ∈ s.live ∧ s.emitted[p.1]? = some p.2 := by
  simp only [instructions, List.mem_filterMap, Option.map_eq_some_iff]
  constructor
  · rintro ⟨id, hid, i, hi, rfl⟩
    exact ⟨hid, hi⟩
  · rintro ⟨hid, hi⟩
    exact ⟨p.1, hid, p.2, hi, rfl⟩

theorem mem_slots {slot : Slot} :
    slot ∈ s.slots ↔ (slot.id, slot.instr) ∈ s.instructions ∧ slot.instr.action.isUnknown = false := by
  simp only [slots, List.mem_map, List.mem_filter, Bool.not_eq_true']
  constructor
  · rintro ⟨p, hp, rfl⟩
    exact hp
  · intro h
    exact ⟨_, h, rfl⟩

theorem callee?_eq_some {id : Nat} (h : d.IsCall id) : ∃ name, d.script.callee? id = some name := by
  obtain ⟨name, hn⟩ := h
  have hn : d.script.emitted[id]?.map Instr.action = some (.call name) := hn
  exact ⟨name, by simp only [callee?, hn]⟩

end Script

namespace Draft

theorem instr_of_live {id : Nat} (h : d.WellFormed) (hid : id ∈ d.live) :
    ∃ i, d.emitted[id]? = some i :=
  ⟨_, Array.getElem?_eq_getElem (h.live_lt id hid)⟩

/-- No live number is out of range, so a script leaves out no live instruction. -/
theorem map_fst_instructions (h : d.WellFormed) :
    d.script.instructions.map (·.1) = d.script.live := by
  rw [Script.instructions, List.map_filterMap]
  refine (List.filterMap_eq_map_iff_forall_eq_some.mpr fun id hid => ?_).trans (List.map_id _)
  obtain ⟨i, hi⟩ := instr_of_live h (List.mem_reverse.mp hid)
  have hi : d.script.emitted[id]? = some i := hi
  simp only [hi, Option.map_some]
  rfl

theorem addr_lt_addr {i j : Nat} {a b : Instr} (h : d.WellFormed) (hij : i < j)
    (ha : d.emitted[i]? = some a) (hb : d.emitted[j]? = some b) : a.addr < b.addr := by
  obtain ⟨hi, rfl⟩ := Array.getElem?_eq_some_iff.mp ha
  obtain ⟨hj, rfl⟩ := Array.getElem?_eq_some_iff.mp hb
  have hs := List.pairwise_iff_getElem.mp h.addrs_sorted i j
    (by rwa [length_addrs]) (by rwa [length_addrs]) hij
  simpa [addrs] using hs

/-- Numbers and addresses of live instructions both increase. -/
theorem instructions_sorted (h : d.WellFormed) :
    d.script.instructions.Pairwise fun p q => p.1 < q.1 ∧ p.2.addr < q.2.addr := by
  refine List.pairwise_filterMap.mpr ?_
  have hs : d.script.live.Pairwise (· < ·) := List.pairwise_reverse.mpr h.live_sorted
  refine hs.imp ?_
  intro i j hij p hp q hq
  obtain ⟨a, ha, rfl⟩ := Option.map_eq_some_iff.mp hp
  obtain ⟨b, hb, rfl⟩ := Option.map_eq_some_iff.mp hq
  exact ⟨hij, addr_lt_addr h hij ha hb⟩

/-! ## Addresses cut the live instructions in two -/

theorem le_of_mem_dropWhile (addr : Nat) {l : List (Nat × Instr)}
    (h : l.Pairwise fun p q => p.1 < q.1 ∧ p.2.addr < q.2.addr) :
    ∀ p ∈ l.dropWhile (fun p => p.2.addr < addr), addr ≤ p.2.addr := by
  induction l with
  | nil => simp
  | cons q l ih =>
      obtain ⟨hq, hl⟩ := List.pairwise_cons.mp h
      by_cases hlt : q.2.addr < addr
      · rw [List.dropWhile_cons_of_pos (by simpa using hlt)]
        exact ih hl
      · rw [List.dropWhile_cons_of_neg (by simpa using hlt)]
        intro p hp
        rcases List.mem_cons.mp hp with rfl | hp
        · exact Nat.le_of_not_lt hlt
        · exact Nat.le_trans (Nat.le_of_not_lt hlt) (Nat.le_of_lt (hq p hp).2)

/-- The live instructions before an address stand in front of those that are not. -/
theorem partition_instructions (h : d.WellFormed) (addr : Nat) :
    ∃ before after, d.script.instructions = before ++ after ∧
      (∀ p ∈ before, p.2.addr < addr) ∧ (∀ p ∈ after, addr ≤ p.2.addr) ∧
      Script.firstFrom addr d.script.instructions = after.head? := by
  refine ⟨_, _, List.takeWhile_append_dropWhile.symm, ?_, le_of_mem_dropWhile addr (instructions_sorted h), ?_⟩
  · intro p hp
    simpa using List.mem_takeWhile_imp hp
  · simp only [Script.firstFrom, List.find?_eq_head?_dropWhile_not, ← decide_not, Nat.not_le]

end Draft

namespace Script

/-! ## Slots -/

theorem slots_sorted (h : s.instructions.Pairwise fun p q => p.1 < q.1 ∧ p.2.addr < q.2.addr) :
    s.slots.Pairwise fun p q => p.id < q.id ∧ p.instr.addr < q.instr.addr :=
  List.pairwise_map.mpr (h.filter _)

theorem nodup_slots (h : s.instructions.Pairwise fun p q => p.1 < q.1 ∧ p.2.addr < q.2.addr) :
    (s.slots.map (·.id)).Nodup :=
  List.pairwise_map.mpr ((slots_sorted h).imp fun hlt => Nat.ne_of_lt hlt.1)

/-! ## Resolving addresses -/

variable {lines : List String} {t : Nat} {p : Nat × Instr}

theorem ofLines_sorted (h : ofLines lines = .ok s) :
    s.instructions.Pairwise fun p q => p.1 < q.1 ∧ p.2.addr < q.2.addr := by
  obtain ⟨d, hd, hf⟩ := ofLines_eq_ok h
  obtain ⟨labels, _, rfl⟩ := Draft.finish_eq_ok hf
  exact Draft.instructions_sorted (Draft.run_wellFormed hd)

theorem eq_of_mem_instructions {q : Nat × Instr} (hp : p ∈ s.instructions) (hq : q ∈ s.instructions)
    (h : p.1 = q.1) : p = q := by
  have hi := (mem_instructions.mp hp).2
  rw [h, (mem_instructions.mp hq).2] at hi
  exact Prod.ext h (Option.some.inj hi).symm

theorem firstFrom_eq_none {l : List (Nat × Instr)} :
    firstFrom t l = none ↔ ∀ q ∈ l, q.2.addr < t := by
  simp only [firstFrom, List.find?_eq_none, decide_eq_true_eq, Nat.not_le]

/-- What an address resolves to is the live instruction with the least address that is not before it. -/
theorem firstFrom_eq_some {l : List (Nat × Instr)}
    (hs : l.Pairwise fun p q => p.1 < q.1 ∧ p.2.addr < q.2.addr) (h : firstFrom t l = some p) :
    p ∈ l ∧ t ≤ p.2.addr ∧ ∀ q ∈ l, t ≤ q.2.addr → p.2.addr ≤ q.2.addr := by
  obtain ⟨hle, before, after, rfl, hbefore⟩ := List.find?_eq_some_iff_append.mp h
  refine ⟨by simp, by simpa using hle, fun q hq ht => ?_⟩
  rw [List.pairwise_append, List.pairwise_cons] at hs
  rcases List.mem_append.mp hq with hq | hq
  · exact absurd ht (by simpa using hbefore q hq)
  · rcases List.mem_cons.mp hq with rfl | hq
    · exact Nat.le_refl _
    · exact Nat.le_of_lt (hs.2.1.1 q hq).2

/-- A jump goes to a live instruction exactly if what its target resolves to is this one. -/
theorem contains_landings (hp : p ∈ s.instructions) :
    s.landings.contains p.1 = true ↔ ∃ t ∈ s.targets, firstFrom t s.instructions = some p := by
  simp only [landings, resolve, List.contains_iff_mem, List.mem_filterMap, Option.map_eq_some_iff]
  constructor
  · rintro ⟨t, ht, q, hq, he⟩
    rw [← eq_of_mem_instructions (List.mem_of_find?_eq_some hq) hp he]
    exact ⟨t, ht, hq⟩
  · rintro ⟨t, ht, hq⟩
    exact ⟨t, ht, p, hq, rfl⟩

end Script

end Unstack
