import Mathlib.Data.List.Nodup
import Unstack.Proofs.Script.Live
import Unstack.Proofs.Table

/-!
# The names of values

Each slot behind a value gives it the names of the parameters that line up with it, and the last of all these names is
the one that the value has (`bindings_get?`). Which calls a slot makes is all that matters, not where their lines are.
-/

namespace Unstack

namespace Binding

variable {s : Script} {reg : Registry} {slot : Slot}

/-! ## Names for one number -/

/-- The names that bindings give to the instruction with this number. -/
def given (id : Nat) (l : List (Nat × String)) : List String :=
  (l.filter (·.1 = id)).map (·.2)

theorem given_append (id : Nat) (l₁ l₂ : List (Nat × String)) :
    given id (l₁ ++ l₂) = given id l₁ ++ given id l₂ := by
  simp only [given, List.filter_append, List.map_append]

theorem given_flatMap {α : Type} (id : Nat) (l : List α) (f : α → List (Nat × String)) :
    given id (l.flatMap f) = l.flatMap fun a => given id (f a) := by
  simp only [given, List.filter_flatMap, List.map_flatMap]

/-- The names that these slots give to a value with so many slots between it and them, in order. -/
def namesGiven (s : Script) (reg : Registry) (distance : Nat) : List Slot → List String
  | [] => []
  | slot :: rest =>
    (knownCalls s reg slot).flatMap (fun c => (c.2.params[distance]?.map (·.name)).toList) ++
      namesGiven s reg (distance + 1) rest

/-! ## What the slots in front of a call are given -/

theorem ofCall_cons (q : Slot) (before : List Slot) (param : Param) (params : List Param) :
    ofCall (q :: before) ⟨param :: params⟩ =
      (if q.instr.action.isAssign then [(q.id, param.name)] else []) ++ ofCall before ⟨params⟩ := by
  simp only [ofCall, pairs, List.zip_cons_cons, List.filterMap_cons]
  cases q.instr.action.isAssign <;> rfl

theorem given_ofCall_of_ne {before : List Slot} (sig : Signature) (h : ∀ q ∈ before, q.id ≠ slot.id) :
    given slot.id (ofCall before sig) = [] := by
  obtain ⟨params⟩ := sig
  induction before generalizing params with
  | nil => simp [ofCall, pairs, given]
  | cons q before ih =>
      obtain ⟨hq, hbefore⟩ := List.forall_mem_cons.mp h
      cases params with
      | nil => rfl
      | cons param params =>
          rw [ofCall_cons, given_append, ih hbefore, List.append_nil]
          split
          · simp [given, hq]
          · rfl

/-- A call names the value by the parameter that lines up with it. -/
theorem given_ofCall (ha : slot.instr.action.isAssign = true) {near far : List Slot} (sig : Signature)
    (hnear : ∀ q ∈ near, q.id ≠ slot.id) (hfar : ∀ q ∈ far, q.id ≠ slot.id) :
    given slot.id (ofCall (near ++ slot :: far) sig) = (sig.params[near.length]?.map (·.name)).toList := by
  obtain ⟨params⟩ := sig
  induction near generalizing params with
  | nil =>
      cases params with
      | nil => rfl
      | cons param params =>
          rw [List.nil_append, ofCall_cons, given_append, given_ofCall_of_ne _ hfar, if_pos ha]
          simp [given]
  | cons q near ih =>
      obtain ⟨hq, hnear⟩ := List.forall_mem_cons.mp hnear
      cases params with
      | nil => rfl
      | cons param params =>
          have hfirst : given slot.id (if q.instr.action.isAssign then [(q.id, param.name)] else []) = [] := by
            split
            · simp [given, hq]
            · rfl
          rw [List.cons_append, ofCall_cons, given_append, hfirst, List.nil_append, ih hnear]
          rfl

theorem given_ofSlots_of_ne {before : List Slot} (l : List Slot) (hbefore : ∀ q ∈ before, q.id ≠ slot.id)
    (hl : ∀ q ∈ l, q.id ≠ slot.id) : given slot.id (ofSlots s reg before l) = [] := by
  induction l generalizing before with
  | nil => rfl
  | cons q l ih =>
      obtain ⟨hq, hl⟩ := List.forall_mem_cons.mp hl
      have hcalls : given slot.id ((knownCalls s reg q).flatMap fun c => ofCall before c.2) = [] := by
        rw [given_flatMap, List.flatMap_eq_nil_iff]
        exact fun c _ => given_ofCall_of_ne c.2 hbefore
      rw [ofSlots, given_append, hcalls, List.nil_append]
      exact ih (List.forall_mem_cons.mpr ⟨hq, hbefore⟩) hl

/-- The value is given what the slots behind it give to one that far in front of them. -/
theorem given_ofSlots (ha : slot.instr.action.isAssign = true) {near far : List Slot} (l : List Slot)
    (hnear : ∀ q ∈ near, q.id ≠ slot.id) (hfar : ∀ q ∈ far, q.id ≠ slot.id) (hl : ∀ q ∈ l, q.id ≠ slot.id) :
    given slot.id (ofSlots s reg (near ++ slot :: far) l) = namesGiven s reg near.length l := by
  induction l generalizing near with
  | nil => rfl
  | cons q l ih =>
      obtain ⟨hq, hl⟩ := List.forall_mem_cons.mp hl
      simp only [ofSlots, given_append, given_flatMap, given_ofCall ha _ hnear hfar, namesGiven]
      exact congrArg _ (ih (List.forall_mem_cons.mpr ⟨hq, hnear⟩) hl)

theorem ofSlots_append (before l₁ l₂ : List Slot) :
    ofSlots s reg before (l₁ ++ l₂) = ofSlots s reg before l₁ ++ ofSlots s reg (l₁.reverse ++ before) l₂ := by
  induction l₁ generalizing before with
  | nil => rfl
  | cons q l₁ ih => simp [ofSlots, ih]

end Binding

namespace Script

variable {s : Script} {reg : Registry}

/-- The name of a value is the last one that the slots behind it give. -/
theorem bindings_get? {before after : List Slot} {slot : Slot} (hs : s.slots = before ++ slot :: after)
    (hid : (s.slots.map (·.id)).Nodup) (ha : slot.instr.action.isAssign = true) :
    (s.bindings reg).get? slot.id = (Binding.namesGiven s reg 0 after).getLast? := by
  rw [hs, List.map_append, List.map_cons, List.nodup_middle, List.nodup_cons, ← List.map_append,
    List.mem_map] at hid
  have hne : ∀ q ∈ before ++ after, q.id ≠ slot.id := fun q hq he => hid.1 ⟨q, hq, he⟩
  have hbefore : ∀ q ∈ before, q.id ≠ slot.id := fun q hq => hne q (List.mem_append_left _ hq)
  have hafter : ∀ q ∈ after, q.id ≠ slot.id := fun q hq => hne q (List.mem_append_right _ hq)
  have hreverse : ∀ q ∈ before.reverse, q.id ≠ slot.id := fun q hq => hbefore q (List.mem_reverse.mp hq)
  have hown : Binding.given slot.id
      ((Binding.knownCalls s reg slot).flatMap fun c => Binding.ofCall before.reverse c.2) = [] := by
    rw [Binding.given_flatMap, List.flatMap_eq_nil_iff]
    exact fun c _ => Binding.given_ofCall_of_ne c.2 hreverse
  refine (Table.get?_ofList _ _).trans (congrArg List.getLast? ?_)
  show Binding.given slot.id (Binding.ofSlots s reg [] s.slots) = _
  rw [hs, Binding.ofSlots_append, Binding.given_append, List.append_nil, Binding.ofSlots, Binding.given_append, hown,
    Binding.given_ofSlots_of_ne before (fun _ hq => absurd hq List.not_mem_nil) hbefore]
  exact Binding.given_ofSlots ha after (fun _ hq => absurd hq List.not_mem_nil) hreverse hafter

end Script

end Unstack
