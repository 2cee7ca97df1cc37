import Mathlib.Data.List.Nodup
import Mathlib.Data.List.Perm.Basic
import Unstack.Table

/-!
# Entries of tables

A table has at most one entry for a key, and inserting puts one there. Keys may be exchanged for others in the same
order.
-/

namespace Unstack.Table

variable {α β : Type} [Ord α] {t : Table α β} {k : α} {v : β}

theorem mem_insertEntry_self (l : List (α × β)) : (k, v) ∈ insertEntry k v l := by
  induction l with
  | nil => exact List.mem_singleton.mpr rfl
  | cons e l ih =>
      simp only [insertEntry]
      split
      · exact List.mem_cons_self
      · exact List.mem_cons_self
      · exact List.mem_cons_of_mem _ ih

/-! ## Other keys and values -/

section

variable {α' β' : Type} [Ord α'] {f : α → α'} (hf : ∀ a b, compare (f a) (f b) = compare a b) (g : β → β')

include hf in
theorem map_insertEntry (k : α) (v : β) (l : List (α × β)) :
    (insertEntry k v l).map (Prod.map f g) = insertEntry (f k) (g v) (l.map (Prod.map f g)) := by
  induction l with
  | nil => rfl
  | cons e l ih =>
      simp only [insertEntry, List.map_cons, Prod.map_fst, hf]
      cases compare k e.1 with
      | lt => rfl
      | eq => rfl
      | gt => exact congrArg (_ :: ·) ih

/-- The table with other keys, which are in the same order, and other values. -/
def map (t : Table α β) : Table α' β' :=
  ⟨t.entries.map (Prod.map f g), List.pairwise_map.mpr (t.sorted.imp fun h => (hf _ _).trans h)⟩

theorem map_insert [Std.TransOrd α] [Std.LawfulEqOrd α] [Std.TransOrd α'] [Std.LawfulEqOrd α']
    (t : Table α β) (k : α) (v : β) : (t.insert k v).map hf g = (t.map hf g).insert (f k) (g v) := by
  simp only [map, insert, map_insertEntry hf]

theorem contains_map (t : Table α β) (k : α) : (t.map hf g).contains (f k) = t.contains k := by
  simp only [contains, get?, map, List.find?_map, Option.isSome_map]
  congr 2
  funext e
  exact congrArg (· == .eq) (hf k e.1)

end

/-! ## Entries by key -/

variable [Std.LawfulEqOrd α]

theorem contains_iff : t.contains k = true ↔ ∃ v, (k, v) ∈ t.entries := by
  simp only [contains, get?, Option.isSome_map, List.find?_isSome, beq_iff_eq,
    Std.LawfulEqOrd.compare_eq_iff_eq]
  constructor
  · rintro ⟨e, he, rfl⟩
    exact ⟨e.2, he⟩
  · rintro ⟨v, hv⟩
    exact ⟨_, hv, rfl⟩

theorem keys_nodup (t : Table α β) : t.keys.Nodup := by
  refine List.pairwise_map.mpr (t.sorted.imp ?_)
  intro a b hlt he
  rw [he, Std.ReflOrd.compare_self] at hlt
  cases hlt

theorem eq_of_mem_entries {a b : α × β} (ha : a ∈ t.entries) (hb : b ∈ t.entries) (h : a.1 = b.1) :
    a = b :=
  List.inj_on_of_nodup_map t.keys_nodup ha hb h

theorem get?_eq_some : t.get? k = some v ↔ (k, v) ∈ t.entries := by
  have hfound : ∀ e, t.entries.find? (fun e => compare k e.1 == .eq) = some e → e ∈ t.entries ∧ e.1 = k := by
    intro e he
    have hp := List.find?_some he
    rw [beq_iff_eq, Std.LawfulEqOrd.compare_eq_iff_eq] at hp
    exact ⟨List.mem_of_find?_eq_some he, hp.symm⟩
  simp only [get?, Option.map_eq_some_iff]
  constructor
  · rintro ⟨e, he, rfl⟩
    obtain ⟨hm, rfl⟩ := hfound e he
    exact hm
  · intro hm
    obtain ⟨w, hw⟩ := Option.isSome_iff_exists.mp (contains_iff.mpr ⟨v, hm⟩)
    obtain ⟨e, he, rfl⟩ := Option.map_eq_some_iff.mp hw
    obtain ⟨hme, hk⟩ := hfound e he
    exact ⟨e, he, congrArg Prod.snd (eq_of_mem_entries hme hm hk)⟩

theorem mem_insertEntry_of_ne {e : α × β} {l : List (α × β)} (h : e ∈ l) (hk : e.1 ≠ k) :
    e ∈ insertEntry k v l := by
  induction l with
  | nil => cases h
  | cons a l ih =>
      simp only [insertEntry]
      split
      · exact List.mem_cons_of_mem _ h
      · rename_i heq
        rcases List.mem_cons.mp h with rfl | h
        · exact absurd (Std.LawfulEqOrd.eq_of_compare heq).symm hk
        · exact List.mem_cons_of_mem _ h
      · rcases List.mem_cons.mp h with rfl | h
        · exact List.mem_cons_self
        · exact List.mem_cons_of_mem _ (ih h)

theorem insertEntry_perm {l : List (α × β)} (h : ∀ e ∈ l, e.1 ≠ k) : (insertEntry k v l).Perm ((k, v) :: l) := by
  induction l with
  | nil => exact .refl _
  | cons e l ih =>
      obtain ⟨he, hl⟩ := List.forall_mem_cons.mp h
      simp only [insertEntry]
      split
      · exact .refl _
      · rename_i heq
        exact absurd (Std.LawfulEqOrd.eq_of_compare heq).symm he
      · exact ((ih hl).cons e).trans (.swap _ _ _)

variable [Std.TransOrd α]

/-- A new key is one entry more. -/
theorem insert_perm (h : t.contains k = false) : (t.insert k v).entries.Perm ((k, v) :: t.entries) := by
  refine insertEntry_perm fun e he hk => Bool.eq_false_iff.mp h (contains_iff.mpr ⟨e.2, ?_⟩)
  rwa [← hk]

theorem mem_entries_insert {e : α × β} :
    e ∈ (t.insert k v).entries ↔ e = (k, v) ∨ (e ∈ t.entries ∧ e.1 ≠ k) := by
  have hself : (k, v) ∈ (t.insert k v).entries := mem_insertEntry_self t.entries
  constructor
  · intro h
    by_cases hk : e.1 = k
    · exact Or.inl (eq_of_mem_entries h hself hk)
    · exact (mem_insertEntry h).imp_right fun he => ⟨he, hk⟩
  · rintro (rfl | ⟨he, hk⟩)
    · exact hself
    · exact mem_insertEntry_of_ne he hk

theorem get?_insert [DecidableEq α] (t : Table α β) (k : α) (v : β) (j : α) :
    (t.insert k v).get? j = if j = k then some v else t.get? j := by
  ext w
  rw [get?_eq_some, mem_entries_insert]
  by_cases hj : j = k
  · simp [hj, eq_comm]
  · simp [hj, get?_eq_some]

/-- Of several values for one key the last one stays. -/
theorem get?_insertAll [DecidableEq α] (l : List (α × β)) (t : Table α β) (k : α) :
    (t.insertAll l).get? k = ((l.filter (·.1 = k)).map (·.2)).getLast?.or (t.get? k) := by
  induction l generalizing t with
  | nil => rfl
  | cons e l ih =>
      refine (ih (t.insert e.1 e.2)).trans ?_
      rw [get?_insert]
      by_cases hk : e.1 = k
      · simp [hk, List.getLast?_cons]
      · simp [hk, Ne.symm hk]

theorem get?_ofList [DecidableEq α] (l : List (α × β)) (k : α) :
    (ofList l).get? k = ((l.filter (·.1 = k)).map (·.2)).getLast? :=
  (get?_insertAll l empty k).trans Option.or_none

theorem mem_keys_insert {j : α} : j ∈ (t.insert k v).keys ↔ j = k ∨ j ∈ t.keys := by
  simp only [keys, List.mem_map, mem_entries_insert]
  constructor
  · rintro ⟨e, rfl | ⟨he, _⟩, rfl⟩
    · exact Or.inl rfl
    · exact Or.inr ⟨e, he, rfl⟩
  · rintro (rfl | ⟨e, he, rfl⟩)
    · exact ⟨_, Or.inl rfl, rfl⟩
    · by_cases hk : e.1 = k
      · exact ⟨_, Or.inl rfl, hk.symm⟩
      · exact ⟨e, Or.inr ⟨he, hk⟩, rfl⟩

/-! ## Tables by their entries -/

theorem ext_get? {s t : Table α β} (h : ∀ k, s.get? k = t.get? k) : s = t := by
  have hperm : s.entries.Perm t.entries :=
    (List.perm_ext_iff_of_nodup (.of_map _ s.keys_nodup) (.of_map _ t.keys_nodup)).mpr fun e => by
      rw [← get?_eq_some (t := s), h, get?_eq_some]
  have hasymm : ∀ a b : α × β, compare a.1 b.1 = .lt → compare b.1 a.1 = .lt → a = b := by
    intro a b hab hba
    have haa := Std.TransCmp.lt_trans hab hba
    rw [Std.ReflOrd.compare_self] at haa
    cases haa
  have hentries := hperm.eq_of_pairwise (fun a b _ _ => hasymm a b) s.sorted t.sorted
  cases s
  cases t
  cases hentries
  rfl

theorem get?_insertAll_of_nodup [DecidableEq α] {l : List (α × β)} (h : (l.map (·.1)).Nodup) (t : Table α β) (k : α)
    (v : β) : (t.insertAll l).get? k = some v ↔ (k, v) ∈ l ∨ k ∉ l.map (·.1) ∧ t.get? k = some v := by
  induction l generalizing t with
  | nil => simp [insertAll]
  | cons e l ih =>
      obtain ⟨he, hl⟩ := List.nodup_cons.mp h
      refine (ih hl (t.insert e.1 e.2)).trans ?_
      rw [get?_insert, List.mem_cons, List.map_cons, List.mem_cons]
      by_cases hk : k = e.1
      · subst hk
        have hold : (e.1, v) ∉ l := fun hm => he (List.mem_map.mpr ⟨_, hm, rfl⟩)
        simp [he, hold, Prod.ext_iff, eq_comm]
      · simp [hk, Prod.ext_iff]

/-- The entries of a table may be inserted in any order. -/
theorem get?_insertAll_of_perm [DecidableEq α] {s : Table α β} {l : List (α × β)} (h : l.Perm s.entries)
    (t : Table α β) (k : α) : (t.insertAll l).get? k = (s.get? k).or (t.get? k) := by
  have hl : (l.map (·.1)).Nodup := (h.map Prod.fst).nodup_iff.mpr s.keys_nodup
  have hnone : k ∉ l.map (·.1) ↔ s.get? k = none := by
    rw [Option.eq_none_iff_forall_ne_some]
    simp [get?_eq_some, h.mem_iff]
  ext v
  rw [get?_insertAll_of_nodup hl, hnone, h.mem_iff, ← get?_eq_some, Option.or_eq_some_iff]

end Unstack.Table
