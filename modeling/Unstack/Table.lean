/-!
Tables: finite maps kept as lists of entries in increasing order of their keys. The order is part of
the type, so two tables with the same entries are the same table, however they came about.
-/

namespace Unstack

/-- A finite map from `α` to `β`. -/
structure Table (α β : Type) [Ord α] where
  entries : List (α × β)
  sorted : entries.Pairwise fun a b => compare a.1 b.1 = .lt

namespace Table

variable {α β : Type} [Ord α]

/-- Puts an entry in its place and drops the one that was there. -/
def insertEntry (k : α) (v : β) : List (α × β) → List (α × β)
  | [] => [(k, v)]
  | e :: r =>
    match compare k e.1 with
    | .lt => (k, v) :: e :: r
    | .eq => (k, v) :: r
    | .gt => e :: insertEntry k v r

theorem mem_insertEntry {k : α} {v : β} {l : List (α × β)} {e : α × β}
    (h : e ∈ insertEntry k v l) : e = (k, v) ∨ e ∈ l := by
  induction l with
  | nil => exact Or.inl (List.mem_singleton.1 h)
  | cons a r ih =>
    simp only [insertEntry] at h
    split at h
    · simpa only [List.mem_cons] using h
    · rcases List.mem_cons.1 h with rfl | h
      · exact Or.inl rfl
      · exact Or.inr (List.mem_cons_of_mem _ h)
    · rcases List.mem_cons.1 h with rfl | h
      · exact Or.inr List.mem_cons_self
      · exact (ih h).imp_right (List.mem_cons_of_mem _)

variable [Std.TransOrd α] [Std.LawfulEqOrd α]

theorem sorted_insertEntry (k : α) (v : β) {l : List (α × β)}
    (h : l.Pairwise fun a b => compare a.1 b.1 = .lt) :
    (insertEntry k v l).Pairwise fun a b => compare a.1 b.1 = .lt := by
  induction l with
  | nil => exact List.pairwise_singleton _ _
  | cons e r ih =>
    obtain ⟨hr, hs⟩ := List.pairwise_cons.1 h
    simp only [insertEntry]
    split
    · next hk =>
      refine List.pairwise_cons.2 ⟨fun a ha => ?_, h⟩
      rcases List.mem_cons.1 ha with rfl | ha
      · exact hk
      · exact Std.TransCmp.lt_trans hk (hr a ha)
    · next hk =>
      have hk : k = e.1 := Std.LawfulEqCmp.eq_of_compare hk
      exact List.pairwise_cons.2 ⟨fun a ha => hk ▸ hr a ha, hs⟩
    · next hk =>
      refine List.pairwise_cons.2 ⟨fun a ha => ?_, ih hs⟩
      -- an entry behind the first is the new one, which is greater, or one that was there before
      rcases mem_insertEntry ha with rfl | ha
      · exact Std.OrientedCmp.gt_iff_lt.1 hk
      · exact hr a ha

def empty : Table α β :=
  ⟨[], .nil⟩

/-- Maps `k` to `v`, whatever it was mapped to before. -/
def insert (k : α) (v : β) (t : Table α β) : Table α β :=
  ⟨insertEntry k v t.entries, sorted_insertEntry k v t.sorted⟩

/-- The value that `k` is mapped to. -/
def get? (t : Table α β) (k : α) : Option β :=
  (t.entries.find? fun e => compare k e.1 == .eq).map (·.2)

def contains (t : Table α β) (k : α) : Bool :=
  (t.get? k).isSome

def size (t : Table α β) : Nat :=
  t.entries.length

/-- The keys in increasing order. -/
def keys (t : Table α β) : List α :=
  t.entries.map (·.1)

/-- Maps each listed key to its value; of several values for one key the last one stays. -/
def insertAll (l : List (α × β)) (t : Table α β) : Table α β :=
  l.foldl (fun t e => t.insert e.1 e.2) t

/-- The table of a list of entries. -/
def ofList (l : List (α × β)) : Table α β :=
  empty.insertAll l

instance [DecidableEq α] [DecidableEq β] : DecidableEq (Table α β) := fun s t =>
  decidable_of_iff (s.entries = t.entries)
    ⟨fun h => by cases s; cases t; cases h; rfl, fun h => h ▸ rfl⟩

end Table

end Unstack
