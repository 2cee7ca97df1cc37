import Unstack.Text.Split

/-!
# Cutting a text in two

A text that is cut at each separator, or into its lines, may be cut in two at any one of them first. Where a text stops
at the first character of some kind, it can be told from what follows.
-/

namespace Unstack.Text

/-! ## Where a text stops -/

/-- Two texts without stops that are followed by stops end at the same place. -/
theorem append_inj_of_stops (stop : Char → Bool) {l l' r r' : List Char} (hl : ∀ c ∈ l, stop c = false)
    (hl' : ∀ c ∈ l', stop c = false) (hr : ∀ c, r.head? = some c → stop c = true)
    (hr' : ∀ c, r'.head? = some c → stop c = true) (h : l ++ r = l' ++ r') : l = l' ∧ r = r' := by
  have hstop : ∀ {c : Char} {s r : List Char}, stop c = false → (∀ c, r.head? = some c → stop c = true) →
      r ≠ c :: s := by
    rintro c s _ hc hr rfl
    rw [hr c rfl] at hc
    cases hc
  induction l generalizing l' with
  | nil =>
      cases l' with
      | nil => exact ⟨rfl, h⟩
      | cons c' l' => exact absurd h (hstop (hl' c' List.mem_cons_self) hr)
  | cons c l ih =>
      cases l' with
      | nil => exact absurd h.symm (hstop (hl c List.mem_cons_self) hr')
      | cons c' l' =>
          obtain ⟨rfl, hrest⟩ := List.cons.inj h
          obtain ⟨rfl, rfl⟩ := ih (fun c hc => hl c (List.mem_cons_of_mem _ hc))
            (fun c hc => hl' c (List.mem_cons_of_mem _ hc)) hrest
          exact ⟨rfl, rfl⟩

/-- Two texts without a separator that have it behind them end at the same place. -/
theorem append_cons_inj {sep : Char} {l l' r r' : List Char} (hl : sep ∉ l) (hl' : sep ∉ l')
    (h : l ++ sep :: r = l' ++ sep :: r') : l = l' ∧ r = r' := by
  have hstop : ∀ {l : List Char}, sep ∉ l → ∀ c ∈ l, decide (c = sep) = false :=
    fun hl c hc => decide_eq_false fun he => hl (he ▸ hc)
  have hsep : ∀ (r : List Char) (c : Char), (sep :: r).head? = some c → decide (c = sep) = true := by
    rintro r _ ⟨⟩
    exact decide_eq_true rfl
  obtain ⟨hfirst, hrest⟩ := append_inj_of_stops _ (hstop hl) (hstop hl') (hsep r) (hsep r') h
  exact ⟨hfirst, (List.cons.inj hrest).2⟩

/-! ## Pieces -/

theorem consFirst_ne_nil (c : Char) (l : List (List Char)) : consFirst c l ≠ [] := by
  cases l <;> exact List.cons_ne_nil _ _

theorem consFirst_append (c : Char) {l : List (List Char)} (h : l ≠ []) (l' : List (List Char)) :
    consFirst c (l ++ l') = consFirst c l ++ l' := by
  cases l with
  | nil => exact absurd rfl h
  | cons p ps => rfl

theorem mem_consFirst {c : Char} {l : List (List Char)} {p : List Char} (h : p ∈ consFirst c l) :
    (∃ q, p = c :: q) ∨ p ∈ l := by
  cases l with
  | nil => exact Or.inl ⟨[], List.mem_singleton.mp h⟩
  | cons q l => exact (List.mem_cons.mp h).imp (fun hp => ⟨q, hp⟩) (List.mem_cons_of_mem q)

/-- What holds of a character and of all in some pieces holds of all when it is put in front. -/
theorem forall_mem_consFirst {P : Char → Prop} {c : Char} {l : List (List Char)} (hc : P c)
    (hl : ∀ p ∈ l, ∀ x ∈ p, P x) : ∀ p ∈ consFirst c l, ∀ x ∈ p, P x := by
  cases l with
  | nil =>
      intro p hp x hx
      rw [consFirst, List.mem_singleton] at hp
      exact List.mem_singleton.mp (hp ▸ hx) ▸ hc
  | cons q l =>
      obtain ⟨hq, hl⟩ := List.forall_mem_cons.mp hl
      exact List.forall_mem_cons.mpr ⟨List.forall_mem_cons.mpr ⟨hc, hq⟩, hl⟩

/-! ## Separators -/

theorem splitOn_ne_nil (sep : Char) (s : List Char) : splitOn sep s ≠ [] := by
  cases s with
  | nil => exact List.cons_ne_nil _ _
  | cons c s =>
      simp only [splitOn]
      split
      · exact List.cons_ne_nil _ _
      · exact consFirst_ne_nil _ _

theorem splitOn_append (sep : Char) (s t : List Char) :
    splitOn sep (s ++ sep :: t) = splitOn sep s ++ splitOn sep t := by
  induction s with
  | nil => simp [splitOn]
  | cons c s ih =>
      simp only [List.cons_append, splitOn, ih]
      split
      · rfl
      · exact consFirst_append c (splitOn_ne_nil sep s) _

theorem splitOn_of_not_mem {sep : Char} {s : List Char} (h : sep ∉ s) : splitOn sep s = [s] := by
  induction s with
  | nil => rfl
  | cons c s ih =>
      rw [List.mem_cons, not_or] at h
      simp only [splitOn, Ne.symm h.1, ↓reduceIte, ih h.2]
      rfl

/-- What is put behind a text goes to its last piece. -/
theorem splitOn_append_of_not_mem {sep : Char} {r : List Char} (h : sep ∉ r) (s : List Char) :
    ∃ ps p, splitOn sep s = ps ++ [p] ∧ splitOn sep (s ++ r) = ps ++ [p ++ r] := by
  induction s with
  | nil => exact ⟨[], [], rfl, splitOn_of_not_mem h⟩
  | cons c s ih =>
      obtain ⟨ps, p, hs, hr⟩ := ih
      simp only [List.cons_append, splitOn, hs, hr]
      split
      · exact ⟨[] :: ps, p, rfl, rfl⟩
      · cases ps with
        | nil => exact ⟨[], c :: p, rfl, rfl⟩
        | cons q ps => exact ⟨(c :: q) :: ps, p, rfl, rfl⟩

/-- What is put in front of a text goes to its first piece. -/
theorem splitOn_prepend_of_not_mem {sep : Char} {l : List Char} (h : sep ∉ l) (s : List Char) :
    ∃ p ps, splitOn sep s = p :: ps ∧ splitOn sep (l ++ s) = (l ++ p) :: ps := by
  induction l with
  | nil =>
      obtain ⟨p, ps, hs⟩ := List.exists_cons_of_ne_nil (splitOn_ne_nil sep s)
      exact ⟨p, ps, hs, hs⟩
  | cons c l ih =>
      rw [List.mem_cons, not_or] at h
      obtain ⟨p, ps, hs, hl⟩ := ih h.2
      exact ⟨p, ps, hs, by simp only [List.cons_append, splitOn, Ne.symm h.1, ↓reduceIte, hl, consFirst]⟩

/-- Pieces without the separator that are put behind each other with it in between are found again. -/
theorem splitOn_flatMap {sep : Char} {p : List Char} {ps : List (List Char)} (h : ∀ q ∈ p :: ps, sep ∉ q) :
    splitOn sep (p ++ ps.flatMap (sep :: ·)) = p :: ps := by
  induction ps generalizing p with
  | nil => simpa using splitOn_of_not_mem (h p List.mem_cons_self)
  | cons q ps ih =>
      obtain ⟨hp, hps⟩ := List.forall_mem_cons.mp h
      rw [List.flatMap_cons, List.cons_append, splitOn_append, splitOn_of_not_mem hp, ih hps, List.singleton_append]

/-- What holds of the characters of a text but the separator holds of those of its pieces. -/
theorem forall_mem_splitOn {P : Char → Prop} {sep : Char} {s : List Char} (h : ∀ c ∈ s, c ≠ sep → P c) :
    ∀ p ∈ splitOn sep s, ∀ c ∈ p, P c := by
  induction s with
  | nil => simp [splitOn]
  | cons c s ih =>
      obtain ⟨hc, hs⟩ := List.forall_mem_cons.mp h
      simp only [splitOn]
      split
      · exact List.forall_mem_cons.mpr ⟨fun _ hc => absurd hc List.not_mem_nil, ih hs⟩
      · rename_i hne
        exact forall_mem_consFirst (hc hne) (ih hs)

theorem not_mem_of_mem_splitOn {sep : Char} {s p : List Char} (h : p ∈ splitOn sep s) : sep ∉ p :=
  fun hm => forall_mem_splitOn (fun _ _ hc => hc) p h sep hm rfl

/-! ## Lines -/

theorem lines_ne_nil {s : List Char} (h : s ≠ []) : lines s ≠ [] := by
  induction s with
  | nil => exact absurd rfl h
  | cons c s ih =>
      simp only [lines]
      split
      · exact List.cons_ne_nil _ _
      · split
        · rename_i hs
          refine ih fun hnil => ?_
          rw [hnil] at hs
          cases hs.2
        · exact consFirst_ne_nil _ _

/-- A newline cuts the lines of a text in two. -/
theorem lines_append (s t : List Char) : lines (s ++ '\n' :: t) = lines (s ++ ['\n']) ++ lines t := by
  induction s with
  | nil => rfl
  | cons c s ih =>
      have hhead : (s ++ '\n' :: t).head? = (s ++ ['\n']).head? := by
        cases s <;> rfl
      simp only [List.cons_append, lines, hhead, ih]
      split
      · rfl
      · split
        · rfl
        · exact consFirst_append c (lines_ne_nil (by simp)) _

theorem not_mem_of_mem_lines {s p : List Char} (h : p ∈ lines s) : '\n' ∉ p := by
  suffices hall : ∀ p ∈ lines s, ∀ c ∈ p, c ≠ '\n' from fun hm => hall p h '\n' hm rfl
  clear h
  induction s with
  | nil => simp [lines]
  | cons c s ih =>
      simp only [lines]
      split
      · exact List.forall_mem_cons.mpr ⟨fun _ hc => absurd hc List.not_mem_nil, ih⟩
      · rename_i hc
        split
        · exact ih
        · exact forall_mem_consFirst hc ih

/-- A text up to a newline is one line, but for a carriage return at its end. -/
theorem exists_line {s : List Char} (h : '\n' ∉ s) :
    ∃ p, lines (s ++ ['\n']) = [p] ∧ (s = p ∨ s = p ++ ['\r']) := by
  induction s with
  | nil => exact ⟨[], rfl, Or.inl rfl⟩
  | cons c s ih =>
      rw [List.mem_cons, not_or] at h
      obtain ⟨p, hp, hs⟩ := ih h.2
      simp only [List.cons_append, lines, Ne.symm h.1, ↓reduceIte, hp]
      split
      · rename_i hc
        -- a carriage return goes with the newline only if it is the last character before it
        cases s with
        | nil =>
            obtain rfl : [] = p := by simpa using hs
            exact ⟨[], rfl, Or.inr (by rw [hc.1, List.nil_append])⟩
        | cons c' s =>
            obtain rfl : c' = '\n' := Option.some.inj hc.2
            exact absurd List.mem_cons_self h.2
      · exact ⟨c :: p, rfl, hs.imp (congrArg (c :: ·)) (congrArg (c :: ·))⟩

theorem lines_last {s : List Char} (hne : s ≠ []) (h : '\n' ∉ s) : lines s = [s] := by
  induction s with
  | nil => exact absurd rfl hne
  | cons c s ih =>
      rw [List.mem_cons, not_or] at h
      have hhead : s.head? ≠ some '\n' := fun he => h.2 (List.mem_of_mem_head? he)
      simp only [lines, Ne.symm h.1, ↓reduceIte, hhead, and_false]
      cases s with
      | nil => rfl
      | cons c' s => rw [ih (List.cons_ne_nil _ _) h.2, consFirst]

theorem lines_of_not_mem {s : List Char} (hn : '\n' ∉ s) (hr : '\r' ∉ s) : lines (s ++ ['\n']) = [s] := by
  induction s with
  | nil => rfl
  | cons c s ih =>
      rw [List.mem_cons, not_or] at hn hr
      simp only [List.cons_append, lines, Ne.symm hn.1, Ne.symm hr.1, false_and, ↓reduceIte, ih hn.2 hr.2]
      rfl

end Unstack.Text
