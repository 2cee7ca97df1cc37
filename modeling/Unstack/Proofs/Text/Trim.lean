import Mathlib.Data.List.DropRight
import Unstack.Proofs.Text.Words

/-!
# Blanks at the ends of a text

Trimming takes the blanks off and nothing else. Neither the words of a text nor its trimmed pieces depend on the blanks
around it.
-/

namespace Unstack.Text

variable {s l r : List Char}

/-- There is nothing but blanks in the text. -/
def Blank (s : List Char) : Prop :=
  ∀ c ∈ s, isBlank c = true

/-- A text that does not end in a blank. -/
def EndsSolid (s : List Char) : Prop :=
  ∀ c ∈ s.getLast?, isBlank c = false

/-- A text that neither starts nor ends with a blank. -/
def Solid (s : List Char) : Prop :=
  (∀ c ∈ s.head?, isBlank c = false) ∧ EndsSolid s

instance (s : List Char) : Decidable (Blank s) :=
  decidable_of_iff (s.all isBlank = true) List.all_eq_true

instance (s : List Char) : Decidable (Solid s) :=
  decidable_of_iff ((s.head?.all (!isBlank ·) && s.getLast?.all (!isBlank ·)) = true) <| by
    simp [Solid, EndsSolid, Option.all_eq_true]

theorem Blank.nil : Blank [] :=
  fun _ hc => absurd hc List.not_mem_nil

theorem IsWord.solid {w : List Char} (h : IsWord w) : Solid w :=
  ⟨fun _ hc => h.not_blank _ (List.mem_of_mem_head? hc), fun _ hc => h.not_blank _ (List.mem_of_mem_getLast? hc)⟩

theorem IsWord.solid_append {v w : List Char} (hv : IsWord v) (hw : IsWord w) (s : List Char) : Solid (v ++ s ++ w) := by
  refine ⟨fun c hc => ?_, fun c hc => ?_⟩
  · rw [List.append_assoc, List.head?_append_of_ne_nil _ hv.ne_nil] at hc
    exact hv.solid.1 c hc
  · rw [List.getLast?_append_of_ne_nil _ hw.ne_nil] at hc
    exact hw.solid.2 c hc

/-! ## What trimming leaves -/

theorem dropWhile_isBlank_of_head (h : ∀ c ∈ s.head?, isBlank c = false) : s.dropWhile isBlank = s := by
  cases s with
  | nil => rfl
  | cons c s => rw [List.dropWhile_cons_of_neg (Bool.eq_false_iff.mp (h c rfl))]

theorem trimStart_append (hl : Blank l) (s : List Char) : trimStart (l ++ s) = trimStart s :=
  List.dropWhile_append_of_pos hl

theorem trimEnd_append (hr : Blank r) (s : List Char) : trimEnd (s ++ r) = trimEnd s := by
  have hr' : ∀ c ∈ r.reverse, isBlank c = true := fun c hc => hr c (List.mem_reverse.mp hc)
  rw [trimEnd, List.reverse_append, List.dropWhile_append_of_pos hr', trimEnd]

theorem trimEnd_of_endsSolid (h : EndsSolid s) : trimEnd s = s := by
  have hs : ∀ c ∈ s.reverse.head?, isBlank c = false := by
    rw [List.head?_reverse]
    exact h
  rw [trimEnd, dropWhile_isBlank_of_head hs, List.reverse_reverse]

theorem trim_of_solid (h : Solid s) : trim s = s := by
  rw [trim, trimStart, dropWhile_isBlank_of_head h.1, trimEnd_of_endsSolid h.2]

theorem trim_padded (hl : Blank l) (hr : Blank r) (s : List Char) : trim (l ++ s ++ r) = trim s := by
  rw [trim, trim, List.append_assoc, trimStart_append hl]
  rw [trimStart, List.dropWhile_append]
  split
  · rename_i hs
    rw [List.isEmpty_iff] at hs
    rw [trimStart, hs, List.dropWhile_eq_nil_iff.mpr hr]
  · rw [trimEnd_append hr, trimStart]

theorem trim_trimStart (s : List Char) : trim (trimStart s) = trim s := by
  rw [trim, trimStart, trimStart, List.dropWhile_idempotent, trim, trimStart]

/-- What is left of a text does not end in a blank, and only blanks are gone. -/
theorem exists_trimEnd (s : List Char) : ∃ blanks, s = trimEnd s ++ blanks ∧ Blank blanks ∧ EndsSolid (trimEnd s) := by
  refine ⟨(s.reverse.takeWhile isBlank).reverse, ?_, ?_, ?_⟩
  · rw [trimEnd, ← List.reverse_append, List.takeWhile_append_dropWhile, List.reverse_reverse]
  · exact fun c hc => List.mem_takeWhile_imp (List.mem_reverse.mp hc)
  · intro c hc
    have hstop := List.head?_dropWhile_not isBlank s.reverse
    rw [trimEnd, List.getLast?_reverse, Option.mem_def] at hc
    rwa [hc] at hstop

theorem trimEnd_append_cons {c : Char} (hc : isBlank c = false) (s t : List Char) :
    trimEnd (s ++ c :: t) = s ++ c :: trimEnd t := by
  obtain ⟨blanks, ht, hblanks, hends⟩ := exists_trimEnd t
  have hs : EndsSolid (s ++ c :: trimEnd t) := by
    intro c' hc'
    rw [List.getLast?_append, List.getLast?_cons, Option.some_or, Option.mem_some_iff] at hc'
    cases hlast : (trimEnd t).getLast? with
    | none => rwa [← hc', hlast]
    | some c'' => exact hends c' (by rw [← hc', hlast]; rfl)
  calc trimEnd (s ++ c :: t)
    _ = trimEnd (s ++ c :: trimEnd t ++ blanks) := by rw [List.append_assoc, List.cons_append, ← ht]
    _ = s ++ c :: trimEnd t := by rw [trimEnd_append hblanks, trimEnd_of_endsSolid hs]

theorem trimStart_append_cons {c : Char} (hc : isBlank c = false) (s t : List Char) :
    trimStart (s ++ c :: t) = trimStart s ++ c :: t := by
  rw [trimStart, trimStart, List.dropWhile_append, List.dropWhile_cons_of_neg (Bool.eq_false_iff.mp hc)]
  split
  · rename_i hs
    rw [List.isEmpty_iff.mp hs, List.nil_append]
  · rfl

theorem trim_append_cons {c : Char} (hc : isBlank c = false) (s t : List Char) :
    trim (s ++ c :: t) = trimStart s ++ c :: trimEnd t := by
  rw [trim, trimStart_append_cons hc, trimEnd_append_cons hc]

theorem trimStart_of_blank (hs : Blank s) : trimStart s = [] :=
  List.dropWhile_eq_nil_iff.mpr hs

theorem not_mem_trimEnd {c : Char} (h : c ∉ s) : c ∉ trimEnd s := by
  obtain ⟨blanks, hs, _⟩ := exists_trimEnd s
  exact fun hm => h (hs ▸ List.mem_append_left _ hm)

theorem exists_trim (s : List Char) : ∃ l r, s = l ++ trim s ++ r ∧ Blank l ∧ Blank r := by
  obtain ⟨r, hs, hr, _⟩ := exists_trimEnd (trimStart s)
  refine ⟨s.takeWhile isBlank, r, ?_, fun c hc => List.mem_takeWhile_imp hc, hr⟩
  rw [List.append_assoc, trim, ← hs, trimStart, List.takeWhile_append_dropWhile]

theorem trim_subset (s : List Char) : trim s ⊆ s := by
  obtain ⟨l, r, hs, _⟩ := exists_trim s
  intro c hc
  rw [hs]
  exact List.mem_append_left r (List.mem_append_right l hc)

theorem solid_trim (s : List Char) : Solid (trim s) := by
  obtain ⟨blanks, hs, _, hends⟩ := exists_trimEnd (trimStart s)
  refine ⟨fun c hc => ?_, hends⟩
  have hstop := List.head?_dropWhile_not isBlank s
  rw [trim, Option.mem_def] at hc
  have hhead : (s.dropWhile isBlank).head? = some c := by
    rw [← trimStart, hs, List.head?_append, hc, Option.some_or]
  rwa [hhead] at hstop

/-! ## Pieces and words -/

/-- Blanks around a text that is cut at a separator are blanks around the pieces. -/
theorem map_trim_splitOn_trim {sep : Char} (hsep : isBlank sep = false) (s : List Char) :
    (splitOn sep (trim s)).map trim = (splitOn sep s).map trim := by
  have hblank : ∀ {l : List Char}, Blank l → sep ∉ l := fun hl hm => by simp [hl sep hm] at hsep
  obtain ⟨l, r, hs, hl, hr⟩ := exists_trim s
  obtain ⟨ps, p, hp, hp'⟩ := splitOn_append_of_not_mem (hblank hr) (trim s)
  obtain ⟨q, qs, hq, hq'⟩ := splitOn_prepend_of_not_mem (hblank hl) (trim s ++ r)
  calc (splitOn sep (trim s)).map trim
    _ = (splitOn sep (trim s ++ r)).map trim := by
        rw [hp, hp', List.map_append, List.map_append]
        exact congrArg (fun t => _ ++ [t]) (trim_padded .nil hr p).symm
    _ = (splitOn sep s).map trim := by
        conv_rhs => rw [hs]
        rw [List.append_assoc, hq, hq', List.map_cons, List.map_cons]
        have hq := trim_padded hl .nil q
        rw [List.append_nil] at hq
        rw [hq]

theorem words_append_of_blank (hl : Blank l) (s : List Char) : words (l ++ s) = words s := by
  induction l with
  | nil => rfl
  | cons c l ih =>
      obtain ⟨hc, hl⟩ := List.forall_mem_cons.mp hl
      simp only [List.cons_append, words, hc, ↓reduceIte, ih hl]

end Unstack.Text
