import Unstack.FileSystem.Path
import Unstack.Proofs.Text.Split

/-!
# The last step of a path

A name that is put behind a directory is the last step of the path. A path whose last step is a name ends in that name,
and what stands in front of an extension is the stem.
-/

namespace Unstack.Path

/-- A text that can be one step of a path. -/
structure IsStep (name : String) : Prop where
  ne_empty : name ≠ ""
  no_slash : '/' ∉ name.toList

theorem isStep_of_mem_steps {path name : String} (h : name ∈ steps path) : IsStep name := by
  obtain ⟨s, hs, rfl⟩ := List.mem_map.mp h
  obtain ⟨hs, hne⟩ := List.mem_filter.mp hs
  rw [Bool.not_eq_true', List.isEmpty_eq_false_iff] at hne
  refine ⟨fun he => hne (String.ofList_eq_empty_iff.mp he), ?_⟩
  rw [String.toList_ofList]
  exact Text.not_mem_of_mem_splitOn hs

theorem IsStep.append {name : String} (h : IsStep name) (extension : String) (he : '/' ∉ extension.toList) :
    IsStep (name ++ extension) := by
  refine ⟨fun hn => h.ne_empty ?_, ?_⟩
  · exact (String.append_eq_empty_iff.mp hn).1
  · rw [String.toList_append, List.mem_append, not_or]
    exact ⟨h.no_slash, he⟩

theorem steps_of_toList {path name : String} {dir : List Char} (h : IsStep name)
    (hp : path.toList = dir ++ '/' :: name.toList) : steps path = steps (String.ofList dir) ++ [name] := by
  have hne : name.toList.isEmpty = false := by
    rw [List.isEmpty_eq_false_iff]
    exact fun he => h.ne_empty (String.toList_eq_nil_iff.mp he)
  rw [steps, hp, Text.splitOn_append, Text.splitOn_of_not_mem h.no_slash, List.filter_append, List.map_append,
    List.filter_cons_of_pos (by simp [hne]), List.filter_nil, List.map_singleton, String.ofList_toList, steps,
    String.toList_ofList]

theorem getLast?_steps_join (dir : String) {name : String} (h : IsStep name) :
    (steps (join dir name)).getLast? = some name := by
  obtain ⟨front, hf⟩ : ∃ front, (join dir name).toList = front ++ '/' :: name.toList := by
    rw [join]
    split
    · rename_i hs
      obtain ⟨front, hf⟩ := List.getLast?_eq_some_iff.mp (eq_of_beq hs)
      exact ⟨front, by rw [String.toList_append, hf, List.append_assoc, List.singleton_append]⟩
    · exact ⟨dir.toList, by simp⟩
  rw [steps_of_toList h hf, List.getLast?_concat]

/-! ## The name at the end -/

theorem mem_of_mem_components {absolute : Bool} {l : List String} {step : String} (h : step ∈ components absolute l) :
    step ∈ l := by
  cases l with
  | nil => simp [components] at h
  | cons first rest =>
      simp only [components] at h
      split at h
      · rcases List.mem_cons.mp h with rfl | h
        · exact List.mem_cons_self
        · exact List.mem_cons_of_mem _ (List.mem_filter.mp h).1
      · exact (List.mem_filter.mp h).1

theorem isStep_of_fileName? {path name : String} (h : fileName? path = some name) : IsStep name := by
  have hlast := (Option.filter_eq_some_iff.mp h).1
  exact isStep_of_mem_steps (mem_of_mem_components (List.mem_of_getLast? hlast))

theorem getLast?_components (absolute : Bool) {l : List String} {name : String} (h : l.getLast? = some name)
    (hn : name ≠ ".") : (components absolute l).getLast? = some name := by
  have hfilter : ∀ l : List String, l.getLast? = some name → (l.filter (· ≠ ".")).getLast? = some name := by
    intro l hl
    obtain ⟨front, rfl⟩ := List.getLast?_eq_some_iff.mp hl
    rw [List.filter_append, List.filter_cons_of_pos (by simpa using hn), List.filter_nil, List.getLast?_concat]
  cases l with
  | nil => cases h
  | cons first rest =>
      simp only [components]
      split
      · rename_i hfirst
        cases rest with
        | nil =>
            obtain rfl : first = name := by simpa using h
            exact absurd hfirst.1 hn
        | cons second rest =>
            rw [List.getLast?_cons_cons] at h
            rw [List.getLast?_cons, hfilter _ h]
            rfl
      · exact hfilter _ h

theorem fileName?_of_getLast? {path name : String} (h : (steps path).getLast? = some name) (hd : name ≠ ".")
    (hdd : name ≠ "..") : fileName? path = some name := by
  rw [fileName?, getLast?_components _ h hd, Option.filter_some, if_pos (by simp [hd, hdd])]

/-! ## Stems -/

theorem isStep_stem {name : String} (h : IsStep name) : IsStep (stem name) := by
  have hsuffix := List.dropWhile_suffix (fun c => decide (c ≠ '.')) (l := name.toList.reverse)
  simp only [stem]
  split
  · exact h
  · exact h
  · rename_i dot r hne hr
    rw [hr] at hsuffix
    refine ⟨fun he => ?_, ?_⟩
    · have hnil : r = [] := List.reverse_eq_nil_iff.mp (String.ofList_eq_empty_iff.mp he)
      exact hne hnil
    · rw [String.toList_ofList, List.mem_reverse]
      intro hmem
      exact h.no_slash (List.mem_reverse.mp (hsuffix.subset (List.mem_cons_of_mem _ hmem)))

theorem stem_append_extension {name : String} (h : name ≠ "") : stem (name ++ ".pseudo") = name := by
  have hr : (name ++ ".pseudo").toList.reverse = ['o', 'd', 'u', 'e', 's', 'p'] ++ '.' :: name.toList.reverse := by simp
  have hdrop : (name ++ ".pseudo").toList.reverse.dropWhile (fun c => decide (c ≠ '.')) =
      '.' :: name.toList.reverse := by
    rw [hr, List.dropWhile_append_of_pos (by simp)]
    rfl
  have hne : name.toList.reverse ≠ [] :=
    fun he => h (String.toList_eq_nil_iff.mp (List.reverse_eq_nil_iff.mp he))
  obtain ⟨c, r, hcr⟩ := List.exists_cons_of_ne_nil hne
  simp only [stem, hdrop, hcr]
  rw [← hcr, List.reverse_reverse, String.ofList_toList]

end Unstack.Path
