import Unstack.Proofs.Text.Split
import Unstack.Script

/-!
# The lines of a text

A text without line breaks that is put behind whole lines, with a newline at its end, is the last line. Lines without
line breaks can be told from the text that they make up.
-/

namespace Unstack

/-! ## Texts of whole lines -/

/-- What follows the text starts a line. -/
def EndsLine (text : String) : Prop :=
  text = "" ∨ text.toList.getLast? = some '\n'

instance (text : String) : Decidable (EndsLine text) :=
  inferInstanceAs (Decidable (_ ∨ _))

theorem endsLine_newline (text : String) : EndsLine (text ++ "\n") := by
  refine Or.inr ?_
  rw [String.toList_append]
  exact List.getLast?_concat

theorem EndsLine.append {front back : String} (hf : EndsLine front) (hb : EndsLine back) :
    EndsLine (front ++ back) := by
  rcases hb with rfl | hb
  · rwa [String.append_empty]
  · refine Or.inr ?_
    rw [String.toList_append, List.getLast?_append, hb]
    rfl

theorem EndsLine.join {l : List String} (h : ∀ text ∈ l, EndsLine text) : EndsLine (String.join l) := by
  induction l with
  | nil => exact Or.inl rfl
  | cons text l ih =>
      obtain ⟨ht, hl⟩ := List.forall_mem_cons.mp h
      rw [String.join_cons]
      exact ht.append (ih hl)

/-- Lines without newlines that make up the same text are the same. -/
theorem eq_of_join_eq {l l' : List String} (hl : ∀ line ∈ l, '\n' ∉ line.toList)
    (hl' : ∀ line ∈ l', '\n' ∉ line.toList)
    (h : String.join (l.map (· ++ "\n")) = String.join (l'.map (· ++ "\n"))) : l = l' := by
  induction l generalizing l' with
  | nil =>
      cases l' with
      | nil => rfl
      | cons line' l' => simp [String.join_cons] at h
  | cons line l ih =>
      cases l' with
      | nil => simp [String.join_cons] at h
      | cons line' l' =>
          obtain ⟨hline, hl⟩ := List.forall_mem_cons.mp hl
          obtain ⟨hline', hl'⟩ := List.forall_mem_cons.mp hl'
          rw [List.map_cons, List.map_cons, String.join_cons, String.join_cons, String.append_assoc,
            String.append_assoc, ← String.toList_inj] at h
          simp only [String.toList_append] at h
          obtain ⟨hfirst, hrest⟩ := Text.append_cons_inj hline hline' h
          rw [String.toList_inj.mp hfirst, ih hl hl' (String.toList_inj.mp hrest)]

theorem Script.newline_not_mem_sourceLines {source line : String} (h : line ∈ sourceLines source) :
    '\n' ∉ line.toList := by
  obtain ⟨p, hp, rfl⟩ := List.mem_map.mp h
  rw [String.toList_ofList]
  exact Text.not_mem_of_mem_lines hp

/-- A text that is made up of lines has as many. -/
theorem Script.length_sourceLines_join {l : List String} (hl : ∀ line ∈ l, '\n' ∉ line.toList) :
    (sourceLines (String.join (l.map (· ++ "\n")))).length = l.length := by
  rw [sourceLines, List.length_map]
  induction l with
  | nil => rfl
  | cons line l ih =>
      obtain ⟨hline, hl⟩ := List.forall_mem_cons.mp hl
      obtain ⟨p, hp, _⟩ := Text.exists_line hline
      have hsplit : (String.join ((line :: l).map (· ++ "\n"))).toList =
          line.toList ++ '\n' :: (String.join (l.map (· ++ "\n"))).toList := by
        simp [String.join_cons]
      rw [hsplit, Text.lines_append, hp, List.length_append, ih hl, List.length_singleton, List.length_cons,
        Nat.add_comm]

theorem Script.getLast?_sourceLines {front text : String} (hf : EndsLine front) (hn : '\n' ∉ text.toList)
    (hr : '\r' ∉ text.toList) : (sourceLines (front ++ (text ++ "\n"))).getLast? = some text := by
  have htext : Text.lines (text.toList ++ ['\n']) = [text.toList] := Text.lines_of_not_mem hn hr
  rw [sourceLines, List.getLast?_map, String.toList_append, String.toList_append]
  rcases hf with rfl | hf
  · show (Text.lines (text.toList ++ ['\n'])).getLast?.map _ = _
    simp [htext]
  · obtain ⟨l, hl⟩ := List.getLast?_eq_some_iff.mp hf
    rw [hl, List.append_assoc, List.singleton_append, Text.lines_append]
    show (_ ++ Text.lines (text.toList ++ ['\n'])).getLast?.map _ = _
    simp [htext]

end Unstack
