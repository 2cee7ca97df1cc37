import Mathlib.Data.List.Forall2
import Unstack.Proofs.Text.Trim

/-!
# Spacing

Lines with other blanks between their words have the same words (`words_of_spaced`), and a text with other line endings,
or with blanks put behind its lines, has the same lines but for the blanks at their ends (`map_trimEnd_of_trailed`,
`map_trimEnd_lines_concat`).
-/

namespace Unstack.Text

/-! ## Words and blanks -/

/-- A line that has these words, with any blanks around them and at least one between two of them. -/
inductive Spaced : List (List Char) → List Char → Prop where
  | nil {blanks} (hb : Blank blanks) : Spaced [] blanks
  | cons {lead w rest ws} (hl : Blank lead) (hw : IsWord w) (hsep : endsWord rest = true) (h : Spaced ws rest) :
      Spaced (w :: ws) (lead ++ w ++ rest)

/-- Two texts with as many newlines, and the same words on both sides of each. -/
def Respaced (s t : List Char) : Prop :=
  List.Forall₂ (fun line line' => ∃ ws, Spaced ws line ∧ Spaced ws line') (splitOn '\n' s) (splitOn '\n' t)

theorem words_of_blank {s : List Char} (h : Blank s) : words s = [] := by
  have hwords := words_append_of_blank h []
  rwa [List.append_nil] at hwords

theorem words_of_spaced {ws : List (List Char)} {line : List Char} (h : Spaced ws line) : words line = ws := by
  induction h with
  | nil hb => exact words_of_blank hb
  | cons hl hw hsep _ ih => rw [List.append_assoc, words_append_of_blank hl, words_append hw hsep, ih]

theorem Spaced.blank_cons {c : Char} {ws : List (List Char)} {line : List Char} (hc : isBlank c = true)
    (h : Spaced ws line) : Spaced ws (c :: line) := by
  cases h with
  | nil hb => exact .nil (List.forall_mem_cons.mpr ⟨hc, hb⟩)
  | @cons lead w rest ws hl hw hsep h =>
      exact @Spaced.cons (c :: lead) w rest ws (List.forall_mem_cons.mpr ⟨hc, hl⟩) hw hsep h

theorem spaced_words (line : List Char) : Spaced (words line) line := by
  induction line with
  | nil => exact .nil .nil
  | cons c line ih =>
      simp only [words]
      split
      · rename_i hc
        exact ih.blank_cons hc
      · rename_i hc
        rw [Bool.not_eq_true] at hc
        split
        · rename_i hend
          have hword : IsWord [c] := ⟨List.cons_ne_nil _ _, by simpa using hc⟩
          exact @Spaced.cons [] [c] line _ .nil hword hend ih
        · rename_i hend
          -- the line goes on with the word that the character is put in front of
          generalize words line = ws at ih
          cases ih with
          | nil hb =>
              cases line with
              | nil => exact absurd rfl hend
              | cons c' line => exact absurd (hb c' List.mem_cons_self) hend
          | @cons lead w rest ws hl hw hsep h =>
              cases lead with
              | nil => exact @Spaced.cons [] (c :: w) rest ws .nil (hw.cons hc) hsep h
              | cons c' lead => exact absurd (hl c' List.mem_cons_self) hend

theorem respaced_iff {s t : List Char} : Respaced s t ↔ (splitOn '\n' s).map words = (splitOn '\n' t).map words := by
  rw [Respaced, ← List.forall₂_eq_eq_eq, List.forall₂_map_left_iff, List.forall₂_map_right_iff]
  have hline : ∀ line line', (∃ ws, Spaced ws line ∧ Spaced ws line') ↔ words line = words line' := by
    intro line line'
    constructor
    · rintro ⟨ws, h, h'⟩
      rw [words_of_spaced h, words_of_spaced h']
    · intro h
      exact ⟨words line, spaced_words line, h ▸ spaced_words line'⟩
  simp only [hline]

theorem words_append_blank {r : List Char} (hr : Blank r) (s : List Char) : words (s ++ r) = words s := by
  have hend : endsWord r = true := by
    cases r with
    | nil => rfl
    | cons c r => exact hr c List.mem_cons_self
  induction s with
  | nil => exact words_of_blank hr
  | cons c s ih =>
      have hends : endsWord (s ++ r) = endsWord s := by
        cases s with
        | nil => exact hend
        | cons c' s => rfl
      simp only [List.cons_append, words, hends, ih]

theorem words_trimEnd (s : List Char) : words (trimEnd s) = words s := by
  obtain ⟨blanks, hs, hb, _⟩ := exists_trimEnd s
  conv_rhs => rw [hs, words_append_blank hb]

/-! ## Line by line -/

/-- A text is a line, or a line that ends in a newline in front of a text. -/
theorem line_induction {P : List Char → Prop} (last : ∀ line, '\n' ∉ line → P line)
    (line : ∀ line rest, '\n' ∉ line → P rest → P (line ++ '\n' :: rest)) (s : List Char) : P s := by
  suffices hall : ∀ pending, '\n' ∉ pending → P (pending ++ s) from hall [] List.not_mem_nil
  induction s with
  | nil =>
      intro pending hp
      rw [List.append_nil]
      exact last pending hp
  | cons c s ih =>
      intro pending hp
      by_cases hc : c = '\n'
      · rw [hc]
        exact line pending s hp (ih [] List.not_mem_nil)
      · rw [List.append_cons]
        exact ih (pending ++ [c]) (by simp [hp, Ne.symm hc])

theorem blank_return : Blank ['\r'] := by
  decide

/-- Line endings do not show in what is read off each line after its trailing blanks are gone. -/
theorem exists_line_trimEnd {line : List Char} (h : '\n' ∉ line) (rest : List Char) :
    ∃ p, lines (line ++ '\n' :: rest) = p :: lines rest ∧ trimEnd p = trimEnd line ∧ words p = words line := by
  obtain ⟨p, hp, hline⟩ := exists_line h
  refine ⟨p, by rw [lines_append, hp, List.singleton_append], ?_⟩
  rcases hline with rfl | rfl
  · exact ⟨rfl, rfl⟩
  · exact ⟨(trimEnd_append blank_return p).symm, (words_append_blank blank_return p).symm⟩

/-- Cut at its newlines a text has the words of its lines, line by line, but for a last piece without words. -/
theorem map_words_splitOn (s : List Char) :
    (splitOn '\n' s).map words = (lines s).map words ∨ (splitOn '\n' s).map words = (lines s).map words ++ [[]] := by
  induction s using line_induction with
  | last line hl =>
      rw [splitOn_of_not_mem hl]
      by_cases hne : line = []
      · subst hne
        exact Or.inr rfl
      · exact Or.inl (by rw [lines_last hne hl])
  | line line rest hl ih =>
      obtain ⟨p, hp, _, hwords⟩ := exists_line_trimEnd hl rest
      rw [splitOn_append, splitOn_of_not_mem hl, List.singleton_append, hp, List.map_cons, List.map_cons, hwords,
        List.cons_append, List.cons.injEq, List.cons.injEq]
      exact ih.imp (fun h => ⟨rfl, h⟩) fun h => ⟨rfl, h⟩

/-! ## Ends of lines -/

/-- The second text is the first one with blanks put behind some lines. Behind a line is in front of its newline, or of
the carriage return before it, or at the end of a text that does not end in a newline. -/
inductive Trailed : List Char → List Char → Prop where
  | nil : Trailed [] []
  | last {line blanks} (hne : line ≠ []) (hl : '\n' ∉ line) (hb : Blank blanks) (hn : '\n' ∉ blanks) :
      Trailed line (line ++ blanks)
  | line {line blanks ending rest rest'} (hl : '\n' ∉ line) (hb : Blank blanks) (hn : '\n' ∉ blanks)
      (he : ending = [] ∨ ending = ['\r']) (h : Trailed rest rest') :
      Trailed (line ++ ending ++ '\n' :: rest) (line ++ blanks ++ ending ++ '\n' :: rest')

theorem map_trimEnd_of_trailed {s t : List Char} (h : Trailed s t) :
    (lines t).map trimEnd = (lines s).map trimEnd := by
  induction h with
  | nil => rfl
  | @last line blanks hne hl hb hn =>
      have hne' : line ++ blanks ≠ [] := List.append_ne_nil_of_left_ne_nil hne blanks
      rw [lines_last hne hl, lines_last hne' (by simp [hl, hn]), List.map_singleton, List.map_singleton,
        trimEnd_append hb]
  | @line line blanks ending rest rest' hl hb hn he _ ih =>
      have hends : Blank ending ∧ '\n' ∉ ending := by
        rcases he with rfl | rfl
        · exact ⟨.nil, List.not_mem_nil⟩
        · exact ⟨blank_return, by decide⟩
      have hline : '\n' ∉ line ++ ending := by simp [hl, hends.2]
      have hline' : '\n' ∉ line ++ blanks ++ ending := by simp [hl, hn, hends.2]
      obtain ⟨p, hp, htrim, _⟩ := exists_line_trimEnd hline rest
      obtain ⟨p', hp', htrim', _⟩ := exists_line_trimEnd hline' rest'
      rw [hp, hp', List.map_cons, List.map_cons, ih, htrim, htrim', trimEnd_append hends.1, trimEnd_append hends.1,
        trimEnd_append hb]

/-- The text with a carriage return in front of every newline. -/
def crlf (s : List Char) : List Char :=
  s.flatMap fun c => if c = '\n' then ['\r', '\n'] else [c]

theorem crlf_of_not_mem {s : List Char} (h : '\n' ∉ s) : crlf s = s := by
  induction s with
  | nil => rfl
  | cons c s ih =>
      rw [List.mem_cons, not_or] at h
      rw [crlf, List.flatMap_cons, if_neg (Ne.symm h.1)]
      exact congrArg (c :: ·) (ih h.2)

theorem trailed_crlf (s : List Char) : Trailed s (crlf s) := by
  induction s using line_induction with
  | last line hl =>
      rw [crlf_of_not_mem hl]
      by_cases hne : line = []
      · subst hne
        exact .nil
      · have h : Trailed line (line ++ []) := .last hne hl .nil List.not_mem_nil
        rwa [List.append_nil] at h
  | line line rest hl ih =>
      have hcrlf : crlf (line ++ '\n' :: rest) = line ++ ['\r'] ++ [] ++ '\n' :: crlf rest := by
        rw [crlf, List.flatMap_append, ← crlf, crlf_of_not_mem hl]
        simp [crlf]
      have h : Trailed (line ++ [] ++ '\n' :: rest) (line ++ ['\r'] ++ [] ++ '\n' :: crlf rest) :=
        .line hl blank_return (by decide) (Or.inl rfl) ih
      rwa [List.append_nil, ← hcrlf] at h

/-- A newline at the end of a text that has none there does not add a line. -/
theorem map_trimEnd_lines_concat {s : List Char} (hne : s ≠ []) (hlast : s.getLast? ≠ some '\n') :
    (lines (s ++ ['\n'])).map trimEnd = (lines s).map trimEnd := by
  induction s using line_induction with
  | last line hl =>
      obtain ⟨p, hp, htrim, _⟩ := exists_line_trimEnd hl []
      rw [hp, lines_last hne hl, List.map_cons, htrim]
      rfl
  | line line rest hl ih =>
      have hrest : rest ≠ [] := by
        rintro rfl
        exact hlast List.getLast?_concat
      rw [List.getLast?_append_of_ne_nil _ (List.cons_ne_nil _ _), List.getLast?_cons_of_ne_nil hrest] at hlast
      rw [List.append_assoc, List.cons_append, lines_append, lines_append line rest, List.map_append, List.map_append,
        ih hrest hlast]

end Unstack.Text
