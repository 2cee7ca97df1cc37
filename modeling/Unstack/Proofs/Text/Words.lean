import Unstack.Command
import Unstack.Proofs.Text.Hex
import Unstack.Proofs.Text.Split

/-!
# The words of a written line

A line that is written as a mnemonic with an operand behind a space has these two words. What reads as a number is one
word.
-/

namespace Unstack

namespace Text

/-- A text that is a single word. -/
structure IsWord (w : List Char) : Prop where
  ne_nil : w ≠ []
  not_blank : ∀ c ∈ w, isBlank c = false

instance (w : List Char) : Decidable (IsWord w) :=
  decidable_of_iff (w ≠ [] ∧ w.all (fun c => !isBlank c) = true)
    ⟨fun h => ⟨h.1, fun c hc => by simpa using List.all_eq_true.mp h.2 c hc⟩,
      fun h => ⟨h.1, List.all_eq_true.mpr fun c hc => by simpa using h.2 c hc⟩⟩

/-- A word ends where a blank or the end of the text follows. -/
theorem words_append {w : List Char} (hw : IsWord w) {rest : List Char} (hr : endsWord rest = true) :
    words (w ++ rest) = w :: words rest := by
  obtain ⟨hne, hb⟩ := hw
  induction w with
  | nil => exact absurd rfl hne
  | cons c w ih =>
      obtain ⟨hc, hb⟩ := List.forall_mem_cons.mp hb
      cases w with
      | nil => simp [words, hc, hr]
      | cons c' w =>
          have hc' : isBlank c' = false := hb c' List.mem_cons_self
          have hstep : words (c :: (c' :: w ++ rest)) = consFirst c (words (c' :: w ++ rest)) := by
            simp [words, hc, endsWord, hc']
          rw [List.cons_append, hstep, ih (List.cons_ne_nil _ _) hb]
          rfl

theorem words_of_isWord {w : List Char} (hw : IsWord w) : words w = [w] := by
  have h : words (w ++ []) = w :: words [] := words_append hw rfl
  rwa [List.append_nil] at h

theorem IsWord.cons {c : Char} {w : List Char} (hc : isBlank c = false) (hw : IsWord w) : IsWord (c :: w) :=
  ⟨List.cons_ne_nil c w, List.forall_mem_cons.mpr ⟨hc, hw.not_blank⟩⟩

/-- What holds of the characters of a text but the blanks holds of those of its words. -/
theorem forall_mem_words {P : Char → Prop} {s : List Char} (h : ∀ c ∈ s, isBlank c = false → P c) :
    ∀ w ∈ words s, ∀ c ∈ w, P c := by
  induction s with
  | nil => exact fun _ hw => absurd hw List.not_mem_nil
  | cons c s ih =>
      obtain ⟨hc, hs⟩ := List.forall_mem_cons.mp h
      simp only [words]
      split
      · exact ih hs
      · rename_i hb
        have hc : P c := hc (Bool.eq_false_iff.mpr hb)
        split
        · exact List.forall_mem_cons.mpr ⟨fun _ hc' => List.mem_singleton.mp hc' ▸ hc, ih hs⟩
        · exact forall_mem_consFirst hc (ih hs)

theorem isBlank_of_mem_words {s w : List Char} (h : w ∈ words s) : ∀ c ∈ w, isBlank c = false :=
  forall_mem_words (fun _ _ hc => hc) w h

theorem isWord_of_mem_words {s w : List Char} (h : w ∈ words s) : IsWord w := by
  refine ⟨?_, isBlank_of_mem_words h⟩
  induction s with
  | nil => cases h
  | cons c s ih =>
      simp only [words] at h
      split at h
      · exact ih h
      · split at h
        · rcases List.mem_cons.mp h with rfl | h
          · exact List.cons_ne_nil _ _
          · exact ih h
        · rcases mem_consFirst h with ⟨q, rfl⟩ | h
          · exact List.cons_ne_nil _ _
          · exact ih h

/-! ## Numbers -/

theorem digit?_of_isBlank {c : Char} (h : isBlank c = true) : Hex.digit? c = none := by
  simp only [isBlank, blankRanges, Ranges.has, Bool.and_eq_true, Bool.or_eq_true, decide_eq_true_eq,
    Bool.false_eq_true, or_false] at h
  have hle : ∀ a b : Char, a ≤ b ↔ a.toNat ≤ b.toNat := fun _ _ => UInt32.le_iff_toNat_le
  simp only [Hex.digit?, hle]
  rw [if_neg (by simp; omega), if_neg (by simp; omega), if_neg (by simp; omega)]

theorem isWord_of_value? {s : List Char} {n : Nat} (h : Hex.value? s = some n) : IsWord s := by
  cases s with
  | nil => cases h
  | cons c s =>
      refine ⟨List.cons_ne_nil c s, fun c' hc' => ?_⟩
      cases hb : isBlank c' with
      | false => rfl
      | true => exact absurd hc' (Hex.not_mem_of_digits? (digit?_of_isBlank hb) h)

theorem isWord_of_signed? {s : List Char} {v : Int} (h : Operand.signed? s = some v) : IsWord s := by
  unfold Operand.signed? at h
  split at h
  all_goals
    obtain ⟨_, hn, _⟩ := Option.map_eq_some_iff.mp h
    obtain ⟨n, hn, _⟩ := Option.bind_eq_some_iff.mp hn
  · exact .cons (by decide) (isWord_of_value? hn)
  · exact .cons (by decide) (isWord_of_value? hn)
  · exact isWord_of_value? hn

theorem isWord_of_read? {s : List Char} {v : Int} (h : Operand.read? s = some v) : IsWord s := by
  have hw := isWord_of_signed? (Option.filter_eq_some_iff.mp h).1
  unfold Operand.dropMark at hw
  split at hw
  · exact .cons (by decide) (.cons (by decide) hw)
  · exact .cons (by decide) (.cons (by decide) hw)
  · exact hw

end Text

namespace Command

open Text

/-! ## Lines with one operand -/

/-- The line with a mnemonic and an operand. -/
def written (mnemonic operand : String) : String :=
  mnemonic ++ " " ++ operand

theorem wordsOf_written {mnemonic operand : String} (hm : IsWord mnemonic.toList) (ho : IsWord operand.toList) :
    wordsOf (written mnemonic operand) = [mnemonic, operand] := by
  have hspace : words (" ".toList ++ operand.toList) = words operand.toList := by
    simp [words, show isBlank ' ' = true by decide]
  rw [wordsOf, written, String.toList_append, String.toList_append, List.append_assoc,
    words_append hm rfl, hspace, words_of_isWord ho]
  simp only [List.map_cons, List.map_nil, String.ofList_toList]

end Command

end Unstack
