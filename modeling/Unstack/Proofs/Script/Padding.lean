import Mathlib.Order.Monotone.Basic
import Unstack.Proofs.Script.Relocation

/-!
# Lines between lines

Blank lines and comments do nothing but take up addresses. Between the lines of a disassembly, with every jump naming
the address at which its target is then, they leave the same script at other addresses (`ofLines_around`).
-/

namespace Unstack

open Command (codeWords)

/-- Blank lines and comments to be put between so many lines. -/
structure Padding (size : Nat) where
  /-- The lines in front of the line at an address; at `size`, those behind the last line. -/
  gap : Nat → List String
  idle : ∀ addr ≤ size, ∀ line ∈ gap addr, codeWords line = []

namespace Padding

variable {size : Nat} (p : Padding size)

/-! ## Where lines go -/

/-- How many lines are put in front of an address, which are all of them if it is past the end. -/
def count (addr : Nat) : Nat :=
  ((List.range (min addr size + 1)).flatMap p.gap).length

theorem count_zero : p.count 0 = (p.gap 0).length := by
  simp [count]

theorem count_succ {addr : Nat} (h : addr + 1 ≤ size) :
    p.count (addr + 1) = p.count addr + (p.gap (addr + 1)).length := by
  rw [count, count, Nat.min_eq_left h, Nat.min_eq_left (Nat.le_of_succ_le h), List.range_succ, List.flatMap_append,
    List.length_append, List.flatMap_singleton]

theorem count_mono : Monotone p.count := by
  refine monotone_nat_of_le_succ fun addr => ?_
  rcases Nat.lt_or_ge addr size with h | h
  · rw [p.count_succ h]
    exact Nat.le_add_right _ _
  · simp only [count, Nat.min_eq_right h, Nat.min_eq_right (Nat.le_succ_of_le h), Nat.le_refl]

/-- The address at which the line at an address is when the padding is put in. -/
def address : Nat ↪o Nat :=
  OrderEmbedding.ofStrictMono (fun addr => addr + p.count addr) fun _ _ h =>
    Nat.add_lt_add_of_lt_of_le h (p.count_mono (Nat.le_of_lt h))

/-- The lines, the first of which is at the address, with the padding put in. -/
def around (addr : Nat) : List String → List String
  | [] => p.gap addr
  | line :: lines => p.gap addr ++ line :: around (addr + 1) lines

theorem address_zero : p.address 0 = (p.gap 0).length := by
  show 0 + p.count 0 = _
  rw [p.count_zero, Nat.zero_add]

theorem address_succ {addr : Nat} (h : addr + 1 ≤ size) :
    p.address (addr + 1) = p.address addr + 1 + (p.gap (addr + 1)).length := by
  show addr + 1 + p.count (addr + 1) = addr + p.count addr + 1 + _
  rw [p.count_succ h]
  omega

end Padding

/-! ## Lifting the lines -/

variable {size : Nat} {p : Padding size} {lines moved : List String} {d : Draft}

/-- Once the gap in front of a line is behind, the lines from there on do the same at other addresses. -/
theorem Draft.run_around (hm : List.Forall₂ (Moved p.address) lines moved) {d₀ : Draft}
    (hsize : d.offset + lines.length = size) (h₀ : d₀.run (p.gap d.offset) = .ok (d.relocate p.address)) :
    d₀.run (p.around d.offset moved) =
      ((d.run lines).map (Draft.relocate p.address)).mapError (Error.relocate p.address) := by
  induction hm generalizing d d₀ with
  | nil => exact h₀
  | @cons line line' lines moved hl hm ih =>
      rw [Padding.around, run_append, h₀]
      show (d.relocate p.address).run (line' :: p.around (d.offset + 1) moved) = _
      rw [List.length_cons] at hsize
      obtain ⟨d₁, hs, ho, hs'⟩ | ⟨e, hs, hs'⟩ := stepLine_relocate (d := d) hl
      · simp only [run, hs, hs']
        rw [← ho] at hsize ⊢
        have hnext : d₁.offset + 1 ≤ size := by omega
        refine ih (d := d₁.advance) (by simp only [advance]; omega) ?_
        -- the gap behind the line takes the draft to where the next line is
        refine (run_idle (p.idle _ hnext) _).trans ?_
        simp only [relocate, advance, p.address_succ hnext]
      · simp only [run, hs, hs']
        rfl

/-- The script is the same at other addresses, and so is the error. -/
theorem Script.ofLines_around {p : Padding lines.length} (hm : List.Forall₂ (Moved p.address) lines moved) :
    Script.ofLines (p.around 0 moved) =
      ((Script.ofLines lines).map (Script.relocate p.address)).mapError (Error.relocate p.address) := by
  have h₀ : ({} : Draft).run (p.gap 0) = .ok (({} : Draft).relocate p.address) := by
    rw [Draft.run_idle (p.idle 0 (Nat.zero_le _))]
    simp only [Draft.relocate, p.address_zero, Nat.zero_add, Array.map_empty]
    rfl
  have hrun := Draft.run_around (d := {}) hm (Nat.zero_add _) h₀
  rw [ofLines, hrun, ofLines]
  cases hd : ({} : Draft).run lines with
  | error _ => rfl
  | ok d => exact Draft.finish_relocate (Draft.label_pos hd)

end Unstack
