import Unstack.Proofs.Draft.Relocation
import Unstack.Proofs.Script.Live

/-!
# Scripts at other addresses

An exchange of addresses that keeps their order keeps which instruction stands at or behind a line, so the labels and
the jumps of a script still go to the same instructions (`finish_relocate`).
-/

namespace Unstack

variable (f : Nat ↪o Nat) {s : Script} {d : Draft}

/-- The script at other addresses. Its labels are resolved, so their addresses are those of instructions. -/
def Script.relocate (s : Script) : Script where
  emitted := s.emitted.map (Instr.relocate f)
  live := s.live
  labels := s.labels.map (Prod.map id f)
  targets := s.targets.map f

namespace Script

variable {f}

/-! ## Resolving addresses -/

theorem instructions_relocate :
    (s.relocate f).instructions = s.instructions.map (Prod.map id (Instr.relocate f)) := by
  simp only [instructions, relocate, Array.getElem?_map, List.map_filterMap, Option.map_map]
  rfl

theorem firstFrom_map {t addr : Nat} (h : ∀ a, t ≤ f a ↔ addr ≤ a) (l : List (Nat × Instr)) :
    firstFrom t (l.map (Prod.map id (Instr.relocate f))) =
      (firstFrom addr l).map (Prod.map id (Instr.relocate f)) := by
  rw [firstFrom, List.find?_map, firstFrom]
  congr 2
  funext p
  exact decide_eq_decide.mpr (h p.2.addr)

theorem resolve_relocate (t : Nat) : (s.relocate f).resolve (f t) = s.resolve t := by
  rw [resolve, instructions_relocate, firstFrom_map fun a => f.le_iff_le, Option.map_map]
  rfl

theorem resolveAddr_relocate (t : Nat) : (s.relocate f).resolveAddr (f t) = (s.resolveAddr t).map f := by
  rw [resolveAddr, instructions_relocate, firstFrom_map fun a => f.le_iff_le, Option.map_map, resolveAddr,
    Option.map_map]
  rfl

/-- What stands behind a line still does when the line has moved. -/
theorem resolveAddr_behind {addr : Nat} (h : 0 < addr) :
    (s.relocate f).resolveAddr (behind f addr) = (s.resolveAddr addr).map f := by
  have hle : ∀ a, behind f addr ≤ f a ↔ addr ≤ a := by
    intro a
    rw [behind, Nat.succ_le_iff, f.lt_iff_lt]
    omega
  rw [resolveAddr, instructions_relocate, firstFrom_map hle, Option.map_map, resolveAddr, Option.map_map]
  rfl

theorem landings_relocate : (s.relocate f).landings = s.landings := by
  simp only [landings]
  rw [relocate, List.filterMap_map]
  exact List.filterMap_congr fun t _ => resolve_relocate t

end Script

namespace Draft

variable {f}

/-! ## Ending a draft -/

theorem script_relocate : (d.relocate f).script = d.script.relocate f := by
  simp [script, relocate, Script.relocate, Table.keys, Table.map]

theorem resolveLabels_relocate {labels : List (Nat × Nat)} (h : ∀ l ∈ labels, 0 < l.2) :
    resolveLabels (s.relocate f) (labels.map (Prod.map id (behind f))) =
      ((resolveLabels s labels).map (List.map (Prod.map id f))).mapError (Error.relocate f) := by
  induction labels with
  | nil => rfl
  | cons l labels ih =>
      obtain ⟨hl, hlabels⟩ := List.forall_mem_cons.mp h
      obtain ⟨label, addr⟩ := l
      simp only [List.map_cons, Prod.map, resolveLabels, Script.resolveAddr_behind hl]
      cases s.resolveAddr addr with
      | none => rfl
      | some found =>
          simp only [Option.map_some]
          rw [ih hlabels]
          cases resolveLabels s labels <;> rfl

/-- A label has the address behind a line. -/
theorem label_pos {lines : List String} (h : ({} : Draft).run lines = .ok d) :
    ∀ l ∈ d.labels.entries, 0 < l.2 := by
  refine run_induction (motive := fun _ d => ∀ l ∈ d.labels.entries, 0 < l.2) ?_ ?_ h
  · exact fun l hl => absurd hl List.not_mem_nil
  · intro lines d line d' ih hl
    obtain ⟨c, d₁, _, hs, rfl⟩ := stepLine_eq_ok hl
    cases hs with
    | label =>
        intro l hl
        rcases Table.mem_entries_insert.mp hl with rfl | ⟨hl, _⟩
        · exact Nat.succ_pos _
        · exact ih l hl
    | _ => exact ih

theorem finish_relocate (h : ∀ l ∈ d.labels.entries, 0 < l.2) :
    (d.relocate f).finish = (d.finish.map (Script.relocate f)).mapError (Error.relocate f) := by
  have he : (d.relocate f).labels.entries = d.labels.entries.map (Prod.map id (behind f)) := rfl
  rw [finish, script_relocate, he, resolveLabels_relocate h, finish]
  cases resolveLabels d.script d.labels.entries <;> rfl

end Draft

end Unstack
