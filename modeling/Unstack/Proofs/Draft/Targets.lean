import Unstack.Proofs.Draft.Tally
import Unstack.Proofs.Table

/-!
# Where jumps go

A draft notes the target of every jump. No expression absorbs a jump, so what is noted are the targets of the live
jumps (`mem_targets_iff`).
-/

namespace Unstack

/-- The address that a command jumps to. -/
def Command.target? : Command → Option Nat
  | jump target | branch target => some target
  | _ => none

namespace Draft

variable {d d' : Draft}

/-- The targets of the live jumps, that of the latest one first. -/
def goals (d : Draft) : List Nat :=
  d.tally fun _ action => action.target?.toList

theorem goals_step {c : Command} (h : d.WellFormed) (hs : Step d c d') :
    d'.goals.Perm (c.target?.toList ++ d.goals) := by
  cases hs with
  | skip | label _ | drop => exact .refl _
  | push | pushArgument | pushLocal => exact .of_eq (tally_emit _ h (.assign _))
  | @unary op id rest hp => exact tally_applyUnary _ [] h (by simp [hp]) rfl
  | binary hp => exact tally_absorb_two _ (.assign _) [] h hp rfl
  | call | jump | ret | unknown => exact .of_eq (tally_emit _ h _)
  | @branch t id rest hp =>
      have hid : id ∈ d.pending := by simp [hp]
      exact tally_absorb _ (.branch t _) [t] h (h.pending_live id hid) (h.action?_pending hid) (.refl _)
  | @takeResult id hc =>
      obtain ⟨hid, name, hn⟩ := mem_live_of_latestCall? hc
      rw [h.absorb_eq_consume ⟨name, hn⟩]
      exact tally_absorb _ (.assign _) [] h hid hn (.refl _)

theorem mem_targets_step {c : Command} (hs : Step d c d') (t : Nat) :
    t ∈ d'.targets.keys ↔ t ∈ c.target?.toList ∨ t ∈ d.targets.keys := by
  cases hs with
  | @jump target | @branch target _ _ _ =>
      rw [Command.target?, Option.toList_some, List.mem_singleton]
      exact Table.mem_keys_insert
  | _ => simp [Command.target?, push, emit, consume, absorb, applyUnary]

/-- The targets that are noted are those of the live jumps. -/
theorem mem_targets_iff {lines : List String} (h : ({} : Draft).run lines = .ok d) (t : Nat) :
    t ∈ d.targets.keys ↔ t ∈ d.goals := by
  refine step_induction (motive := fun _ d => ∀ t, t ∈ d.targets.keys ↔ t ∈ d.goals) ?_ ?_ h t
  · exact fun _ => Iff.rfl
  · intro lines d line c d' hw _ ih _ hs t
    show t ∈ d'.targets.keys ↔ t ∈ d'.goals
    rw [mem_targets_step hs, (goals_step hw hs).mem_iff, List.mem_append, ih]

end Draft

end Unstack
