import Unstack.Proofs.FileSystem.Basic

/-!
# Directories that are added

Adding a directory with those above it only adds places, also if it fails on the way (`makeDirs_extends`). Every path
that leads to a file goes on leading to the same one.
-/

namespace Unstack.FileSystem

variable {fs fs' : FileSystem} {place : List String} {path : String}

/-- Places are only added. -/
structure Extends (fs fs' : FileSystem) : Prop where
  workDir : fs'.workDir = fs.workDir
  node : ∀ place node, fs.node? place = some node → fs'.node? place = some node

namespace Extends

theorem refl (fs : FileSystem) : Extends fs fs :=
  ⟨rfl, fun _ _ h => h⟩

theorem trans {fs'' : FileSystem} (h : Extends fs fs') (h' : Extends fs' fs'') : Extends fs fs'' :=
  ⟨h'.workDir.trans h.workDir, fun place node hn => h'.node place node (h.node place node hn)⟩

theorem grows (h : Extends fs fs') : Grows fs fs' :=
  ⟨h.workDir, fun place hd => h.node place _ hd, fun place content hc => ⟨content, h.node place _ hc⟩⟩

theorem fileAt {content : ByteArray} (h : Extends fs fs') (hf : fs.FileAt path place content) :
    fs'.FileAt path place content :=
  hf.grows h.grows (h.node _ _ hf.node)

end Extends

theorem makeDir_extends {absolute : Bool} {steps : List String} (h : fs.makeDir absolute steps = .ok fs') :
    Extends fs fs' := by
  simp only [makeDir] at h
  split at h
  · cases h
  · rename_i name _
    split at h
    · cases h
    · rename_i dir _
      split at h
      · cases h
      · rename_i hfree
        split at h
        · cases h
        · cases h
          rw [Bool.or_eq_true, not_or, Bool.not_eq_true, Bool.not_eq_true, Option.isSome_eq_false_iff,
            Option.isNone_iff_eq_none] at hfree
          refine ⟨rfl, fun place node hn => ?_⟩
          rw [node?_put fs (by simp), if_neg]
          · exact hn
          · rintro rfl
            rw [hfree.2] at hn
            cases hn

theorem unlessThere_extends {absolute : Bool} {steps : List String} {r : Except DiskError FileSystem}
    (h : ∀ fs', r = .ok fs' → Extends fs fs') : Extends fs (fs.unlessThere absolute steps r).2 := by
  cases r with
  | ok fs' => exact h fs' rfl
  | error e =>
      simp only [unlessThere]
      split <;> exact .refl fs

theorem makeDirsAt_extends (fs : FileSystem) (absolute : Bool) (steps : List String) :
    Extends fs (fs.makeDirsAt absolute steps).2 := by
  fun_induction makeDirsAt fs absolute steps with
  | case1 | case2 => exact .refl _
  | case3 _ _ _ _ _ _ _ hrest ih =>
      rw [hrest] at ih
      exact ih
  | case4 _ _ _ _ _ _ hrest ih =>
      rw [hrest] at ih
      exact ih.trans (unlessThere_extends fun _ => makeDir_extends)
  | case5 => exact unlessThere_extends fun _ => makeDir_extends

theorem makeDirs_extends (fs : FileSystem) (path : String) : Extends fs (fs.makeDirs path).2 := by
  rw [makeDirs]
  split
  · exact .refl fs
  · exact makeDirsAt_extends fs _ _

end Unstack.FileSystem
