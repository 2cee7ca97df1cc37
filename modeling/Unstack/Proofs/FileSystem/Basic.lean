import Mathlib.Data.List.Induction
import Unstack.FileSystem.Basic
import Unstack.Proofs.FileSystem.Path
import Unstack.Proofs.Table

/-!
# Files that are read and written

Writing takes no file or directory away, so a path that leads to a file goes on leading to it (`FileAt.put`), and what
is written to a path is what is read from it (`writeText_eq_ok`). A path that leads to a file ends in the name of this
file (`FileAt.fileName?_eq`).
-/

namespace Unstack.FileSystem

variable {fs fs' : FileSystem} {place target : List String} {path : String}

/-! ## Steps -/

theorem node?_put (fs : FileSystem) (hp : place ≠ []) (node : FileNode) (other : List String) :
    (fs.put place node).node? other = if other = place then some node else fs.node? other := by
  simp only [node?, put, Table.get?_insert]
  cases other with
  | nil => simp [Ne.symm hp]
  | cons name names => simp

theorem enter_eq_ok {step : String} :
    fs.enter place step = .ok target ↔ fs.node? place = some .directory ∧
      (step = "." ∧ place = target ∨ step = ".." ∧ place.dropLast = target ∨
        (step ≠ "." ∧ step ≠ ".." ∧ Path.isLongName step = false ∧ (fs.node? (place ++ [step])).isSome = true) ∧
          place ++ [step] = target) := by
  rw [enter]
  cases fs.node? place with
  | none => simp
  | some node =>
      cases node with
      | file content => simp
      | directory =>
          by_cases hdot : step = "."
          · subst hdot
            simp
          by_cases hdots : step = ".."
          · subst hdots
            simp
          cases hlong : Path.isLongName step with
          | true => simp [hdot, hdots]
          | false => cases hs : (fs.node? (place ++ [step])).isSome <;> simp [hdot, hdots]

theorem walk_nil (fs : FileSystem) (absolute : Bool) :
    fs.walk absolute [] = .ok (if absolute then [] else fs.workDir) :=
  rfl

theorem walk_concat {absolute : Bool} {steps : List String} {step : String} :
    fs.walk absolute (steps ++ [step]) = .ok target ↔
      ∃ place, fs.walk absolute steps = .ok place ∧ fs.enter place step = .ok target := by
  rw [walk, walk, List.foldlM_append]
  cases steps.foldlM fs.enter (if absolute then [] else fs.workDir) with
  | error e => exact iff_of_false nofun nofun
  | ok place =>
      have henter : [step].foldlM fs.enter place = fs.enter place step := by
        rw [List.foldlM_cons]
        cases fs.enter place step <;> rfl
      show [step].foldlM fs.enter place = .ok target ↔ _
      rw [henter]
      exact ⟨fun he => ⟨place, rfl, he⟩, fun ⟨_, hp, he⟩ => by cases hp; exact he⟩

/-! ## What stays -/

/-- Nothing is taken away: directories stay, and files stay files. -/
structure Grows (fs fs' : FileSystem) : Prop where
  workDir : fs'.workDir = fs.workDir
  directory : ∀ place, fs.node? place = some .directory → fs'.node? place = some .directory
  file : ∀ place content, fs.node? place = some (.file content) → ∃ content', fs'.node? place = some (.file content')

namespace Grows

theorem isSome (h : Grows fs fs') (hs : (fs.node? place).isSome = true) : (fs'.node? place).isSome = true := by
  obtain ⟨node, hn⟩ := Option.isSome_iff_exists.mp hs
  cases node with
  | file content =>
      obtain ⟨content', hc⟩ := h.file place content hn
      simp [hc]
  | directory => simp [h.directory place hn]

theorem enter {step : String} (h : Grows fs fs') (he : fs.enter place step = .ok target) :
    fs'.enter place step = .ok target := by
  rw [enter_eq_ok] at he ⊢
  refine ⟨h.directory place he.1, he.2.imp_right (Or.imp_right fun hs => ⟨?_, hs.2⟩)⟩
  exact ⟨hs.1.1, hs.1.2.1, hs.1.2.2.1, h.isSome hs.1.2.2.2⟩

theorem walk {absolute : Bool} {steps : List String} (h : Grows fs fs') (hw : fs.walk absolute steps = .ok place) :
    fs'.walk absolute steps = .ok place := by
  induction steps using List.reverseRecOn generalizing place with
  | nil => rwa [walk_nil, h.workDir]
  | append_singleton steps step ih =>
      obtain ⟨place, hw, he⟩ := walk_concat.mp hw
      exact walk_concat.mpr ⟨place, ih hw, h.enter he⟩

end Grows

theorem grows_put (hp : place ≠ []) (hd : fs.node? place ≠ some .directory) (content : ByteArray) :
    Grows fs (fs.put place (.file content)) where
  workDir := rfl
  directory other ho := by
    rw [node?_put fs hp, if_neg]
    · exact ho
    · rintro rfl
      exact hd ho
  file other content' ho := by
    rw [node?_put fs hp]
    split
    · exact ⟨content, rfl⟩
    · exact ⟨content', ho⟩

/-! ## Files at paths -/

/-- The path leads to a file with this content. -/
structure FileAt (fs : FileSystem) (path : String) (place : List String) (content : ByteArray) : Prop where
  not_long : Path.isTooLong path = false
  walk : fs.walk (Path.isAbsolute path) (Path.steps path) = .ok place
  node : fs.node? place = some (.file content)
  no_slash : Path.endsInSlash path = false

theorem FileAt.readText {content : ByteArray} {text : String} (h : fs.FileAt path place content)
    (ht : String.fromUTF8? content = some text) : fs.readText path = .ok text := by
  simp [FileSystem.readText, locate, h.not_long, h.walk, h.node, h.no_slash, ht]

theorem exists_fileAt {text : String} (h : fs.readText path = .ok text) :
    ∃ place content, fs.FileAt path place content ∧ String.fromUTF8? content = some text := by
  cases hlong : Path.isTooLong path with
  | true => simp [FileSystem.readText, locate, hlong] at h
  | false =>
      cases hw : fs.walk (Path.isAbsolute path) (Path.steps path) with
      | error e => simp [FileSystem.readText, locate, hlong, hw] at h
      | ok place =>
          rcases hn : fs.node? place with _ | content | _
          · simp [FileSystem.readText, locate, hlong, hw, hn] at h
          · cases hs : Path.endsInSlash path with
            | true => simp [FileSystem.readText, locate, hlong, hw, hn, hs] at h
            | false =>
                refine ⟨place, content, ⟨hlong, hw, hn, hs⟩, ?_⟩
                cases ht : String.fromUTF8? content with
                | none => simp [FileSystem.readText, locate, hlong, hw, hn, hs, ht] at h
                | some t => simpa [FileSystem.readText, locate, hlong, hw, hn, hs, ht] using h
          · simp [FileSystem.readText, locate, hlong, hw, hn] at h

theorem FileAt.grows {content : ByteArray} (h : fs.FileAt path place content) (hg : Grows fs fs')
    (hn : fs'.node? place = some (.file content)) : fs'.FileAt path place content :=
  ⟨h.not_long, hg.walk h.walk, hn, h.no_slash⟩

/-- Another file that is written does not matter. -/
theorem FileAt.put {content content' : ByteArray} {other : List String} (h : fs.FileAt path place content)
    (ho : other ≠ []) (hd : fs.node? other ≠ some .directory) (hne : place ≠ other) :
    (fs.put other (.file content')).FileAt path place content := by
  refine h.grows (grows_put ho hd content') ?_
  rw [node?_put fs ho, if_neg hne]
  exact h.node

/-! ## Writing -/

/-- A file of this name can be written in this directory. -/
structure WritableAt (fs : FileSystem) (path : String) (dir : List String) (name : String) : Prop where
  not_long : Path.isTooLong path = false
  last : (Path.steps path).getLast? = some name
  walk : fs.walk (Path.isAbsolute path) (Path.steps path).dropLast = .ok dir
  directory : fs.node? dir = some .directory
  not_dots : isDots name = false
  no_slash : Path.endsInSlash path = false
  not_longName : Path.isLongName name = false
  free : fs.node? (dir ++ [name]) ≠ some .directory

theorem exists_writableAt (h : fs.writable path = .ok place) :
    ∃ dir name, fs.WritableAt path dir name ∧ place = dir ++ [name] := by
  simp only [writable, parent] at h
  split at h
  · cases h
  · rename_i hlong
    split at h
    · cases h
    · rename_i name hlast
      cases hw : fs.walk (Path.isAbsolute path) (Path.steps path).dropLast with
      | error e => simp [hw] at h
      | ok dir =>
          simp only [hw] at h
          rcases hn : fs.node? dir with _ | content | _
          · simp [hn] at h
          · simp [hn] at h
          · simp only [hn] at h
            split at h
            · cases h
            · rename_i hdots
              split at h
              · cases h
              · rename_i hlongName
                split at h
                · cases h
                · rename_i hfree
                  rw [Bool.or_eq_true, not_or, Bool.not_eq_true, Bool.not_eq_true] at hdots
                  refine ⟨dir, name, ⟨Bool.eq_false_iff.mpr hlong, hlast, hw, hn, hdots.1, hdots.2,
                    Bool.eq_false_iff.mpr hlongName, hfree⟩, ?_⟩
                  exact (Except.ok.inj h).symm

/-- What is written to a path is what the path leads to. -/
theorem writeText_eq_ok {text : String} (h : fs.writeText path text = .ok fs') :
    ∃ dir name, (Path.steps path).getLast? = some name ∧ fs.node? (dir ++ [name]) ≠ some .directory ∧
      fs' = fs.put (dir ++ [name]) (.file text.toUTF8) ∧ fs'.FileAt path (dir ++ [name]) text.toUTF8 := by
  simp only [writeText, write] at h
  cases hp : fs.writable path with
  | error e => rw [hp] at h; cases h
  | ok place =>
      rw [hp] at h
      obtain rfl : fs.put place (.file text.toUTF8) = fs' := Except.ok.inj h
      obtain ⟨dir, name, hw, rfl⟩ := exists_writableAt hp
      have hne : dir ++ [name] ≠ [] := by simp
      have hgrows := grows_put hne hw.free text.toUTF8
      have hnode : (fs.put (dir ++ [name]) (.file text.toUTF8)).node? (dir ++ [name]) = some (.file text.toUTF8) := by
        rw [node?_put fs hne, if_pos rfl]
      refine ⟨dir, name, hw.last, hw.free, rfl, hw.not_long, ?_, hnode, hw.no_slash⟩
      have hdots := hw.not_dots
      simp only [isDots, Bool.or_eq_false_iff, decide_eq_false_iff_not] at hdots
      have henter : (fs.put (dir ++ [name]) (.file text.toUTF8)).enter dir name = .ok (dir ++ [name]) :=
        enter_eq_ok.mpr ⟨hgrows.directory dir hw.directory,
          Or.inr (Or.inr ⟨⟨hdots.1, hdots.2, hw.not_longName, by rw [hnode]; rfl⟩, rfl⟩)⟩
      have hwalk := hw.walk
      obtain ⟨front, hsteps⟩ := List.getLast?_eq_some_iff.mp hw.last
      rw [hsteps, List.dropLast_concat] at hwalk
      rw [hsteps]
      exact walk_concat.mpr ⟨dir, hgrows.walk hwalk, henter⟩

theorem fromUTF8?_toUTF8 (text : String) : String.fromUTF8? text.toUTF8 = some text := by
  rw [String.fromUTF8?, String.toUTF8_eq_toByteArray, dif_pos text.isValidUTF8]
  rfl

/-! ## The name of a file -/

/-- What is above the place is directories. -/
def Inside (fs : FileSystem) (place : List String) : Prop :=
  ∀ n < place.length, fs.node? (place.take n) = some .directory

/-- Relative paths start from a directory inside directories. -/
structure Rooted (fs : FileSystem) : Prop where
  workDir : fs.node? fs.workDir = some .directory
  inside : fs.Inside fs.workDir

theorem Inside.dropLast (h : fs.Inside place) : fs.node? place.dropLast = some .directory := by
  induction place using List.reverseRecOn with
  | nil => rfl
  | append_singleton front name _ =>
      have hfront := h front.length (by simp)
      rw [List.take_left] at hfront
      rwa [List.dropLast_concat]

theorem Inside.enter {step : String} (h : fs.Inside place) (he : fs.enter place step = .ok target) :
    fs.Inside target := by
  obtain ⟨hd, ⟨_, rfl⟩ | ⟨_, rfl⟩ | ⟨_, rfl⟩⟩ := enter_eq_ok.mp he
  · exact h
  · intro n hn
    rw [List.length_dropLast] at hn
    rw [List.dropLast_eq_take, List.take_take, Nat.min_eq_left (by omega)]
    exact h n (by omega)
  · intro n hn
    rw [List.length_append, List.length_singleton, Nat.lt_succ_iff] at hn
    rw [List.take_append_of_le_length hn]
    rcases Nat.lt_or_eq_of_le hn with hn | rfl
    · exact h n hn
    · rwa [List.take_length]

theorem Rooted.walk {absolute : Bool} {steps : List String} (h : fs.Rooted) (hw : fs.walk absolute steps = .ok place) :
    fs.Inside place := by
  induction steps using List.reverseRecOn generalizing place with
  | nil =>
      cases hw
      cases absolute with
      | true => exact fun _ hn => absurd hn (Nat.not_lt_zero _)
      | false => exact h.inside
  | append_singleton steps step ih =>
      obtain ⟨place, hw, he⟩ := walk_concat.mp hw
      exact (ih hw).enter he

/-- A path that leads to a file ends in the name of the file. -/
theorem FileAt.fileName?_eq {content : ByteArray} (h : fs.FileAt path place content) (hr : fs.Rooted) :
    ∃ name, place.getLast? = some name ∧ Path.fileName? path = some name := by
  have hfile : fs.node? place ≠ some .directory := by simp [h.node]
  have hw := h.walk
  cases hlast : (Path.steps path).getLast? with
  | none =>
      rw [List.getLast?_eq_none_iff.mp hlast, walk_nil] at hw
      cases hw
      cases habs : Path.isAbsolute path with
      | true => simp [habs, node?] at hfile
      | false => simp [habs, hr.workDir] at hfile
  | some step =>
      obtain ⟨front, hsteps⟩ := List.getLast?_eq_some_iff.mp hlast
      rw [hsteps] at hw
      obtain ⟨dir, hdir, he⟩ := walk_concat.mp hw
      -- the last step is a name, since the others lead to a directory
      obtain ⟨hd, ⟨_, rfl⟩ | ⟨_, rfl⟩ | ⟨hs, rfl⟩⟩ := enter_eq_ok.mp he
      · exact absurd hd hfile
      · exact absurd (hr.walk hdir).dropLast hfile
      · exact ⟨step, List.getLast?_concat, Path.fileName?_of_getLast? hlast hs.1 hs.2.1⟩

end Unstack.FileSystem
