import Unstack.Proofs.CommandLine.Batch
import Unstack.Proofs.FileSystem.MakeDirs

/-!
# The files of a batch

Scripts of one name are written to one file, and the last one of them decides what it holds (`batch_outputs`). What it
read is what was there at the start, unless it is itself a file that a script before it was written to.
-/

namespace Unstack.CommandLine.Program

variable {reg : Registry} {options : Options} {dir : String} {files : FileSystem} {path : String}

/-! ## The names of outputs -/

/-- The name of the file that is written for a script. -/
def outName (script : String) : String :=
  ((Path.fileName? script).map Path.stem).getD "script" ++ ".pseudo"

theorem exists_isStep_outName (script : String) : ∃ name, Path.IsStep name ∧ outName script = name ++ ".pseudo" := by
  refine ⟨_, ?_, rfl⟩
  cases hf : Path.fileName? script with
  | none => exact ⟨by decide, by decide⟩
  | some name => exact Path.isStep_stem (Path.isStep_of_fileName? hf)

theorem isStep_outName (script : String) : Path.IsStep (outName script) := by
  obtain ⟨name, hname, ho⟩ := exists_isStep_outName script
  rw [ho]
  exact hname.append ".pseudo" (by decide)

/-- A script with the name of an output is written to that output. -/
theorem outName_eq {other : String} (h : Path.fileName? path = some (outName other)) :
    outName path = outName other := by
  obtain ⟨name, hname, ho⟩ := exists_isStep_outName other
  rw [ho] at h
  rw [outName, h, Option.map_some, Path.stem_append_extension hname.ne_empty, ho]
  rfl

/-! ## Turns that write -/

/-- A turn that does not fail writes the script's output and leaves files of other names alone. -/
theorem turn_written (h : (turn reg options (some dir) files path).failed = false) :
    ∃ source text place, files.readText path = .ok source ∧ decompile reg options source = .ok text ∧
      place.getLast? = some (outName path) ∧
      (turn reg options (some dir) files path).files.FileAt (outPath dir path) place text.toUTF8 ∧
      ∀ other otherPlace content, files.FileAt other otherPlace content →
        otherPlace.getLast? ≠ some (outName path) →
          (turn reg options (some dir) files path).files.FileAt other otherPlace content := by
  obtain ⟨source, text, hsource, htext, hwrite⟩ := turn_eq_of_not_failed h
  obtain ⟨outDir, name, hlast, hfree, hput, hfile⟩ := FileSystem.writeText_eq_ok hwrite
  obtain rfl : outName path = name :=
    Option.some.inj ((Path.getLast?_steps_join dir (isStep_outName path)).symm.trans hlast)
  have hplace : (outDir ++ [outName path]).getLast? = some (outName path) := List.getLast?_concat
  refine ⟨source, text, _, hsource, htext, hplace, hfile, fun other place content ho hne => ?_⟩
  rw [hput]
  exact ho.put (by simp) hfree fun he => hne (he ▸ hplace)

theorem turns_fileAt {paths place : List String} {content : ByteArray}
    (hok : ∀ t ∈ turns reg options (some dir) files paths, t.failed = false) (h : files.FileAt path place content)
    (hne : ∀ q ∈ paths, place.getLast? ≠ some (outName q)) :
    (filesAfter files (turns reg options (some dir) files paths)).FileAt path place content := by
  induction paths generalizing files with
  | nil => exact h
  | cons q paths ih =>
      obtain ⟨hq, hok⟩ := List.forall_mem_cons.mp hok
      obtain ⟨hneq, hne⟩ := List.forall_mem_cons.mp hne
      obtain ⟨_, _, _, _, _, _, _, hkeep⟩ := turn_written hq
      exact ih hok (hkeep path place content h hneq) hne

/-! ## The last script with an output -/

theorem exists_last {α : Type} {P : α → Prop} {l : List α} (h : ∃ a ∈ l, P a) :
    ∃ before a after, l = before ++ a :: after ∧ P a ∧ ∀ b ∈ after, ¬ P b := by
  induction l using List.reverseRecOn with
  | nil =>
      obtain ⟨a, ha, _⟩ := h
      cases ha
  | append_singleton l a ih =>
      by_cases ha : P a
      · exact ⟨l, a, [], rfl, ha, fun b hb => absurd hb List.not_mem_nil⟩
      · obtain ⟨b, hb, hp⟩ := h
        rcases List.mem_append.mp hb with hb | hb
        · obtain ⟨before, c, after, rfl, hc, hafter⟩ := ih ⟨b, hb, hp⟩
          refine ⟨before, c, after ++ [a], by simp, hc, fun b hb => ?_⟩
          rcases List.mem_append.mp hb with hb | hb
          · exact hafter b hb
          · exact List.mem_singleton.mp hb ▸ ha
        · exact absurd (List.mem_singleton.mp hb ▸ hp) ha

/-- What the last script with an output writes to it stays there. -/
theorem turns_last {before after paths : List String}
    (hok : ∀ t ∈ turns reg options (some dir) files paths, t.failed = false) (hsplit : paths = before ++ path :: after)
    (hafter : ∀ other ∈ after, outPath dir other ≠ outPath dir path) :
    ∃ source text, (filesAfter files (turns reg options (some dir) files before)).readText path = .ok source ∧
      decompile reg options source = .ok text ∧
      (filesAfter files (turns reg options (some dir) files paths)).readText (outPath dir path) = .ok text := by
  subst hsplit
  rw [turns_append, turns] at hok ⊢
  obtain ⟨_, hok⟩ := List.forall_mem_append.mp hok
  obtain ⟨hturn, hok⟩ := List.forall_mem_cons.mp hok
  obtain ⟨source, text, place, hsource, htext, hplace, hfile, _⟩ := turn_written hturn
  have hstays := turns_fileAt hok hfile fun other ho he =>
    hafter other ho (congrArg (Path.join dir) (Option.some.inj (he.symm.trans hplace)))
  refine ⟨source, text, hsource, htext, ?_⟩
  rw [filesAfter_append]
  exact hstays.readText (FileSystem.fromUTF8?_toUTF8 text)

/-- What a script holds stays there until its turn. -/
theorem turns_kept {ready : FileSystem} {before : List String} {source : String} (hroot : files.Rooted)
    (hready : files.Extends ready) (hok : ∀ t ∈ turns reg options (some dir) ready before, t.failed = false)
    (hbefore : (∀ other ∈ before, outPath dir other ≠ outPath dir path) ∨ Path.fileName? path ≠ some (outName path))
    (hread : files.readText path = .ok source) :
    (filesAfter ready (turns reg options (some dir) ready before)).readText path = .ok source := by
  obtain ⟨place, content, hfile, hsource⟩ := FileSystem.exists_fileAt hread
  obtain ⟨name, hplace, hname⟩ := hfile.fileName?_eq hroot
  refine (turns_fileAt hok (hready.fileAt hfile) fun other ho he => ?_).readText hsource
  -- a script that some output is written over has the name of that output, so it has the same output
  obtain rfl : name = outName other := Option.some.inj (hplace.symm.trans he)
  have hout := outName_eq hname
  rcases hbefore with hbefore | hbefore
  · exact hbefore other ho (congrArg (Path.join dir) hout.symm)
  · exact hbefore (hout ▸ hname)

/-! ## The whole batch -/

section

variable {wording : Wording} {args paths : List String} {sources : Sources} {verbose : Bool} {outDir : Option String}

theorem exists_of_exit_zero (hargs : invocation? args = some ⟨verbose, .batch paths outDir sources⟩)
    (hexit : (execute wording files args).exit = 0) :
    ∃ reg options w, runOn (setUp (World.host wording) outDir sources) { files } = (.ok (reg, options), w) ∧
      (∀ t ∈ turns reg options outDir w.files paths, t.failed = false) ∧
      (execute wording files args).files = filesAfter w.files (turns reg options outDir w.files paths) := by
  rcases hs : runOn (setUp (World.host wording) outDir sources) { files } with ⟨failure | ⟨reg, options⟩, w⟩
  · simp [execute, hargs, exitStatus_host, run, runOn_runBatch, hs] at hexit
  · have hreport := execute_batch hargs hs
    rw [runScripts_host] at hreport
    rw [hreport] at hexit
    refine ⟨reg, options, w, rfl, fun t ht => ?_, by rw [hreport]⟩
    have hcount : (turns reg options outDir w.files paths).countP (·.failed) = 0 := by
      by_contra hne
      simp [hne] at hexit
    simpa using List.countP_eq_zero.mp hcount t ht

/-- What the files hold that a batch has written to a directory, given the files at the start and once it was set up. -/
structure Written (reg : Registry) (options : Options) (dir : String) (paths : List String)
    (start ready final : FileSystem) : Prop where
  exists_text : ∀ path ∈ paths, ∃ text, final.readText (outPath dir path) = .ok text
  /-- The last script with an output decides what it holds. -/
  last : ∀ before path after, paths = before ++ path :: after →
    (∀ other ∈ after, outPath dir other ≠ outPath dir path) →
      ∃ source text, (filesAfter ready (turns reg options (some dir) ready before)).readText path = .ok source ∧
        decompile reg options source = .ok text ∧ final.readText (outPath dir path) = .ok text
  /-- What it was at the start is what it is at its turn, if no script before it has its output or its own name is not
  that of its output. -/
  kept : ∀ before path after source, paths = before ++ path :: after →
    (∀ other ∈ after, outPath dir other ≠ outPath dir path) →
      (∀ other ∈ before, outPath dir other ≠ outPath dir path) ∨ Path.fileName? path ≠ some (outName path) →
        start.readText path = .ok source →
          ∃ text, decompile reg options source = .ok text ∧ final.readText (outPath dir path) = .ok text

theorem batch_outputs (hargs : invocation? args = some ⟨verbose, .batch paths (some dir) sources⟩)
    (hroot : files.Rooted) (hexit : (execute wording files args).exit = 0) :
    ∃ reg options w, runOn (setUp (World.host wording) (some dir) sources) { files } = (.ok (reg, options), w) ∧
      Written reg options dir paths files w.files (execute wording files args).files := by
  obtain ⟨reg, options, w, hsetup, hok, hfinal⟩ := exists_of_exit_zero hargs hexit
  have hready : files.Extends w.files := by
    have hmake := FileSystem.makeDirs_extends files dir
    rw [(setUp_eq_ok hsetup).2] at hmake
    exact hmake
  refine ⟨reg, options, w, hsetup, ?_⟩
  rw [hfinal]
  refine ⟨fun path hp => ?_, fun before path after hsplit hafter => ?_,
    fun before path after source hsplit hafter hbefore hread => ?_⟩
  · obtain ⟨before, other, after, hsplit, hother, hafter⟩ :=
      exists_last (P := fun other => outPath dir other = outPath dir path) ⟨path, hp, rfl⟩
    obtain ⟨_, text, _, _, hread⟩ := turns_last hok hsplit fun q hq => hother ▸ hafter q hq
    exact ⟨text, hother ▸ hread⟩
  · exact turns_last hok hsplit hafter
  · obtain ⟨source', text, hread', htext, hwritten⟩ := turns_last hok hsplit hafter
    have hok' : ∀ t ∈ turns reg options (some dir) w.files before, t.failed = false := by
      intro t ht
      refine hok t ?_
      rw [hsplit, turns_append]
      exact List.mem_append_left _ ht
    obtain rfl : source' = source := Except.ok.inj (hread'.symm.trans (turns_kept hroot hready hok' hbefore hread))
    exact ⟨text, htext, hwritten⟩

end

/-- The files of a batch of two scripts, in two directories of the one to work in. -/
def twoScripts (name : String) : FileSystem :=
  (((FileSystem.fresh.put ["work", "a"] .directory).put ["work", "b"] .directory).put ["work", "a", "x.emc"]
    (.file "PUSH 1\n".toUTF8)).put ["work", "b", name] (.file "PUSH 2\n".toUTF8)

theorem batch_outputs_apart :
    ∃ reg options w,
      runOn (setUp (World.host default) (some "out") {}) { files := twoScripts "y.emc" } = (.ok (reg, options), w) ∧
      Written reg options "out" ["a/x.emc", "b/y.emc"] (twoScripts "y.emc") w.files
        (execute default (twoScripts "y.emc")
          ["decompile", "batch", "a/x.emc", "b/y.emc", "--out-dir", "out"]).files := by
  have hwork : (twoScripts "y.emc").node? ["work"] = some .directory := by decide +kernel
  have hargs : invocation? ["decompile", "batch", "a/x.emc", "b/y.emc", "--out-dir", "out"] =
      some ⟨false, .batch ["a/x.emc", "b/y.emc"] (some "out") {}⟩ := by
    decide +kernel
  refine batch_outputs hargs ⟨hwork, fun n hn => ?_⟩ (by decide +kernel)
  obtain rfl : n = 0 := Nat.lt_one_iff.mp hn
  rfl

/-- Two scripts of one name, and only what the second one is decompiled to is left. -/
theorem batch_output_lost :
    (execute default (twoScripts "x.emc") ["decompile", "batch", "a/x.emc", "b/x.emc", "--out-dir", "out"]).exit = 0 ∧
      (decompile .standard {} "PUSH 1\n").toOption = some "var_0 := 0x1\n" ∧
      ((execute default (twoScripts "x.emc")
        ["decompile", "batch", "a/x.emc", "b/x.emc", "--out-dir", "out"]).files.readText
          (outPath "out" "a/x.emc")).toOption = some "var_0 := 0x2\n" := by
  decide +kernel

end Unstack.CommandLine.Program
