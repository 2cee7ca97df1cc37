import Unstack.Proofs.CommandLine.Turns
import Unstack.Proofs.Text.Lines

/-!
# Batches

A script of a batch that fails leaves nothing behind but what the error channel gets: files and output are those of the
same batch without it (`batch_isolated`).
-/

namespace Unstack.CommandLine.Program

variable {wording : Wording} {reg : Registry} {options : Options} {outDir : Option String}

/-! ## The whole program -/

/-- What a batch does before its first script. -/
def setUp {m : Type → Type} [Monad m] (host : Host m) (outDir : Option String) (sources : Sources) :
    Action m (Registry × Options) := do
  let reg ← loadRegistry host sources.builtins
  let options ← loadOptions host sources
  match outDir with
  | some dir => orFail (.uncreatable dir) (host.makeDirs dir)
  | none => pure ()
  pure (reg, options)

theorem runOn_runBatch (wording : Wording) (paths : List String) (outDir : Option String) (sources : Sources)
    (w : World) :
    runOn (runBatch (World.host wording) paths outDir sources) w =
      match runOn (setUp (World.host wording) outDir sources) w with
      | (.error failure, w') => (.error failure, w')
      | (.ok (reg, options), w') =>
        let r := (runScripts (World.host wording) reg options outDir paths).run w'
        (if r.1 = 0 then .ok () else .error (.incomplete r.1 paths.length), r.2) := by
  have hloop : ∀ (reg : Registry) (options : Options) (w : World),
      runOn (do
        let failed ← ExceptT.lift (runScripts (World.host wording) reg options outDir paths)
        if failed = 0 then pure () else throw (.incomplete failed paths.length)) w =
      let r := (runScripts (World.host wording) reg options outDir paths).run w
      (if r.1 = 0 then .ok () else .error (.incomplete r.1 paths.length), r.2) := by
    intro reg options w
    rw [runOn_bind, runOn_lift]
    simp only
    split <;> rfl
  simp only [runBatch, setUp, runOn_bind]
  rcases runOn (loadRegistry (World.host wording) sources.builtins) w with ⟨failure | reg, w₁⟩
  · rfl
  · dsimp only
    rcases runOn (loadOptions (World.host wording) sources) w₁ with ⟨failure | options, w₂⟩
    · rfl
    · cases outDir with
      | none => exact hloop reg options w₂
      | some dir =>
          dsimp only
          rw [runOn_bind, runOn_bind]
          rcases runOn (orFail (.uncreatable dir) ((World.host wording).makeDirs dir)) w₂ with ⟨failure | _, w₃⟩
          · rfl
          · exact hloop reg options w₃

/-- What is done before the first script prints nothing, and changes no file but for the directory of the output. -/
theorem setUp_eq_ok {sources : Sources} {w w' : World}
    (h : runOn (setUp (World.host wording) outDir sources) w = (.ok (reg, options), w')) :
    w'.output = w.output ∧
      match outDir with
      | none => w'.files = w.files
      | some dir => w.files.makeDirs dir = (.ok (), w'.files) := by
  have hreg := loadRegistry_quiet wording sources.builtins w
  simp only [setUp, runOn_bind] at h
  generalize runOn (loadRegistry (World.host wording) sources.builtins) w = r at h hreg
  obtain ⟨failure | reg', w₁⟩ := r
  · cases h
  have hoptions := loadOptions_quiet wording sources w₁
  dsimp only at h hreg
  generalize runOn (loadOptions (World.host wording) sources) w₁ = r at h hoptions
  obtain ⟨failure | options', w₂⟩ := r
  · cases h
  dsimp only at h hoptions
  cases outDir with
  | none =>
      cases h
      exact ⟨hoptions.output.trans hreg.output, hoptions.files.trans hreg.files⟩
  | some dir =>
      have hfiles : w₂.files = w.files := hoptions.files.trans hreg.files
      have houtput : w₂.output = w.output := hoptions.output.trans hreg.output
      have hmake : ((World.host wording).makeDirs dir).run w₂ =
          ((w₂.files.makeDirs dir).1, { w₂ with files := (w₂.files.makeDirs dir).2 }) := rfl
      dsimp only at h ⊢
      rw [runOn_bind, runOn_orFail, hmake, hfiles] at h
      generalize w.files.makeDirs dir = r at h
      obtain ⟨e | _, files⟩ := r
      · cases h
      · cases h
        exact ⟨houtput, rfl⟩

def summary (failed total : Nat) : String :=
  s!"{failed} of {total} scripts failed"

theorem execute_batch {files : FileSystem} {args paths : List String} {sources : Sources} {verbose : Bool} {w : World}
    (hargs : invocation? args = some ⟨verbose, .batch paths outDir sources⟩)
    (hsetup : runOn (setUp (World.host wording) outDir sources) { files } = (.ok (reg, options), w)) :
    execute wording files args =
      let r := (runScripts (World.host wording) reg options outDir paths).run w
      { exit := if r.1 = 0 then 0 else 1
        output := r.2.output
        errors := r.2.errors verbose ++ if r.1 = 0 then "" else summary r.1 paths.length ++ "\n"
        files := r.2.files } := by
  have hbatch := runOn_runBatch wording paths outDir sources { files }
  rw [hsetup] at hbatch
  dsimp only at hbatch ⊢
  simp only [execute, hargs, exitStatus_host, run, hbatch]
  generalize (runScripts (World.host wording) reg options outDir paths).run w = r
  by_cases hr : r.1 = 0
  · simp only [hr, ↓reduceIte, String.append_empty]
  · simp only [hr, ↓reduceIte, errors_message]
    rfl

/-- What the error channel gets before the number of failures. -/
def log (verbose : Bool) (w : World) (ts : List Turn) : String :=
  String.join ((w.notices ++ ts.flatMap (·.notices)).map (Notice.text verbose))

/-- The text that the script at a path is decompiled to, if it can be read and decompiled. -/
def scriptText (reg : Registry) (options : Options) (files : FileSystem) (path : String) : Option String :=
  (files.readText path).toOption.bind fun source => (decompile reg options source).toOption

/-- What is reported of a batch, given the turns of its scripts after it has been set up in a world. -/
structure Isolated (wording : Wording) (reg : Registry) (options : Options) (outDir : Option String) (verbose : Bool)
    (paths : List String) (w : World) (ts : List Turn) (report : Report) : Prop where
  turns_eq : ts = turns reg options outDir w.files paths
  map_path : ts.map (·.path) = paths
  /-- Files and output are those of the loop over the scripts that do not fail, and none of these fails there. -/
  alone : ∃ w', (runScripts (World.host wording) reg options outDir (survivors ts)).run w = (0, w') ∧
    report.files = w'.files ∧ report.output = w'.output
  printed : outDir = none → report.output = String.join (paths.filterMap fun path =>
    (scriptText reg options w.files path).map fun text => s!"// {path}\n" ++ text)
  exit : report.exit = if ts.any (·.failed) then 1 else 0
  /-- In the order of the scripts, the events of each and one message if it failed; then the number of failures. -/
  errors : report.errors = log verbose w ts ++
    if ts.any (·.failed) then summary (ts.countP (·.failed)) paths.length ++ "\n" else ""
  /-- The number of failures has a line of its own unless an entry of the log leaves its line open. -/
  lastLine : report.exit = 1 → EndsLine (log verbose w ts) →
    (Script.sourceLines report.errors).getLast? = some (summary (ts.countP (·.failed)) paths.length)
  endsLine : (∀ e, .event e ∈ w.notices ++ ts.flatMap (·.notices) → EndsLine ((Notice.event e).text verbose)) →
    EndsLine (log verbose w ts)

theorem map_path_turns (files : FileSystem) (paths : List String) :
    (turns reg options outDir files paths).map (·.path) = paths := by
  induction paths generalizing files with
  | nil => rfl
  | cons path paths ih => rw [turns, List.map_cons, turn_path, ih]

theorem not_mem_summary {c : Char} (hd : c.isDigit = false) (hc : c ∉ " of  scripts failed".toList)
    (failed total : Nat) :
    c ∉ (summary failed total).toList := by
  have hdigits : ∀ n : Nat, c ∉ (toString n).toList := by
    intro n hmem
    rw [Nat.toString_eq_ofList_toDigits, String.toList_ofList] at hmem
    rw [Nat.isDigit_of_mem_toDigits (by decide) (by decide) hmem] at hd
    cases hd
  have hof : c ∉ " of ".toList := fun hmem => hc (List.mem_append_left " scripts failed".toList hmem)
  have hfailed : c ∉ " scripts failed".toList := fun hmem => hc (List.mem_append_right " of ".toList hmem)
  have hsummary : (summary failed total).toList =
      (toString failed).toList ++ " of ".toList ++ (toString total).toList ++ " scripts failed".toList := by
    simp only [summary, String.toList_append]
    rfl
  simp only [hsummary, List.mem_append, hdigits, hof, hfailed, or_self, not_false_eq_true]

/-- Without a directory for the output the files stay as they are, so the scripts do not depend on each other. -/
theorem turn_none (files : FileSystem) (path : String) :
    (turn reg options none files path).files = files ∧ (turn reg options none files path).printed =
      (((scriptText reg options files path).map fun text => s!"// {path}\n" ++ text).getD "") := by
  simp only [turn, scriptText]
  cases files.readText path with
  | error e => exact ⟨rfl, rfl⟩
  | ok source =>
      cases hd : decompile reg options source with
      | error e => simp [hd, Except.toOption]
      | ok text => simp [hd, Except.toOption]

theorem join_printed (files : FileSystem) (paths : List String) :
    String.join ((turns reg options none files paths).map (·.printed)) = String.join (paths.filterMap fun path =>
      (scriptText reg options files path).map fun text => s!"// {path}\n" ++ text) := by
  induction paths with
  | nil => rfl
  | cons path paths ih =>
      rw [turns, (turn_none files path).1, List.map_cons, String.join_cons, ih, (turn_none files path).2,
        List.filterMap_cons]
      cases scriptText reg options files path with
      | none => simp
      | some text => simp

theorem endsLine_log {verbose : Bool} {w : World} {ts : List Turn}
    (h : ∀ e, .event e ∈ w.notices ++ ts.flatMap (·.notices) → EndsLine ((Notice.event e).text verbose)) :
    EndsLine (log verbose w ts) := by
  refine EndsLine.join fun text ht => ?_
  obtain ⟨notice, hn, rfl⟩ := List.mem_map.mp ht
  cases notice with
  | event e => exact h e hn
  | message text => exact endsLine_newline text

/-- The scripts of a batch that fail leave nothing behind but what the error channel gets. -/
theorem batch_isolated {files : FileSystem} {args paths : List String} {sources : Sources} {verbose : Bool} {w : World}
    (hargs : invocation? args = some ⟨verbose, .batch paths outDir sources⟩)
    (hsetup : runOn (setUp (World.host wording) outDir sources) { files } = (.ok (reg, options), w)) :
    Isolated wording reg options outDir verbose paths w (turns reg options outDir w.files paths)
      (execute wording files args) := by
  have houtput : w.output = "" := (setUp_eq_ok hsetup).1
  have halone := runScripts_host wording reg options outDir (survivors (turns reg options outDir w.files paths)) w
  rw [turns_survivors] at halone
  dsimp only at halone
  -- the survivors have the turns that they have among the others, and none of these failed
  rw [filesAfter_survivors, join_printed_survivors, List.countP_filter] at halone
  simp only [Bool.and_not_self, List.countP_false] at halone
  rw [execute_batch hargs hsetup, runScripts_host]
  generalize hts : turns reg options outDir w.files paths = ts at *
  have hany : (ts.countP (·.failed) = 0) = ¬ ts.any (·.failed) = true := by
    simp [List.countP_eq_zero]
  have herrors : ∀ files output, World.errors ⟨files, output, w.notices ++ ts.flatMap (·.notices)⟩ verbose =
      log verbose w ts := fun _ _ => rfl
  dsimp only
  simp only [hany, herrors, ite_not]
  refine ⟨hts.symm, ?_, ⟨_, halone, rfl, rfl⟩, ?_, rfl, rfl, ?_, endsLine_log⟩
  · rw [← hts, map_path_turns]
  · rintro rfl
    dsimp only
    rw [houtput, String.empty_append, ← hts, join_printed]
  · intro hexit hends
    cases hfails : ts.any (·.failed) with
    | false => simp [hfails] at hexit
    | true =>
        simp only [↓reduceIte]
        exact Script.getLast?_sourceLines hends (not_mem_summary (by decide) (by decide) _ _)
          (not_mem_summary (by decide) (by decide) _ _)

/-- The files of a batch of which one script is missing and the other, in the directory to work in, has this text. -/
def oneScript (text : String) : FileSystem :=
  FileSystem.fresh.put ["work", "a"] (.file text.toUTF8)

theorem batch_isolated_missing :
    Isolated default .standard {} none false ["missing", "a"] { files := oneScript "PUSH 1\n" }
        (turns .standard {} none (oneScript "PUSH 1\n") ["missing", "a"])
        (execute default (oneScript "PUSH 1\n") ["decompile", "batch", "missing", "a"]) ∧
      (execute default (oneScript "PUSH 1\n") ["decompile", "batch", "missing", "a"]).output = "// a\nvar_0 := 0x1\n" ∧
      (Script.sourceLines
        (execute default (oneScript "PUSH 1\n") ["decompile", "batch", "missing", "a"]).errors).getLast? =
        some "1 of 2 scripts failed" :=
  have hargs : invocation? ["decompile", "batch", "missing", "a"] = some ⟨false, .batch ["missing", "a"] none {}⟩ := by
    decide +kernel
  ⟨batch_isolated hargs rfl, by decide +kernel, by decide +kernel⟩

/-- A control function in a mnemonic that is not closed takes the end of its line along. -/
theorem batch_summary_joined :
    (execute default (oneScript "\x1b]X\n") ["decompile", "batch", "missing", "a"]).exit = 1 ∧
      (Script.sourceLines
        (execute default (oneScript "\x1b]X\n") ["decompile", "batch", "missing", "a"]).errors).getLast? =
        some "[WARN  emcdec_lib::parser] line 1: unhandled mnemonic 1 of 2 scripts failed" := by
  decide +kernel

end Unstack.CommandLine.Program
