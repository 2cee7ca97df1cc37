import Unstack.Proofs.CommandLine.Actions

/-!
# The turns of a batch

`turns` says what comes of each script of a batch at its turn, given the files that the ones before it leave, and the
loop does what its turns say (`runScripts_host`). A turn that fails changes no file and prints nothing, so the other
scripts have the same turns without it (`turns_survivors`).
-/

namespace Unstack.CommandLine.Program

/-- What comes of one script of a batch. -/
structure Turn where
  path : String
  /-- What is noted along the way. -/
  events : List Event := []
  /-- The text that the script is decompiled to, if it is put out. -/
  result : Except Failure String
  printed : String := ""
  /-- The files afterwards. -/
  files : FileSystem

namespace Turn

def failed (t : Turn) : Bool :=
  t.result.toOption.isNone

/-- What the error channel gets: the events, and one message if the script failed. -/
def notices (t : Turn) : List Notice :=
  t.events.map .event ++
    match t.result with
    | .ok _ => []
    | .error failure => [.message (failureNotice failure)]

end Turn

section

variable (reg : Registry) (options : Options) (outDir : Option String)

/-- What comes of the script at a path, given the files. -/
def turn (files : FileSystem) (path : String) : Turn :=
  match files.readText path with
  | .error e => { path, result := .error (.unreadable path e), files }
  | .ok source =>
    let events := decompileEvents reg options source
    match decompile reg options source, outDir with
    | .error e, _ => { path, events, result := .error (.badScript path e), files }
    | .ok text, none => { path, events, result := .ok text, printed := s!"// {path}\n" ++ text, files }
    | .ok text, some dir =>
      match files.writeText (outPath dir path) text with
      | .error e => { path, events, result := .error (.unwritable (outPath dir path) e), files }
      | .ok files => { path, events, result := .ok text, files }

/-- What comes of the scripts one after the other. -/
def turns (files : FileSystem) : List String → List Turn
  | [] => []
  | path :: rest => turn reg options outDir files path :: turns (turn reg options outDir files path).files rest

/-- The files that are left. -/
def filesAfter (files : FileSystem) (ts : List Turn) : FileSystem :=
  ts.foldl (fun _ t => t.files) files

end

variable {wording : Wording} {reg : Registry} {options : Options} {outDir : Option String}

theorem runOn_runScript (path : String) (w : World) :
    runOn (runScript (World.host wording) reg options outDir path) w =
      let t := turn reg options outDir w.files path
      (t.result.map fun _ => (),
        { files := t.files
          output := w.output ++ t.printed
          notices := w.notices ++ t.events.map .event }) := by
  simp only [runScript, runOn_bind, runOn_decompileAt, turn]
  cases w.files.readText path with
  | error e => simp [Except.map]
  | ok source =>
      cases hd : decompile reg options source with
      | error e => simp [hd, Except.map, mapError_error]
      | ok text =>
          cases outDir with
          | none => simp [hd, Except.map, mapError_ok, runOn_print]
          | some dir =>
              simp only [hd, mapError_ok, runOn_writeText]
              cases w.files.writeText (outPath dir path) text <;> simp [Except.map]

/-- The loop does what the turns of the scripts say. -/
theorem runScripts_host (wording : Wording) (reg : Registry) (options : Options) (outDir : Option String)
    (paths : List String) (w : World) :
    (runScripts (World.host wording) reg options outDir paths).run w =
      let ts := turns reg options outDir w.files paths
      (ts.countP (·.failed),
        { files := filesAfter w.files ts
          output := w.output ++ String.join (ts.map (·.printed))
          notices := w.notices ++ ts.flatMap (·.notices) }) := by
  -- each script starts in the world that the one before leaves, so the induction is over all worlds
  induction paths generalizing w with
  | nil => simp [runScripts, turns, filesAfter]; rfl
  | cons path paths ih =>
      have hscript : (runScript (World.host wording) reg options outDir path).run.run w = _ := runOn_runScript path w
      simp only [runScripts, StateT.run_bind, hscript, turns]
      generalize turn reg options outDir w.files path = t
      cases hr : t.result with
      | ok text =>
          refine (ih { files := t.files
                       output := w.output ++ t.printed
                       notices := w.notices ++ t.events.map .event }).trans ?_
          simp [Turn.failed, Turn.notices, hr, filesAfter, String.append_assoc, Except.toOption]
      | error failure =>
          have hrest := ih { files := t.files
                             output := w.output ++ t.printed
                             notices := w.notices ++ t.events.map .event ++ [.message (failureNotice failure)] }
          refine (congrArg (fun r => (r.1 + 1, r.2)) hrest).trans ?_
          simp [Turn.failed, Turn.notices, hr, filesAfter, String.append_assoc, Except.toOption]

theorem turns_append (files : FileSystem) (l₁ l₂ : List String) :
    turns reg options outDir files (l₁ ++ l₂) =
      turns reg options outDir files l₁ ++
        turns reg options outDir (filesAfter files (turns reg options outDir files l₁)) l₂ := by
  induction l₁ generalizing files with
  | nil => rfl
  | cons path l₁ ih => simp [turns, ih, filesAfter]

theorem filesAfter_append (files : FileSystem) (ts₁ ts₂ : List Turn) :
    filesAfter files (ts₁ ++ ts₂) = filesAfter (filesAfter files ts₁) ts₂ :=
  List.foldl_append

/-! ## Turns that fail -/

theorem turn_path (files : FileSystem) (path : String) : (turn reg options outDir files path).path = path := by
  simp only [turn]
  split
  · rfl
  · split
    · rfl
    · rfl
    · split <;> rfl

theorem turn_files_of_failed {files : FileSystem} {path : String}
    (h : (turn reg options outDir files path).failed = true) :
    (turn reg options outDir files path).files = files ∧ (turn reg options outDir files path).printed = "" := by
  revert h
  simp only [turn]
  split
  · exact fun _ => ⟨rfl, rfl⟩
  · split
    · exact fun _ => ⟨rfl, rfl⟩
    · exact nofun
    · split
      · exact fun _ => ⟨rfl, rfl⟩
      · exact nofun

/-- With a directory for the output, a turn that does not fail writes what the script is decompiled to. -/
theorem turn_eq_of_not_failed {dir : String} {files : FileSystem} {path : String}
    (h : (turn reg options (some dir) files path).failed = false) :
    ∃ source text, files.readText path = .ok source ∧ decompile reg options source = .ok text ∧
      files.writeText (outPath dir path) text = .ok (turn reg options (some dir) files path).files := by
  revert h
  simp only [turn]
  cases files.readText path with
  | error e => simp [Turn.failed, Except.toOption]
  | ok source =>
      cases hd : decompile reg options source with
      | error e => simp [hd, Turn.failed, Except.toOption]
      | ok text => cases hw : files.writeText (outPath dir path) text <;> simp [hd, hw, Turn.failed, Except.toOption]

/-- The scripts that do not fail at their turns. -/
def survivors (ts : List Turn) : List String :=
  (ts.filter (!·.failed)).map (·.path)

/-- Without those that fail the other scripts have the same turns. -/
theorem turns_survivors (files : FileSystem) (paths : List String) :
    turns reg options outDir files (survivors (turns reg options outDir files paths)) =
      (turns reg options outDir files paths).filter (!·.failed) := by
  induction paths generalizing files with
  | nil => rfl
  | cons path paths ih =>
      have hrest := ih (turn reg options outDir files path).files
      simp only [turns, survivors] at hrest ⊢
      cases hf : (turn reg options outDir files path).failed with
      | true =>
          rw [List.filter_cons_of_neg (by simp [hf])]
          rwa [(turn_files_of_failed hf).1] at hrest ⊢
      | false =>
          rw [List.filter_cons_of_pos (by simp [hf]), List.map_cons, turns, turn_path, hrest]

theorem filesAfter_survivors (files : FileSystem) (paths : List String) :
    filesAfter files ((turns reg options outDir files paths).filter (!·.failed)) =
      filesAfter files (turns reg options outDir files paths) := by
  induction paths generalizing files with
  | nil => rfl
  | cons path paths ih =>
      have hrest := ih (turn reg options outDir files path).files
      simp only [turns]
      cases hf : (turn reg options outDir files path).failed with
      | true =>
          rw [List.filter_cons_of_neg (by simp [hf])]
          rw [(turn_files_of_failed hf).1] at hrest ⊢
          rw [hrest, filesAfter, filesAfter, List.foldl_cons, (turn_files_of_failed hf).1]
      | false =>
          rw [List.filter_cons_of_pos (by simp [hf])]
          exact hrest

theorem exists_turn {files : FileSystem} {paths : List String} {t : Turn}
    (h : t ∈ turns reg options outDir files paths) :
    ∃ files path, t = turn reg options outDir files path := by
  induction paths generalizing files with
  | nil => cases h
  | cons path paths ih =>
      rcases List.mem_cons.mp h with rfl | h
      · exact ⟨files, path, rfl⟩
      · exact ih h

theorem join_printed_survivors (files : FileSystem) (paths : List String) :
    String.join (((turns reg options outDir files paths).filter (!·.failed)).map (·.printed)) =
      String.join ((turns reg options outDir files paths).map (·.printed)) := by
  have hsilent : ∀ t ∈ turns reg options outDir files paths, t.failed = true → t.printed = "" := by
    intro t ht hf
    obtain ⟨files, path, rfl⟩ := exists_turn ht
    exact (turn_files_of_failed hf).2
  revert hsilent
  generalize turns reg options outDir files paths = ts
  intro hsilent
  induction ts with
  | nil => rfl
  | cons t ts ih =>
      obtain ⟨ht, hts⟩ := List.forall_mem_cons.mp hsilent
      rw [List.map_cons, String.join_cons, ← ih hts]
      cases hf : t.failed with
      | true => rw [List.filter_cons_of_neg (by simp [hf]), ht hf, String.empty_append]
      | false => rw [List.filter_cons_of_pos (by simp [hf]), List.map_cons, String.join_cons]

end Unstack.CommandLine.Program
