import Unstack.Proofs.CommandLine.Actions
import Unstack.Proofs.FileSystem.Basic

/-!
# All or nothing

A file is decompiled and put out, or nothing is printed and no file changes; and of all that stands in the way, what is
needed first is what the failure names (`failure_atomic`). A batch that cannot be loaded leaves nothing behind either.
-/

namespace Unstack.CommandLine.Program

/-! ## What is loaded, and what stands in the way -/

/-- The registry of a request, which may name an overlay. -/
inductive LoadsRegistry (files : FileSystem) : Option String → Registry → Prop where
  | standard : LoadsRegistry files none .standard
  | overlay {path text overlay} (hread : files.readText path = .ok text)
      (htoml : Registry.ofToml? text = some overlay) :
      LoadsRegistry files (some path) (Registry.standard.extend overlay)

inductive RegistryFails (wording : Wording) (files : FileSystem) : Option String → Failure → Prop where
  | unreadable {path e} (hread : files.readText path = .error e) :
      RegistryFails wording files (some path) (.unreadable path e)
  | invalid {path text} (hread : files.readText path = .ok text) (htoml : Registry.ofToml? text = none) :
      RegistryFails wording files (some path) (.badOverlay path (wording.overlayError text))

/-- The table of strings of a request, if it names one. -/
inductive LoadsStrings (files : FileSystem) : Option String → Option (List String) → Prop where
  | none : LoadsStrings files none none
  | table {path text} (hread : files.readText path = .ok text) :
      LoadsStrings files (some path) (some (Script.sourceLines text))

inductive StringsFail (files : FileSystem) : Option String → Failure → Prop where
  | unreadable {path e} (hread : files.readText path = .error e) : StringsFail files (some path) (.unreadable path e)

structure Loads (files : FileSystem) (sources : Sources) (reg : Registry) (options : Options) : Prop where
  registry : LoadsRegistry files sources.builtins reg
  strings : LoadsStrings files sources.strings options.strings
  mode : options.mode = sources.mode

/-- The table of strings is not looked at unless the registry has been loaded. -/
inductive LoadingFails (wording : Wording) (files : FileSystem) (sources : Sources) : Failure → Prop where
  | registry {failure} (h : RegistryFails wording files sources.builtins failure) :
      LoadingFails wording files sources failure
  | strings {reg failure} (hreg : LoadsRegistry files sources.builtins reg)
      (h : StringsFail files sources.strings failure) : LoadingFails wording files sources failure

/-- The text that the script at a path is decompiled to. -/
inductive Decompiles (files : FileSystem) (sources : Sources) (path text : String) : Prop where
  | intro {reg options source} (hload : Loads files sources reg options) (hread : files.readText path = .ok source)
      (htext : decompile reg options source = .ok text)

/-- The first thing that stands in the way of decompiling a file: each but the first needs that everything before it has
succeeded. -/
inductive FileFails (wording : Wording) (files : FileSystem) (sources : Sources) (path : String)
    (output : Option String) : Failure → Prop where
  | loading {failure} (h : LoadingFails wording files sources failure) :
      FileFails wording files sources path output failure
  | unreadable {reg options e} (hload : Loads files sources reg options) (hread : files.readText path = .error e) :
      FileFails wording files sources path output (.unreadable path e)
  | badScript {reg options source e} (hload : Loads files sources reg options)
      (hread : files.readText path = .ok source) (herror : decompile reg options source = .error e) :
      FileFails wording files sources path output (.badScript path e)
  | unwritable {text dst e} (htext : Decompiles files sources path text) (hdst : output = some dst)
      (hwrite : files.writeText dst text = .error e) : FileFails wording files sources path output (.unwritable dst e)

variable {wording : Wording} {files : FileSystem} {sources : Sources} {reg : Registry} {options : Options}
  {failure : Failure} {path : String} {output : Option String} {w : World}

theorem exists_registry (wording : Wording) (files : FileSystem) (overlay : Option String) :
    (∃ reg, LoadsRegistry files overlay reg) ∨ ∃ failure, RegistryFails wording files overlay failure := by
  cases overlay with
  | none => exact Or.inl ⟨_, .standard⟩
  | some path =>
      cases hread : files.readText path with
      | error e => exact Or.inr ⟨_, .unreadable hread⟩
      | ok text =>
          cases htoml : Registry.ofToml? text with
          | none => exact Or.inr ⟨_, .invalid hread htoml⟩
          | some overlay => exact Or.inl ⟨_, .overlay hread htoml⟩

theorem exists_loads (wording : Wording) (files : FileSystem) (sources : Sources) :
    (∃ reg options, Loads files sources reg options) ∨ ∃ failure, LoadingFails wording files sources failure := by
  rcases exists_registry wording files sources.builtins with ⟨reg, hreg⟩ | ⟨failure, h⟩
  · cases hs : sources.strings with
    | none => exact Or.inl ⟨reg, ⟨sources.mode, none⟩, hreg, hs ▸ .none, rfl⟩
    | some path =>
        cases hread : files.readText path with
        | error e => exact Or.inr ⟨.unreadable path e, .strings hreg (hs ▸ .unreadable hread)⟩
        | ok text => exact Or.inl ⟨reg, ⟨sources.mode, some (Script.sourceLines text)⟩, hreg, hs ▸ .table hread, rfl⟩
  · exact Or.inr ⟨failure, .registry h⟩

/-! ## The world along the way -/

/-- Only entries of the log are added. -/
structure Logs (w w' : World) : Prop extends Quiet w w' where
  notices : ∃ events : List Event, w'.notices = w.notices ++ events.map .event

theorem Logs.refl (w : World) : Logs w w :=
  ⟨⟨rfl, rfl⟩, [], (List.append_nil _).symm⟩

theorem Logs.note (events : List Event) : Logs w { w with notices := w.notices ++ events.map .event } :=
  ⟨⟨rfl, rfl⟩, events, rfl⟩

theorem Logs.trans {w' w'' : World} (h : Logs w w') (h' : Logs w' w'') : Logs w w'' := by
  obtain ⟨events, he⟩ := h.notices
  obtain ⟨events', he'⟩ := h'.notices
  refine ⟨⟨h'.files.trans h.files, h'.output.trans h.output⟩, events ++ events', ?_⟩
  rw [he', he, List.map_append, List.append_assoc]

theorem LoadsRegistry.runOn {overlay : Option String} (h : LoadsRegistry w.files overlay reg) (wording : Wording) :
    ∃ w', Logs w w' ∧ runOn (loadRegistry (World.host wording) overlay) w = (.ok reg, w') := by
  cases h with
  | standard => exact ⟨w, .refl w, rfl⟩
  | @overlay path _ overlay hread htoml =>
      refine ⟨_, .note [.signaturesLoaded overlay.size path], ?_⟩
      simp only [loadRegistry, runOn_bind, runOn_readText, hread, mapError_ok, Registry.ofToml, htoml, runOn_note]
      rfl

theorem RegistryFails.runOn {overlay : Option String} (h : RegistryFails wording w.files overlay failure) :
    runOn (loadRegistry (World.host wording) overlay) w = (.error failure, w) := by
  cases h with
  | unreadable hread => simp only [loadRegistry, runOn_bind, runOn_readText, hread, mapError_error]
  | invalid hread htoml =>
      simp only [loadRegistry, runOn_bind, runOn_readText, hread, mapError_ok, Registry.ofToml, htoml]
      rfl

theorem LoadsStrings.runOn (h : LoadsStrings w.files sources.strings options.strings)
    (hmode : options.mode = sources.mode) (wording : Wording) :
    ∃ w', Logs w w' ∧ runOn (loadOptions (World.host wording) sources) w = (.ok options, w') := by
  obtain ⟨mode, strings⟩ := options
  obtain rfl : mode = sources.mode := hmode
  simp only [loadOptions]
  generalize sources.strings = path? at h
  cases h with
  | none => exact ⟨w, .refl w, rfl⟩
  | @table path text hread =>
      refine ⟨_, .note [.stringsLoaded (Script.sourceLines text).length path], ?_⟩
      simp only [runOn_bind, runOn_readText, hread, mapError_ok, runOn_note]
      rfl

theorem StringsFail.runOn (h : StringsFail w.files sources.strings failure) (wording : Wording) :
    runOn (loadOptions (World.host wording) sources) w = (.error failure, w) := by
  simp only [loadOptions]
  generalize sources.strings = path? at h
  cases h with
  | unreadable hread => simp only [runOn_bind, runOn_readText, hread, mapError_error]

variable {α : Type} (rest : Registry → Options → Action (StateM World) α)

/-- What is done with what is loaded. -/
def afterLoading (wording : Wording) (sources : Sources) : Action (StateM World) α := do
  let reg ← loadRegistry (World.host wording) sources.builtins
  let options ← loadOptions (World.host wording) sources
  rest reg options

theorem Loads.runOn (h : Loads w.files sources reg options) (wording : Wording) :
    ∃ w', Logs w w' ∧ runOn (afterLoading rest wording sources) w = runOn (rest reg options) w' := by
  obtain ⟨w₁, hw₁, hreg⟩ := h.registry.runOn wording
  have hstrings := h.strings
  rw [← hw₁.files] at hstrings
  obtain ⟨w₂, hw₂, hoptions⟩ := hstrings.runOn h.mode wording
  exact ⟨w₂, hw₁.trans hw₂, by simp only [afterLoading, runOn_bind, hreg, hoptions]⟩

theorem LoadingFails.runOn (h : LoadingFails wording w.files sources failure) :
    ∃ w', Logs w w' ∧ runOn (afterLoading rest wording sources) w = (.error failure, w') := by
  cases h with
  | registry h => exact ⟨w, .refl w, by simp only [afterLoading, runOn_bind, h.runOn]⟩
  | strings hreg h =>
      obtain ⟨w', hw', hreg⟩ := hreg.runOn wording
      rw [← hw'.files] at h
      exact ⟨w', hw', by simp only [afterLoading, runOn_bind, hreg, h.runOn wording]⟩

/-! ## Decompiling a file -/

/-- Puts a text out, to a file or to the output. -/
def putOut (wording : Wording) (output : Option String) (text : String) : Action (StateM World) Unit :=
  match output with
  | some dst => orFail (.unwritable dst) ((World.host wording).writeText dst text)
  | none => print (World.host wording) text

def runLoaded (wording : Wording) (path : String) (output : Option String) (reg : Registry) (options : Options) :
    Action (StateM World) Unit := do
  putOut wording output (← decompileAt (World.host wording) reg options path)

theorem runFile_eq (path : String) (output : Option String) (sources : Sources) :
    runFile (World.host wording) path output sources = afterLoading (runLoaded wording path output) wording sources :=
  rfl

/-- Once everything is loaded, a file is decompiled and put out. -/
theorem runOn_runFile (h : Loads w.files sources reg options) (path : String) (output : Option String)
    (wording : Wording) :
    ∃ w', Logs w w' ∧ runOn (runFile (World.host wording) path output sources) w =
      match w.files.readText path with
      | .error e => (.error (.unreadable path e), w')
      | .ok source =>
        let noted := { w' with notices := w'.notices ++ (decompileEvents reg options source).map .event }
        match decompile reg options source with
        | .error e => (.error (.badScript path e), noted)
        | .ok text => runOn (putOut wording output text) noted := by
  obtain ⟨w', hw', hrun⟩ := h.runOn (runLoaded wording path output) wording
  refine ⟨w', hw', ?_⟩
  simp only [runFile_eq, hrun, runLoaded, runOn_bind, runOn_decompileAt, hw'.files]
  cases w.files.readText path with
  | error e => rfl
  | ok source => cases hd : decompile reg options source <;> simp only [hd, mapError_ok, mapError_error]

theorem Decompiles.runOn {text : String} (h : Decompiles w.files sources path text) (output : Option String)
    (wording : Wording) :
    ∃ w', Logs w w' ∧
      runOn (runFile (World.host wording) path output sources) w = runOn (putOut wording output text) w' := by
  obtain ⟨hload, hread, htext⟩ := h
  obtain ⟨w', hw', hrun⟩ := runOn_runFile hload path output wording
  simp only [hread, htext] at hrun
  exact ⟨_, hw'.trans (.note _), hrun⟩

theorem FileFails.runOn (h : FileFails wording w.files sources path output failure) :
    ∃ w', Logs w w' ∧ runOn (runFile (World.host wording) path output sources) w = (.error failure, w') := by
  cases h with
  | loading h => exact h.runOn _
  | unreadable hload hread =>
      obtain ⟨w', hw', hrun⟩ := runOn_runFile hload path output wording
      simp only [hread] at hrun
      exact ⟨w', hw', hrun⟩
  | badScript hload hread herror =>
      obtain ⟨w', hw', hrun⟩ := runOn_runFile hload path output wording
      simp only [hread, herror] at hrun
      exact ⟨_, hw'.trans (.note _), hrun⟩
  | unwritable htext hdst hwrite =>
      obtain ⟨w', hw', hrun⟩ := htext.runOn output wording
      subst hdst
      rw [← hw'.files] at hwrite
      exact ⟨w', hw', by simp only [hrun, putOut, runOn_writeText, hwrite]⟩

theorem exists_decompiles (wording : Wording) (files : FileSystem) (sources : Sources) (path : String)
    (output : Option String) : (∃ text, Decompiles files sources path text) ∨
      ∃ failure, FileFails wording files sources path output failure := by
  rcases exists_loads wording files sources with ⟨reg, options, hload⟩ | ⟨failure, h⟩
  · cases hread : files.readText path with
    | error e => exact Or.inr ⟨_, .unreadable hload hread⟩
    | ok source =>
        cases htext : decompile reg options source with
        | error e => exact Or.inr ⟨_, .badScript hload hread htext⟩
        | ok text => exact Or.inl ⟨text, hload, hread, htext⟩
  · exact Or.inr ⟨failure, .loading h⟩

/-! ## Reports -/

/-- Nothing is printed and no file changes; what is reported, behind entries of the log, is the failure. -/
structure Refused (files : FileSystem) (verbose : Bool) (failure : Failure) (report : Report) : Prop where
  exit : report.exit = 1
  output : report.output = ""
  files : report.files = files
  errors : ∃ events : List Event, report.errors =
    String.join (events.map fun e => (Notice.event e).text verbose) ++ (failure.message ++ "\n")

/-- The path leads to a file with this text, and nothing else has changed. -/
inductive OnlyWritten (files : FileSystem) (path text : String) (final : FileSystem) : Prop where
  | intro {place : List String} (workDir : final.workDir = files.workDir)
      (file : final.FileAt path place text.toUTF8) (read : final.readText path = .ok text)
      (others : ∀ other, other ≠ place → final.node? other = files.node? other)

/-- The text is in the file that was asked for and nowhere else, or it is all that was printed. -/
inductive PutOut (files : FileSystem) (text : String) (report : Report) : Option String → Prop where
  | written {dst} (silent : report.output = "") (only : OnlyWritten files dst text report.files) :
      PutOut files text report (some dst)
  | printed (exact : report.output = text) (unchanged : report.files = files) : PutOut files text report none

theorem onlyWritten_of_writeText {text : String} {final : FileSystem} (h : files.writeText path text = .ok final) :
    OnlyWritten files path text final := by
  obtain ⟨dir, name, _, hfree, rfl, hfile⟩ := FileSystem.writeText_eq_ok h
  have hne : dir ++ [name] ≠ [] := by simp
  refine ⟨rfl, hfile, hfile.readText (FileSystem.fromUTF8?_toUTF8 text), fun other ho => ?_⟩
  rw [FileSystem.node?_put files hne, if_neg ho]

section

variable {args : List String} {verbose : Bool} {request : Request}

theorem refused_of_runOn (hargs : invocation? args = some ⟨verbose, request⟩)
    (hrun : ∃ w, Logs { files } w ∧ runOn (run (World.host wording) request) { files } = (.error failure, w)) :
    Refused files verbose failure (execute wording files args) := by
  obtain ⟨w, hw, hrun⟩ := hrun
  obtain ⟨events, hevents⟩ := hw.notices
  have hreport : execute wording files args =
      ⟨1, w.output, w.errors verbose ++ (failure.message ++ "\n"), w.files⟩ := by
    simp only [execute, hargs, exitStatus_host, hrun, errors_message]
  rw [hreport]
  refine ⟨rfl, hw.output, hw.files, events, ?_⟩
  rw [World.errors, hevents]
  simp only [List.nil_append, List.map_map, Function.comp_def]

theorem execute_of_runOn (hargs : invocation? args = some ⟨verbose, request⟩)
    (hrun : runOn (run (World.host wording) request) { files } = (.ok (), w)) :
    execute wording files args = ⟨0, w.output, w.errors verbose, w.files⟩ := by
  simp only [execute, hargs, exitStatus_host, hrun]

/-- What is reported of a request to decompile a file, whatever comes of it. -/
structure Atomic (wording : Wording) (files : FileSystem) (verbose : Bool) (sources : Sources) (path : String)
    (output : Option String) (report : Report) : Prop where
  exit : report.exit = 0 ∨ report.exit = 1
  refused : ∀ failure, FileFails wording files sources path output failure → Refused files verbose failure report
  failed : report.exit = 1 → ∃ failure, FileFails wording files sources path output failure
  done : report.exit = 0 → ∃ text, Decompiles files sources path text ∧ PutOut files text report output

/-- What is put out is what was decompiled, unless it cannot be written. -/
theorem exists_failure_or_putOut {text : String} (h : Decompiles files sources path text)
    (hargs : invocation? args = some ⟨verbose, .file path output sources⟩) :
    (∃ failure, FileFails wording files sources path output failure) ∨
      (execute wording files args).exit = 0 ∧ PutOut files text (execute wording files args) output := by
  obtain ⟨w, hw, hrun⟩ := Decompiles.runOn (w := { files }) h output wording
  have hrequest : ∀ w', runOn (putOut wording output text) w = (.ok (), w') →
      execute wording files args = ⟨0, w'.output, w'.errors verbose, w'.files⟩ :=
    fun _ hput => execute_of_runOn hargs (hrun.trans hput)
  cases output with
  | none =>
      rw [hrequest _ (runOn_print text w)]
      refine Or.inr ⟨rfl, .printed ?_ hw.files⟩
      rw [hw.output, String.empty_append]
  | some dst =>
      cases hwrite : files.writeText dst text with
      | error e => exact Or.inl ⟨_, .unwritable h rfl hwrite⟩
      | ok final =>
          have hput : runOn (putOut wording (some dst) text) w = (.ok (), { w with files := final }) := by
            simp only [putOut, runOn_writeText, hw.files, hwrite]
          rw [hrequest _ hput]
          exact Or.inr ⟨rfl, .written hw.output (onlyWritten_of_writeText hwrite)⟩

/-- A request to decompile a file is carried out as a whole or leaves nothing behind but the first failure, and a batch
does nothing before everything has been loaded. -/
theorem failure_atomic (wording : Wording) (files : FileSystem) (args : List String) (verbose : Bool) :
    (∀ path output sources, invocation? args = some ⟨verbose, .file path output sources⟩ →
      Atomic wording files verbose sources path output (execute wording files args)) ∧
    ∀ paths outDir sources failure, invocation? args = some ⟨verbose, .batch paths outDir sources⟩ →
      LoadingFails wording files sources failure → Refused files verbose failure (execute wording files args) := by
  refine ⟨fun path output sources hargs => ?_, fun paths outDir sources failure hargs h => ?_⟩
  · have hrefused : ∀ failure, FileFails wording files sources path output failure →
        Refused files verbose failure (execute wording files args) :=
      fun _ h => refused_of_runOn hargs (FileFails.runOn (w := { files }) h)
    have hend : (∃ failure, FileFails wording files sources path output failure) ∨
        (execute wording files args).exit = 0 ∧ ∃ text, Decompiles files sources path text ∧
          PutOut files text (execute wording files args) output := by
      rcases exists_decompiles wording files sources path output with ⟨text, htext⟩ | h
      · exact (exists_failure_or_putOut htext hargs).imp_right fun h => ⟨h.1, text, htext, h.2⟩
      · exact Or.inl h
    rcases hend with ⟨failure, h⟩ | ⟨hzero, hdone⟩
    · have hone := (hrefused failure h).exit
      exact ⟨Or.inr hone, hrefused, fun _ => ⟨failure, h⟩, fun hzero => absurd (hone.symm.trans hzero) (by decide)⟩
    · exact ⟨Or.inl hzero, hrefused, fun hone => absurd (hzero.symm.trans hone) (by decide), fun _ => hdone⟩
  · exact refused_of_runOn hargs (h.runOn (w := { files }) _)

end

/-- What is said of an overlay in which the functions are no table. -/
def tableExpected : String :=
  "TOML parse error at line 1, column 13\n  |\n1 | functions = 1\n  |             ^\n" ++
    "invalid type: integer `1`, expected a map\n"

/-- A script that is written over by what it is decompiled to, requests of which everything is missing, and one with an
overlay that is refused. -/
theorem failure_atomic_overwritten :
    let wording := { (default : Wording) with overlayError := fun _ => tableExpected }
    let files := (FileSystem.fresh.put ["work", "a"] (.file "PUSH 1\n".toUTF8)).put ["work", "o"]
      (.file "functions = 1".toUTF8)
    (∃ text, Decompiles files {} "a" text ∧
      PutOut files text (execute wording files ["decompile", "file", "a", "-o", "a"]) (some "a")) ∧
    Refused files false (.unreadable "b" .notFound)
      (execute wording files ["decompile", "file", "x", "--strings", "t", "--builtins", "b", "-o", "a"]) ∧
    Refused files false (.badOverlay "o" tableExpected)
      (execute wording files ["decompile", "file", "x", "--builtins", "o"]) ∧
    Refused files false (.unreadable "t" .notFound)
      (execute wording files ["decompile", "batch", "a", "x", "--strings", "t", "--out-dir", "d"]) := by
  intro wording files
  have hargs : invocation? ["decompile", "file", "a", "-o", "a"] = some ⟨false, .file "a" (some "a") {}⟩ := by
    decide +kernel
  have hfile : invocation? ["decompile", "file", "x", "--strings", "t", "--builtins", "b", "-o", "a"] =
      some ⟨false, .file "x" (some "a") ⟨.pseudo, some "b", some "t"⟩⟩ := by
    decide +kernel
  have hoverlay : invocation? ["decompile", "file", "x", "--builtins", "o"] =
      some ⟨false, .file "x" none ⟨.pseudo, some "o", none⟩⟩ := by
    decide +kernel
  have hbatch : invocation? ["decompile", "batch", "a", "x", "--strings", "t", "--out-dir", "d"] =
      some ⟨false, .batch ["a", "x"] (some "d") ⟨.pseudo, none, some "t"⟩⟩ := by
    decide +kernel
  have hmissing : ∀ path ∈ ["b", "t"], (files.readText path) = .error .notFound := by
    intro path hp
    rcases List.mem_pair.mp hp with rfl | rfl <;> rfl
  have hthere : files.readText "o" = .ok "functions = 1" := rfl
  have htoml : Registry.ofToml? "functions = 1" = none := by
    decide +kernel
  refine ⟨?_, ?_, ?_, ?_⟩
  · exact ((failure_atomic wording files _ false).1 _ _ _ hargs).done (by decide +kernel)
  · exact ((failure_atomic wording files _ false).1 _ _ _ hfile).refused _
      (.loading (.registry (.unreadable (hmissing "b" (by simp)))))
  · exact ((failure_atomic wording files _ false).1 _ _ _ hoverlay).refused _
      (.loading (.registry (.invalid hthere htoml)))
  · exact (failure_atomic wording files _ false).2 _ _ _ _ hbatch
      (.strings .standard (.unreadable (hmissing "t" (by simp))))

end Unstack.CommandLine.Program
