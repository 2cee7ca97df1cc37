import Unstack.CommandLine.Program

/-!
# What the actions of the program do to a world

One lemma for each action says what it gives and what world it leaves. What is done before the first script only
adds notices (`Quiet`).
-/

namespace Unstack.CommandLine.Program

variable {α β : Type} {wording : Wording}

/-- What an action does to a world. -/
def runOn (act : Action (StateM World) α) (w : World) : Except Failure α × World :=
  act.run.run w

theorem runOn_bind (act : Action (StateM World) α) (f : α → Action (StateM World) β) (w : World) :
    runOn (act >>= f) w =
      match runOn act w with
      | (.ok a, w') => runOn (f a) w'
      | (.error failure, w') => (.error failure, w') := by
  simp only [runOn, ExceptT.run_bind, StateT.run_bind]
  generalize act.run.run w = r
  obtain ⟨a | failure, w'⟩ := r <;> rfl

theorem runOn_note (events : List Event) (w : World) :
    runOn (note (World.host wording) events) w = (.ok (), { w with notices := w.notices ++ events.map .event }) := by
  induction events generalizing w with
  | nil => simp [runOn, note]; rfl
  | cons e events ih =>
      have hstep : runOn (note (World.host wording) (e :: events)) w =
          runOn (note (World.host wording) events) { w with notices := w.notices ++ [.event e] } := rfl
      rw [hstep, ih]
      simp

theorem runOn_lift (act : StateM World α) (w : World) :
    runOn (ExceptT.lift act) w = (.ok (act.run w).1, (act.run w).2) :=
  rfl

theorem runOn_print (text : String) (w : World) :
    runOn (print (World.host wording) text) w = (.ok (), { w with output := w.output ++ text }) :=
  rfl

theorem mapError_ok {ε ε' : Type} (f : ε → ε') (a : α) : (Except.ok a).mapError f = .ok a :=
  rfl

theorem mapError_error {ε ε' : Type} (f : ε → ε') (e : ε) : (Except.error e : Except ε α).mapError f = .error (f e) :=
  rfl

theorem runOn_orFail (failure : DiskError → Failure) (act : StateM World (Except DiskError α)) (w : World) :
    runOn (orFail failure act) w = ((act.run w).1.mapError failure, (act.run w).2) := by
  simp only [runOn, orFail, ExceptT.run_mk, StateT.run_bind]
  generalize act.run w = r
  obtain ⟨a | e, w'⟩ := r <;> rfl

theorem runOn_readText (path : String) (w : World) :
    runOn (readText (World.host wording) path) w = ((w.files.readText path).mapError (.unreadable path), w) :=
  runOn_orFail _ _ _

theorem runOn_writeText (failure : DiskError → Failure) (path text : String) (w : World) :
    runOn (orFail failure ((World.host wording).writeText path text)) w =
      match w.files.writeText path text with
      | .ok files => (.ok (), { w with files })
      | .error e => (.error (failure e), w) := by
  have hwrite : ((World.host wording).writeText path text).run w =
      match w.files.writeText path text with
      | .ok files => (.ok (), { w with files })
      | .error e => (.error e, w) := rfl
  rw [runOn_orFail, hwrite]
  cases w.files.writeText path text <;> rfl

theorem runOn_decompileAt (reg : Registry) (options : Options) (path : String) (w : World) :
    runOn (decompileAt (World.host wording) reg options path) w =
      match w.files.readText path with
      | .error e => (.error (.unreadable path e), w)
      | .ok source =>
        ((decompile reg options source).mapError (.badScript path),
          { w with notices := w.notices ++ (decompileEvents reg options source).map .event }) := by
  simp only [decompileAt, runOn_bind, runOn_readText]
  cases w.files.readText path with
  | error e => rfl
  | ok source =>
      simp only [mapError_ok, runOn_note]
      cases decompile reg options source <;> rfl

/-! ## Exit status and errors -/

theorem exitStatus_host (request : Request) (w : World) :
    (exitStatus (World.host wording) request).run w =
      match runOn (run (World.host wording) request) w with
      | (.ok (), w') => (0, w')
      | (.error failure, w') => (1, { w' with notices := w'.notices ++ [.message failure.message] }) := by
  simp only [exitStatus, StateT.run_bind, runOn]
  generalize (run (World.host wording) request).run.run w = r
  obtain ⟨failure | _, w'⟩ := r <;> rfl

theorem errors_message (w : World) (text : String) (verbose : Bool) :
    ({ w with notices := w.notices ++ [.message text] } : World).errors verbose =
      w.errors verbose ++ (text ++ "\n") := by
  simp [World.errors, Notice.text]

/-! ## Loading -/

/-- Only notices are added. -/
structure Quiet (w w' : World) : Prop where
  files : w'.files = w.files
  output : w'.output = w.output

theorem loadRegistry_quiet (wording : Wording) (overlay : Option String) (w : World) :
    Quiet w (runOn (loadRegistry (World.host wording) overlay) w).2 := by
  cases overlay with
  | none => exact ⟨rfl, rfl⟩
  | some path =>
      simp only [loadRegistry, runOn_bind, runOn_readText]
      cases w.files.readText path with
      | error e => exact ⟨rfl, rfl⟩
      | ok text =>
          simp only [mapError_ok]
          cases Registry.ofToml (World.host wording).wording.overlayError text with
          | error reason => exact ⟨rfl, rfl⟩
          | ok overlay =>
              simp only [runOn_bind, runOn_note]
              exact ⟨rfl, rfl⟩

theorem loadOptions_quiet (wording : Wording) (sources : Sources) (w : World) :
    Quiet w (runOn (loadOptions (World.host wording) sources) w).2 := by
  simp only [loadOptions]
  cases sources.strings with
  | none => exact ⟨rfl, rfl⟩
  | some path =>
      simp only [runOn_bind, runOn_readText]
      cases w.files.readText path with
      | error e => exact ⟨rfl, rfl⟩
      | ok text =>
          simp only [mapError_ok, runOn_note]
          exact ⟨rfl, rfl⟩

end Unstack.CommandLine.Program
