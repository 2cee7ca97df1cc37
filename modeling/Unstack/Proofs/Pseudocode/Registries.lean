import Unstack.Builtin.Standard
import Unstack.Decompile
import Unstack.Proofs.Pseudocode.Blocks
import Unstack.Proofs.Table

/-!
# What the registry has to do with the output

The lines of pseudocode are the same under every registry but for two kinds of gaps: the left-hand side of an
assignment and the arguments between the parentheses of a call (`pseudocode_eq_code`). Registries that know the
functions of a disassembly by the same signatures fill them alike, so nothing that is shown tells one from the other
(`names_only`).
-/

namespace Unstack

open Command (Reads codeWords Calls)

variable {d d' : Draft} {s : Script} {r₁ r₂ : Registry}

/-! ## Lines with gaps -/

/-- A part of a line: a text, or a gap. -/
inductive Piece where
  | text (t : String)
  /-- The left-hand side of the assignment with this number, which is slot number `slot`. -/
  | target (id slot : Nat)
  /-- What stands between the parentheses of a call of this function. -/
  | arguments (name : String)
deriving DecidableEq

/-- What a registry puts there. -/
def Piece.fill (s : Script) (reg : Registry) : Piece → String
  | text t => t
  | target id slot => ((s.bindings reg).get? id).getD s!"var_{slot}"
  | arguments name =>
    match reg.lookup name with
    | none => "TODO ARGS"
    | some sig => ", ".intercalate (sig.params.map (·.name))

def Piece.fillAll (s : Script) (reg : Registry) (pieces : List Piece) : String :=
  String.join (pieces.map (Piece.fill s reg))

def callPieces (name : String) : List Piece :=
  [.text (name ++ "("), .arguments name, .text ")"]

namespace Expr

def parenthesizePieces (e : Expr) (pieces : List Piece) : List Piece :=
  match e with
  | binary .. => .text "(" :: pieces ++ [.text ")"]
  | _ => pieces

def pieces (callee? : Nat → Option String) : Expr → List Piece
  | literal value => [.text (Hex.signed value)]
  | argument index => [.text s!"ARG[{Hex.unsigned index}]"]
  | localVar index => [.text s!"var{index}"]
  | result id => ((callee? id).map callPieces).getD []
  | binary op left right =>
    parenthesizePieces left (left.pieces callee?) ++ .text (" " ++ op.symbol ++ " ") ::
      parenthesizePieces right (right.pieces callee?)
  | unary op operand => .text op.symbol :: parenthesizePieces operand (operand.pieces callee?)

def guardPieces (callee? : Nat → Option String) (condition : Expr) : List Piece :=
  match condition.inverse? with
  | some inverse => .text "if(" :: inverse.pieces callee? ++ [.text ")"]
  | none => .text "if(! " :: condition.pieces callee? ++ [.text ")"]

end Expr

/-- A line of pseudocode without its names. -/
inductive CodeLine where
  | empty
  | landing (addr : Nat)
  | label (id : Nat)
  /-- The line of the instruction with this number, which is slot number `slot`. -/
  | code (indented : Bool) (id slot : Nat) (action : Action)
deriving DecidableEq

namespace CodeLine

/-- Whether the line is empty, a marker, an unconditional jump or a return. -/
def isFixed : CodeLine → Bool
  | empty | landing _ | label _ | code _ _ _ (.goto _) | code _ _ _ .ret => true
  | code .. => false

def pieces (s : Script) : CodeLine → List Piece
  | empty => []
  | landing addr => [.text ("JUMP_TARGET_" ++ Hex.unsigned addr ++ ":")]
  | label id => [.text s!"LABEL_{id}:"]
  | code indented id slot action =>
    .text (if indented then "  " else "") ::
      match action with
      | .assign value => .target id slot :: .text " := " :: value.pieces s.callee?
      | .call name => callPieces name
      | .goto target => [.text (s.gotoText target)]
      | .branch target condition => condition.guardPieces s.callee? ++ [.text (" then " ++ s.gotoText target)]
      | .ret => [.text "return"]
      | .unknown _ => []

def text (s : Script) (reg : Registry) (line : CodeLine) : String :=
  Piece.fillAll s reg (line.pieces s)

/-- What a registry puts in the gaps does not show in a line that has none. -/
theorem text_of_isFixed {line : CodeLine} (h : line.isFixed = true) (s : Script) (r₁ r₂ : Registry) :
    line.text s r₁ = line.text s r₂ := by
  cases line with
  | empty | landing _ | label _ => rfl
  | code indented id slot action =>
      cases action with
      | goto _ | ret => rfl
      | _ => cases h

end CodeLine

namespace Script

/-- The lines of these instructions, the first of which is slot number `slot` or stands right before it. -/
def codeFrom (s : Script) (indented : Bool) (slot : Nat) : List (Nat × Instr) → List CodeLine
  | [] => []
  | (id, i) :: rest =>
    let landing := s.landings.contains id
    let labels := s.labelsAt i.addr
    (if landing then [.empty, .landing i.addr] else []) ++
      (if i.action.isUnknown then [] else [.code (indented || landing) id slot i.action]) ++
      (labels.flatMap fun label => [.empty, .label label]) ++
      codeFrom s (indented || landing || !labels.isEmpty) (if i.action.isUnknown then slot else slot + 1) rest

/-- The lines of the pseudocode of a script, without their names. -/
def code (s : Script) : List CodeLine :=
  s.codeFrom false 0 s.instructions

end Script

/-! ## Filling the gaps -/

section

variable (s : Script) (reg : Registry)

namespace Piece

theorem fillAll_append (l₁ l₂ : List Piece) : fillAll s reg (l₁ ++ l₂) = fillAll s reg l₁ ++ fillAll s reg l₂ := by
  rw [fillAll, List.map_append, String.join_append]
  rfl

theorem fillAll_cons (p : Piece) (l : List Piece) : fillAll s reg (p :: l) = p.fill s reg ++ fillAll s reg l :=
  String.join_cons

theorem fillAll_nil : fillAll s reg [] = "" :=
  rfl

theorem fillAll_callPieces (name : String) : fillAll s reg (callPieces name) = Script.callText reg name := by
  simp only [callPieces, fillAll_cons, fillAll_nil, fill, Script.callText]
  cases reg.lookup name with
  | none => simp [String.append_assoc]
  | some sig => simp [String.append_assoc]

theorem fillAll_parenthesizePieces (e : Expr) (l : List Piece) :
    fillAll s reg (e.parenthesizePieces l) = e.parenthesize (fillAll s reg l) := by
  cases e with
  | binary =>
      simp [Expr.parenthesizePieces, Expr.parenthesize, fillAll_cons, fillAll_append, fillAll_nil, fill,
        String.append_assoc]
  | _ => rfl

theorem fillAll_pieces (e : Expr) : fillAll s reg (e.pieces s.callee?) = e.render (s.resultText reg) := by
  induction e with
  | literal | argument | localVar => simp [Expr.pieces, Expr.render, fillAll_cons, fillAll_nil, fill]
  | result id =>
      simp only [Expr.pieces, Expr.render, Script.resultText]
      cases s.callee? id with
      | none => rfl
      | some name => exact fillAll_callPieces s reg name
  | binary op left right ihl ihr =>
      simp [Expr.pieces, Expr.render, fillAll_append, fillAll_cons, fillAll_parenthesizePieces, ihl, ihr, fill,
        String.append_assoc]
  | unary op operand ih =>
      simp [Expr.pieces, Expr.render, fillAll_cons, fillAll_parenthesizePieces, ih, fill]

theorem fillAll_guardPieces (condition : Expr) :
    fillAll s reg (condition.guardPieces s.callee?) = condition.guard (s.resultText reg) := by
  simp only [Expr.guardPieces, Expr.guard]
  cases condition.inverse? with
  | none | some _ =>
      simp [fillAll_cons, fillAll_append, fillAll_nil, fillAll_pieces, fill, String.append_assoc]

end Piece

open Piece

namespace Script

theorem actionText_code (indented : Bool) (id slot : Nat) (action : Action) :
    ((s.actionText reg ((s.bindings reg).get? id) slot action).map fun t => if indented then "  " ++ t else t).toList =
      (if action.isUnknown then [] else [CodeLine.code indented id slot action]).map (CodeLine.text s reg) := by
  have hindent : ∀ t : String, (if indented then "  " ++ t else t) = (if indented then "  " else "") ++ t := by
    intro t
    cases indented <;> simp
  simp only [hindent]
  cases action with
  | unknown => rfl
  | _ =>
      simp [actionText, CodeLine.text, CodeLine.pieces, Action.isUnknown, fillAll_cons, fillAll_append, fillAll_nil,
        fillAll_pieces, fillAll_callPieces, fillAll_guardPieces, fill, String.append_assoc]

theorem marker_eq_map {line : CodeLine} {text : String} (h : line.pieces s = [.text (text ++ ":")]) :
    marker text = [CodeLine.empty, line].map (CodeLine.text s reg) := by
  have hline : line.text s reg = text ++ ":" := by
    simp [CodeLine.text, h, fillAll_cons, fillAll_nil, fill]
  rw [List.map_cons, List.map_singleton, hline]
  rfl

theorem labelLines_eq_map (addr : Nat) : s.labelLines addr =
    ((s.labelsAt addr).flatMap fun label => [CodeLine.empty, .label label]).map (CodeLine.text s reg) := by
  rw [labelLines_eq, List.map_flatMap]
  exact List.flatMap_congr fun label _ => s.marker_eq_map reg rfl

theorem layout_eq_code (indented : Bool) (slot : Nat) (l : List (Nat × Instr)) :
    s.layout reg (s.bindings reg) s.landings indented slot l =
      (s.codeFrom indented slot l).map (CodeLine.text s reg) := by
  induction l generalizing indented slot with
  | nil => rfl
  | cons p l ih =>
      obtain ⟨id, i⟩ := p
      have hlanding : (if s.landings.contains id then landingLines i.addr else []) =
          (if s.landings.contains id then [.empty, .landing i.addr] else []).map (CodeLine.text s reg) := by
        split
        · exact s.marker_eq_map reg rfl
        · rfl
      simp only [layout, codeFrom, List.map_append, actionText_code, isEmpty_labelLines, hlanding, ih,
        ← s.labelLines_eq_map reg]

/-- Pseudocode is lines that do not depend on the registry, with the names that it puts in their gaps. -/
theorem pseudocode_eq_code : s.pseudocode reg = s.code.map (CodeLine.text s reg) :=
  s.layout_eq_code reg false 0 s.instructions

end Script

end

/-! ## The functions that are called -/

theorem Draft.call_of_step {c : Command} {id : Nat} {name : String} (h : d.WellFormed) (hs : Step d c d')
    (ha : d'.action? id = some (.call name)) : d.action? id = some (.call name) ∨ c = .call name := by
  -- a command adds one instruction at most, and only `CALL` adds a call
  have hemit : ∀ (d₀ : Draft) (action : Action), (d₀.emit action).action? id = some (.call name) →
      d₀.action? id = some (.call name) ∨ action = .call name := by
    intro d₀ action he
    rw [action?_emit] at he
    split at he
    · exact Or.inr (Option.some.inj he)
    · exact Or.inl he
  cases hs with
  | skip | label | drop => exact Or.inl ha
  | push | pushArgument | pushLocal => exact (hemit d _ ha).imp_right nofun
  | unary hp =>
      rw [action?_applyUnary (h.action?_pending (hp ▸ List.mem_cons_self))] at ha
      split at ha
      · cases ha
      · exact Or.inl ha
  | binary => exact (hemit ((d.consume _).consume _) _ ha).imp_right nofun
  | call => exact (hemit d _ ha).imp_right fun he => by cases he; rfl
  | jump | ret | unknown => exact (hemit d _ ha).imp_right nofun
  | branch => exact (hemit (d.consume _) _ ha).imp_right nofun
  | takeResult => exact (hemit (d.absorb _) _ ha).imp_right nofun

theorem Draft.exists_calls {lines : List String} {id : Nat} {name : String} (h : ({} : Draft).run lines = .ok d)
    (ha : d.action? id = some (.call name)) : ∃ line ∈ lines, Calls line name := by
  refine step_induction (motive := fun lines d => ∀ id name, d.action? id = some (.call name) →
    ∃ line ∈ lines, Calls line name) ?_ ?_ h id name ha
  · intro id name ha
    cases ha
  · intro lines d line c d' hw _ ih hr hs id name ha
    rcases call_of_step hw hs ha with ha | rfl
    · obtain ⟨line', hl, hc⟩ := ih id name ha
      exact ⟨line', List.mem_append_left _ hl, hc⟩
    · exact ⟨line, by simp, Command.calls_of_reads hr⟩

/-- A script calls only functions that one of its lines calls. -/
theorem Script.exists_calls {lines : List String} {id : Nat} {name : String} (h : ofLines lines = .ok s)
    (hc : s.callee? id = some name) : ∃ line ∈ lines, Calls line name := by
  obtain ⟨d, hd, hf⟩ := ofLines_eq_ok h
  obtain ⟨labels, _, rfl⟩ := Draft.finish_eq_ok hf
  simp only [callee?] at hc
  split at hc
  · rename_i ha
    exact Draft.exists_calls hd (Option.some.inj hc ▸ ha)
  · cases hc

/-! ## Registries that agree -/

/-- The registries know the functions that the lines call by the same signatures, or not at all. -/
def AgreeOn (lines : List String) (r₁ r₂ : Registry) : Prop :=
  ∀ line ∈ lines, ∀ name, Calls line name → r₁.lookup name = r₂.lookup name

namespace Script

theorem callText_congr {name : String} (h : r₁.lookup name = r₂.lookup name) : callText r₁ name = callText r₂ name := by
  rw [callText, callText, h]

variable (h : ∀ id name, s.callee? id = some name → r₁.lookup name = r₂.lookup name)

include h

theorem ofSlots_congr (before l : List Slot) : Binding.ofSlots s r₁ before l = Binding.ofSlots s r₂ before l := by
  have hcalls : Binding.knownCalls s r₁ = Binding.knownCalls s r₂ := by
    funext slot
    refine List.filterMap_congr fun id _ => ?_
    cases hc : s.callee? id with
    | none => rfl
    | some name => simp only [Option.bind_some, h id name hc]
  induction l generalizing before with
  | nil => rfl
  | cons slot l ih => simp only [Binding.ofSlots, hcalls, ih]

theorem resultText_congr : s.resultText r₁ = s.resultText r₂ := by
  funext id
  simp only [resultText]
  cases hc : s.callee? id with
  | none => rfl
  | some name => simp only [Option.map_some, callText_congr (h id name hc)]

theorem actionText_congr {p : Nat × Instr} (hp : p ∈ s.instructions) (name? : Option String) (slot : Nat) :
    s.actionText r₁ name? slot p.2.action = s.actionText r₂ name? slot p.2.action := by
  cases ha : p.2.action with
  | call name =>
      have hc : s.callee? p.1 = some name := by
        simp only [callee?, (mem_instructions.mp hp).2, Option.map_some, ha]
      simp only [actionText, callText_congr (h _ _ hc)]
  | _ => simp only [actionText, resultText_congr h]

theorem layout_congr (names : Table Nat String) (landings : List Nat) (indented : Bool) (slot : Nat)
    {l : List (Nat × Instr)} (hl : ∀ p ∈ l, p ∈ s.instructions) :
    s.layout r₁ names landings indented slot l = s.layout r₂ names landings indented slot l := by
  induction l generalizing indented slot with
  | nil => rfl
  | cons p l ih =>
      obtain ⟨hp, hrest⟩ := List.forall_mem_cons.mp hl
      have htext := fun name? slot => actionText_congr h hp name? slot
      obtain ⟨id, i⟩ := p
      simp only [layout, htext, ih _ _ hrest]

theorem pseudocode_congr : s.pseudocode r₁ = s.pseudocode r₂ := by
  have hnames : s.bindings r₁ = s.bindings r₂ := congrArg Table.ofList (ofSlots_congr h [] s.slots)
  rw [pseudocode, hnames]
  exact layout_congr h _ _ _ _ fun _ hp => hp

end Script

theorem Annotation.annotateAfter_congr {strings : Option (List String)} {lines : List String} (h : AgreeOn lines r₁ r₂)
    (above : List String) : annotateAfter strings r₁ above lines = annotateAfter strings r₂ above lines := by
  induction lines generalizing above with
  | nil => rfl
  | cons line lines ih =>
      obtain ⟨hline, hlines⟩ := List.forall_mem_cons.mp h
      have hknown : annotated? r₁ line = annotated? r₂ line := by
        simp only [annotated?]
        split
        · rename_i name rest hw
          rw [hline name ⟨rest, hw⟩]
        · rfl
      simp only [annotateAfter, lineText, hknown, ih hlines]

/-- Everything that is shown of the lines is the same under both registries. -/
structure SameOutput (lines : List String) (r₁ r₂ : Registry) : Prop where
  pseudocode : decompileLines r₁ lines = decompileLines r₂ lines
  annotations : ∀ strings, annotate r₁ strings lines = annotate r₂ strings lines
  output : ∀ options source, Script.sourceLines source = lines →
    decompile r₁ options source = decompile r₂ options source

theorem AgreeOn.sameOutput {lines : List String} (h : AgreeOn lines r₁ r₂) : SameOutput lines r₁ r₂ := by
  have hcode : decompileLines r₁ lines = decompileLines r₂ lines := by
    cases hs : Script.ofLines lines with
    | error e => simp only [decompileLines, hs, Except.map]
    | ok s =>
        have hpseudo : s.pseudocode r₁ = s.pseudocode r₂ := by
          refine Script.pseudocode_congr fun id name hc => ?_
          obtain ⟨line, hline, hcalls⟩ := Script.exists_calls hs hc
          exact h line hline name hcalls
        simp only [decompileLines, hs, Except.map, hpseudo]
  have hannotate : ∀ strings, annotate r₁ strings lines = annotate r₂ strings lines :=
    fun strings => Annotation.annotateAfter_congr h []
  refine ⟨hcode, hannotate, ?_⟩
  rintro options source rfl
  have houtput : outputLines r₁ options source = outputLines r₂ options source := by
    simp only [outputLines]
    cases options.mode with
    | pseudo => exact hcode
    | listing => rfl
    | annotate => exact congrArg Except.ok (hannotate _)
  rw [decompile, decompile, houtput]

/-- Functions that no line calls make no difference. -/
theorem agreeOn_extend {lines : List String} {reg overlay : Registry}
    (h : ∀ line ∈ lines, ∀ name, Calls line name → overlay.lookup name = none) :
    AgreeOn lines (reg.extend overlay) reg := by
  intro line hline name hc
  have hnone : overlay.get? name = none := h line hline name hc
  rw [Registry.lookup, Registry.extend, Table.get?_insertAll_of_perm (.refl _), hnone, Option.none_or, ← Registry.lookup]

/-- The registry has no part in lifting, and pseudocode shows of it the names of parameters only: on the left-hand sides
of assignments and between the parentheses of calls. So registries that agree on the functions that the lines call are
as good as each other, whatever others they know. -/
theorem names_only (lines : List String) (r₁ r₂ : Registry) :
    (∀ e, decompileLines r₁ lines = .error e ↔ decompileLines r₂ lines = .error e) ∧
      (∀ s, Script.ofLines lines = .ok s →
        decompileLines r₁ lines = .ok (s.code.map fun line => Piece.fillAll s r₁ (line.pieces s)) ∧
          decompileLines r₂ lines = .ok (s.code.map fun line => Piece.fillAll s r₂ (line.pieces s)) ∧
          ∀ line ∈ s.code, line.isFixed = true →
            Piece.fillAll s r₁ (line.pieces s) = Piece.fillAll s r₂ (line.pieces s)) ∧
      (AgreeOn lines r₁ r₂ → SameOutput lines r₁ r₂) ∧
      ((∀ line ∈ lines, ∀ name, Calls line name → r₂.lookup name = none) → SameOutput lines (r₁.extend r₂) r₁) := by
  refine ⟨fun e => ?_, fun s hs => ?_, AgreeOn.sameOutput, fun h => (agreeOn_extend h).sameOutput⟩
  · simp only [decompileLines]
    cases Script.ofLines lines <;> simp [Except.map]
  · simp only [decompileLines, hs, Except.map]
    exact ⟨congrArg _ (s.pseudocode_eq_code r₁), congrArg _ (s.pseudocode_eq_code r₂),
      fun line _ hl => CodeLine.text_of_isFixed hl s r₁ r₂⟩

theorem names_only_testGameFlag :
    ∃ s, Script.ofLines ["PUSH 1", "CALL testGameFlag", "STACKRWD 1", "PUSHRC 0", "IFNOTGO 6", "CALL leave",
        "POPRC 1"] = .ok s ∧
      decompileLines .standard ["PUSH 1", "CALL testGameFlag", "STACKRWD 1", "PUSHRC 0", "IFNOTGO 6", "CALL leave",
        "POPRC 1"] = .ok (s.code.map fun line => Piece.fillAll s .standard (line.pieces s)) ∧
      ∃ reg overlay : Registry, reg.lookup "setGameFlag" = none ∧ overlay.lookup "setGameFlag" = some ⟨[]⟩ ∧
        SameOutput ["PUSH 1", "CALL testGameFlag", "STACKRWD 1", "PUSHRC 0", "IFNOTGO 6", "CALL leave", "POPRC 1"]
          .standard reg ∧
        SameOutput ["PUSH 1", "CALL testGameFlag", "STACKRWD 1", "PUSHRC 0", "IFNOTGO 6", "CALL leave", "POPRC 1"]
          (Registry.standard.extend overlay) .standard := by
  let lines := ["PUSH 1", "CALL testGameFlag", "STACKRWD 1", "PUSHRC 0", "IFNOTGO 6", "CALL leave", "POPRC 1"]
  obtain ⟨s, hs, _⟩ : ∃ s, Script.ofLines lines = .ok s ∧ s.live = [0, 3, 4, 5] := exists_ok (by decide +kernel)
  have hwords : ∀ line ∈ lines, (Command.wordsOf line).head? = some "CALL" →
      Command.wordsOf line = ["CALL", "testGameFlag"] ∨ Command.wordsOf line = ["CALL", "leave"] := by decide
  have hcalls : ∀ line ∈ lines, ∀ name, Calls line name → name = "testGameFlag" ∨ name = "leave" := by
    rintro line hline name ⟨rest, hw⟩
    refine (hwords line hline (by rw [hw]; rfl)).imp (fun he => ?_) fun he => ?_
    · cases hw.symm.trans he; rfl
    · cases hw.symm.trans he; rfl
  let reg : Registry := .ofList [("testGameFlag", ⟨[⟨"flag", .numeric⟩]⟩)]
  let overlay : Registry := .ofList [("setGameFlag", ⟨[]⟩)]
  refine ⟨s, hs, ((names_only lines .standard reg).2.1 s hs).1, reg, overlay, by decide +kernel, by decide +kernel,
    ?_, ?_⟩
  · refine (names_only lines .standard reg).2.2.1 fun line hline name hc => ?_
    rcases hcalls line hline name hc with rfl | rfl
    · decide +kernel
    · decide +kernel
  · refine (names_only lines .standard overlay).2.2.2 fun line hline name hc => ?_
    rcases hcalls line hline name hc with rfl | rfl
    · decide +kernel
    · decide +kernel

end Unstack
