import Mathlib.Data.List.Induction
import Mathlib.Tactic.TypeStar
import Unstack.Draft
import Unstack.Proofs.Command.Reading

/-!
# What a command does to a draft

`Step` says once, command by command, what a step that does not fail leaves behind. What holds of every draft
that lines lead to is shown by induction on the lines (`run_induction`), with one case for each rule of `Step`.
-/

namespace Unstack.Draft

open Command (Reads codeWords)

variable {d d' : Draft}

/-! ## Views of a draft -/

def addrs (d : Draft) : List Nat :=
  d.emitted.toList.map (·.addr)

def expr? (d : Draft) (id : Nat) : Option Expr :=
  (d.action? id).bind Action.expr?

def IsCall (d : Draft) (id : Nat) : Prop :=
  ∃ name, d.action? id = some (.call name)

/-- The calls whose results were not taken, the latest first. -/
def liveCalls (d : Draft) : List Nat :=
  d.live.filter fun id => (d.action? id).any Action.isCall

/-- Takes an instruction out of the live ones and its value out of the pending ones. -/
def consume (d : Draft) (id : Nat) : Draft :=
  { d.absorb id with pending := d.pending.erase id }

theorem pending_consume {id : Nat} {rest : List Nat} (h : d.pending = id :: rest) :
    (d.consume id).pending = rest := by
  simp only [consume, h, List.erase_cons_head]

theorem valueOf_eq {id : Nat} {value : Expr} (h : d.action? id = some (.assign value)) :
    d.valueOf id = value := by
  simp only [valueOf, h]

theorem lt_size_of_action? {id : Nat} {action : Action} (h : d.action? id = some action) :
    id < d.emitted.size := by
  obtain ⟨_, hi, _⟩ := Option.map_eq_some_iff.mp h
  exact (Array.getElem?_eq_some_iff.mp hi).1

theorem length_addrs (d : Draft) : d.addrs.length = d.emitted.size := by
  simp [addrs]

theorem getElem?_addrs (d : Draft) (id : Nat) : d.addrs[id]? = d.emitted[id]?.map (·.addr) := by
  rw [addrs, List.getElem?_map, Array.getElem?_toList]

theorem getElem?_addrs_eq_some {id : Nat} {i : Instr} (hi : d.emitted[id]? = some i) :
    d.addrs[id]? = some i.addr := by
  rw [getElem?_addrs, hi, Option.map_some]

theorem latestCall?_eq (d : Draft) : d.latestCall? = d.liveCalls.head? := by
  simp only [latestCall?, liveCalls, List.head?_filter]

theorem any_isCall_iff {id : Nat} : (d.action? id).any Action.isCall = true ↔ d.IsCall id := by
  simp only [IsCall]
  cases d.action? id with
  | none => simp
  | some action => cases action <;> simp [Action.isCall]

theorem mem_liveCalls {id : Nat} : id ∈ d.liveCalls ↔ id ∈ d.live ∧ d.IsCall id := by
  rw [liveCalls, List.mem_filter, any_isCall_iff]

theorem mem_live_of_latestCall? {id : Nat} (h : d.latestCall? = some id) :
    id ∈ d.live ∧ d.IsCall id := by
  rw [latestCall?_eq] at h
  exact mem_liveCalls.mp (List.mem_of_mem_head? h)

/-! ## How the views change -/

@[simp] theorem addrs_emit (d : Draft) (action : Action) :
    (d.emit action).addrs = d.addrs ++ [d.offset] := by
  simp [addrs, emit]

@[simp] theorem addrs_push (d : Draft) (value : Expr) :
    (d.push value).addrs = d.addrs ++ [d.offset] := by
  simp [addrs, push, emit]

@[simp] theorem addrs_jump (d : Draft) (target : Nat) (action : Action) :
    (d.jump target action).addrs = d.addrs ++ [d.offset] := by
  simp [addrs, jump, emit]

/-- What does not look at the values of assignments does not see an operator applied in place. -/
theorem map_emitted_applyUnary {β : Type*} {f : Instr → β} (op : UnaryOp) (id : Nat)
    (hf : ∀ addr value, f ⟨addr, .assign (.unary op value)⟩ = f ⟨addr, .assign value⟩) :
    (d.applyUnary op id).emitted.toList.map f = d.emitted.toList.map f := by
  apply List.ext_getElem?
  intro n
  simp only [applyUnary, List.getElem?_map, Array.getElem?_toList, Array.getElem?_modify]
  split
  · cases d.emitted[n]? with
    | none => rfl
    | some i =>
        obtain ⟨addr, action⟩ := i
        cases action with
        | assign value => exact congrArg some (hf addr value)
        | _ => rfl
  · rfl

@[simp] theorem addrs_applyUnary (d : Draft) (op : UnaryOp) (id : Nat) :
    (d.applyUnary op id).addrs = d.addrs :=
  map_emitted_applyUnary op id fun _ _ => rfl

theorem getElem?_emit_of_lt {action : Action} {id : Nat} (h : id < d.emitted.size) :
    (d.emit action).emitted[id]? = d.emitted[id]? := by
  simp only [emit, Array.getElem?_push, Nat.ne_of_lt h, ↓reduceIte]

theorem getElem?_emit_of_eq_some {id : Nat} {i : Instr} (action : Action) (h : d.emitted[id]? = some i) :
    (d.emit action).emitted[id]? = some i :=
  (getElem?_emit_of_lt (Array.getElem?_eq_some_iff.mp h).1).trans h

theorem getElem?_emit_size (d : Draft) (action : Action) :
    (d.emit action).emitted[d.emitted.size]? = some ⟨d.offset, action⟩ := by
  simp only [emit, Array.getElem?_push, ↓reduceIte]

theorem getElem?_applyUnary_of_ne {op : UnaryOp} {id j : Nat} (h : j ≠ id) :
    (d.applyUnary op id).emitted[j]? = d.emitted[j]? := by
  simp only [applyUnary, Array.getElem?_modify, h.symm, ↓reduceIte]

theorem action?_emit (d : Draft) (action : Action) (id : Nat) :
    (d.emit action).action? id = if id = d.emitted.size then some action else d.action? id := by
  simp only [action?, emit, Array.getElem?_push]
  split <;> rfl

theorem action?_emit_of_lt {id : Nat} (action : Action) (h : id < d.emitted.size) :
    (d.emit action).action? id = d.action? id := by
  rw [action?_emit, if_neg (Nat.ne_of_lt h)]

theorem action?_applyUnary {op : UnaryOp} {id : Nat} {value : Expr}
    (h : d.action? id = some (.assign value)) (j : Nat) :
    (d.applyUnary op id).action? j =
      if j = id then some (.assign (.unary op value)) else d.action? j := by
  simp only [action?, applyUnary, Array.getElem?_modify] at h ⊢
  by_cases hj : j = id
  · subst hj
    obtain ⟨i, hi, ha⟩ := Option.map_eq_some_iff.mp h
    simp only [hi, ↓reduceIte, Option.map_some, ha]
  · simp only [hj, Ne.symm hj, ↓reduceIte]

theorem any_isCall_applyUnary {op : UnaryOp} {id : Nat} {value : Expr}
    (h : d.action? id = some (.assign value)) (j : Nat) :
    ((d.applyUnary op id).action? j).any Action.isCall = (d.action? j).any Action.isCall := by
  rw [action?_applyUnary h]
  split
  · rename_i hj
    rw [hj, h]
    rfl
  · rfl

/-! ## Steps -/

/-- What a command leaves behind when it does not fail. -/
inductive Step (d : Draft) : Command → Draft → Prop where
  | skip : Step d .skip d
  | label {id} (h : d.labels.contains id = false) :
      Step d (.label id) { d with labels := d.labels.insert id (d.offset + 1) }
  | push {v} : Step d (.push v) (d.push (.literal v))
  | pushArgument {i} : Step d (.pushArgument i) (d.push (.argument i))
  | pushLocal {i} : Step d (.pushLocal i) (d.push (.localVar i))
  | unary {op id rest} (h : d.pending = id :: rest) : Step d (.unary op) (d.applyUnary op id)
  | binary {op right left rest} (h : d.pending = right :: left :: rest) :
      Step d (.binary op)
        (((d.consume right).consume left).push (.binary op (d.valueOf left) (d.valueOf right)))
  | call {name} : Step d (.call name) (d.emit (.call name))
  | jump {t} : Step d (.jump t) (d.jump t (.goto t))
  | branch {t id rest} (h : d.pending = id :: rest) :
      Step d (.branch t) ((d.consume id).jump t (.branch t (d.valueOf id)))
  | takeResult {id} (h : d.latestCall? = some id) :
      Step d .takeResult ((d.absorb id).push (.result id))
  | ret : Step d .ret (d.emit .ret)
  | drop {n} : Step d (.drop n) { d with pending := d.pending.drop n }
  | unknown {m} : Step d (.unknown m) (d.emit (.unknown m))

/-- Only a unary operator changes an instruction, and only the one on top of the stack. -/
theorem getElem?_step {c : Command} {id : Nat} {i : Instr} (hs : Step d c d') (hi : d.emitted[id]? = some i)
    (hc : ∀ op, c = .unary op → d.pending.head? ≠ some id) : d'.emitted[id]? = some i := by
  cases hs with
  | skip | label | drop => exact hi
  | push | pushArgument | pushLocal | call | jump | ret | unknown | binary | branch | takeResult =>
      exact getElem?_emit_of_eq_some (d := d) _ hi
  | @unary op top rest hp =>
      have hne : id ≠ top := by
        rintro rfl
        exact hc op rfl (by rw [hp]; rfl)
      exact (getElem?_applyUnary_of_ne hne).trans hi

/-- What is on the stack was there before or is new. -/
theorem mem_pending_step {c : Command} {id : Nat} (hs : Step d c d') (h : id ∈ d'.pending) :
    id ∈ d.pending ∨ id = d.emitted.size := by
  cases hs with
  | skip | label | unary | call | jump | ret | unknown => exact Or.inl h
  | push | pushArgument | pushLocal | takeResult => exact (List.mem_cons.mp h).symm
  | binary => exact (List.mem_cons.mp h).symm.imp_left fun h => List.mem_of_mem_erase (List.mem_of_mem_erase h)
  | branch => exact Or.inl (List.mem_of_mem_erase h)
  | drop => exact Or.inl (List.mem_of_mem_drop h)

theorem step_sound {c : Command} (h : d.step c = .ok d') : Step d c d' := by
  cases c with
  | skip => cases h; exact .skip
  | label id =>
      simp only [step] at h
      split at h
      · cases h
      · rename_i hl
        cases h
        exact .label (Bool.eq_false_iff.mpr hl)
  | push v => cases h; exact .push
  | pushArgument i => cases h; exact .pushArgument
  | pushLocal i => cases h; exact .pushLocal
  | unary op =>
      simp only [step] at h
      split at h
      · cases h
      · rename_i hp
        cases h
        exact .unary hp
  | binary op =>
      simp only [step] at h
      split at h
      · rename_i right left rest hp
        have hc : ({ (d.absorb right).absorb left with pending := rest } : Draft) =
            (d.consume right).consume left := by
          simp [consume, absorb, hp]
        rw [hc] at h
        cases h
        exact .binary hp
      · cases h
  | call name => cases h; exact .call
  | jump t => cases h; exact .jump
  | branch t =>
      simp only [step] at h
      split at h
      · cases h
      · rename_i id rest hp
        have hc : ({ d.absorb id with pending := rest } : Draft) = d.consume id := by
          simp [consume, absorb, hp]
        rw [hc] at h
        cases h
        exact .branch hp
  | takeResult =>
      simp only [step] at h
      split at h
      · cases h
      · rename_i hc
        cases h
        exact .takeResult hc
  | ret => cases h; exact .ret
  | drop n => cases h; exact .drop
  | unknown m => cases h; exact .unknown

theorem step_complete {c : Command} (h : Step d c d') : d.step c = .ok d' := by
  cases h with
  | label hl => simp [step, hl]
  | unary hp => simp only [step, hp]
  | binary hp => simp [step, hp, consume, absorb]
  | branch hp => simp [step, hp, consume, absorb]
  | takeResult hc => simp only [step, hc]
  | _ => rfl

theorem Step.offset_eq {c : Command} (h : Step d c d') : d'.offset = d.offset := by
  cases h <;> rfl

/-! ## Runs -/

theorem stepLine_eq_ok {line : String} (h : d.stepLine line = .ok d') :
    ∃ c d₁, Reads (codeWords line) c ∧ Step d c d₁ ∧ d' = d₁.advance := by
  simp only [stepLine] at h
  split at h
  · rename_i d₁ hs
    obtain ⟨c, hc, hs⟩ := bind_eq_ok hs
    cases h
    exact ⟨c, d₁, Command.reads_of_ofLine hc, step_sound hs, rfl⟩
  · cases h

theorem stepLine_of_step {line : String} {c : Command} (hc : Command.ofLine line = .ok c) (hs : Step d c d') :
    d.stepLine line = .ok d'.advance := by
  simp only [stepLine, hc, Except.bind, step_complete hs]

theorem run_append (d : Draft) (l₁ l₂ : List String) :
    d.run (l₁ ++ l₂) = (d.run l₁).bind fun d' => d'.run l₂ := by
  induction l₁ generalizing d with
  | nil => rfl
  | cons line l₁ ih =>
      simp only [List.cons_append, run]
      cases d.stepLine line with
      | error _ => rfl
      | ok d' => exact ih d'

theorem run_singleton (d : Draft) (line : String) : d.run [line] = d.stepLine line := by
  simp only [run]
  cases d.stepLine line <;> rfl

theorem run_concat {d₁ : Draft} {lines : List String} {line : String} (h : d.run lines = .ok d₁)
    (hs : d₁.stepLine line = .ok d') : d.run (lines ++ [line]) = .ok d' := by
  rw [run_append, h]
  exact (run_singleton d₁ line).trans hs

/-- What every step keeps, lines keep. -/
theorem run_preserves {P : Draft → Prop} (hstep : ∀ {d c d'}, P d → Step d c d' → P d'.advance)
    {lines : List String} (h : P d) (hr : d.run lines = .ok d') : P d' := by
  induction lines generalizing d with
  | nil => cases hr; exact h
  | cons line lines ih =>
      obtain ⟨d₁, hl, hr⟩ := bind_eq_ok hr
      obtain ⟨c, d₂, _, hs, rfl⟩ := stepLine_eq_ok hl
      exact ih (hstep h hs) hr

/-- Induction on the lines that lead to a draft, the last line taken off. -/
theorem run_induction {motive : List String → Draft → Prop} (nil : motive [] {})
    (snoc : ∀ {lines d line d'}, motive lines d → d.stepLine line = .ok d' →
      motive (lines ++ [line]) d')
    {lines : List String} (h : ({} : Draft).run lines = .ok d) : motive lines d := by
  induction lines using List.reverseRecOn generalizing d with
  | nil => cases h; exact nil
  | append_singleton lines line ih =>
      rw [run_append] at h
      obtain ⟨d₁, h₁, hs⟩ := bind_eq_ok h
      rw [run_singleton] at hs
      exact snoc (ih h₁) hs

theorem run_offset {lines : List String} (h : ({} : Draft).run lines = .ok d) : d.offset = lines.length := by
  refine run_induction (motive := fun lines d => d.offset = lines.length) rfl ?_ h
  intro lines d line d' ih hl
  obtain ⟨c, d₁, _, hs, rfl⟩ := stepLine_eq_ok hl
  simp [advance, hs.offset_eq, ih]

end Unstack.Draft
