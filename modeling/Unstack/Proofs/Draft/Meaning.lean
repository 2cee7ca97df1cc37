import Mathlib.Data.List.Forall2
import Mathlib.Data.List.GetD
import Unstack.Proofs.Draft.WellFormed

/-!
# What lifted expressions mean

`Machine` runs the lines of a disassembly on values instead of lifting them. Whatever the operators and the
leaves stand for, the pending expressions of a draft have the values on the stack of the machine, and the conditions
of its jumps have the values that the machine tested (`run_meaning`). Lifting does not see the registry.
-/

namespace Unstack

open Command (Reads codeWords number?)

universe u

/-- What leaves and operators stand for. -/
structure Meaning (V : Type u) where
  literal : Int → V
  argument : Nat → V
  localVar : Nat → V
  /-- The result of the call on this line, counted from zero. -/
  result : Nat → V
  unary : UnaryOp → V → V
  binary : BinaryOp → V → V → V

/-- The value of an expression, where `result` gives the results of calls by their numbers. -/
def Expr.eval {V : Type u} (M : Meaning V) (result : Nat → V) : Expr → V
  | literal value => M.literal value
  | argument index => M.argument index
  | localVar index => M.localVar index
  | .result call => result call
  | binary op left right => M.binary op (left.eval M result) (right.eval M result)
  | unary op operand => M.unary op (operand.eval M result)

theorem Expr.eval_congr {V : Type u} {M : Meaning V} {f g : Nat → V} {e : Expr}
    (h : ∀ c ∈ e.calls, f c = g c) : e.eval M f = e.eval M g := by
  induction e with
  | literal | argument | localVar => rfl
  | result call => exact h call (by simp [calls])
  | binary op left right ihl ihr =>
      simp only [calls, List.mem_append] at h
      simp only [eval, ihl fun c hc => h c (Or.inl hc), ihr fun c hc => h c (Or.inr hc)]
  | unary op operand ih =>
      simp only [calls] at h
      simp only [eval, ih h]

/-! ## The machine -/

/-- A machine that runs lines on values. -/
structure Machine (V : Type u) where
  /-- The line that comes next, counted from zero. -/
  line : Nat := 0
  /-- The values, the one pushed last in front. -/
  stack : List V := []
  /-- The lines of the calls whose results were not taken, the latest first. -/
  calls : List Nat := []
  /-- The values that conditional jumps took, each with the line of its jump. -/
  tests : List (Nat × V) := []

namespace Machine

variable {V : Type u} (M : Meaning V)

def push (v : V) (m : Machine V) : Machine V :=
  { m with stack := v :: m.stack }

def mapTop (f : V → V) (m : Machine V) : Option (Machine V) :=
  match m.stack with
  | [] => none
  | x :: rest => some { m with stack := f x :: rest }

/-- Replaces the two values on top; the second from the top is the left one. -/
def combine (f : V → V → V) (m : Machine V) : Option (Machine V) :=
  match m.stack with
  | top :: second :: rest => some { m with stack := f second top :: rest }
  | _ => none

def test (m : Machine V) : Option (Machine V) :=
  match m.stack with
  | [] => none
  | x :: rest => some { m with stack := rest, tests := m.tests ++ [(m.line, x)] }

/-- Pushes the result of the latest call whose result was not taken. -/
def takeResult (m : Machine V) : Option (Machine V) :=
  match m.calls with
  | [] => none
  | c :: rest => some { m with stack := M.result c :: m.stack, calls := rest }

/-- The machine after the words of a line, if it does not get stuck. -/
def exec (m : Machine V) : List String → Option (Machine V)
  | [] => some m
  | mnemonic :: params =>
    match mnemonic with
    | "PUSH" => (number? params).map fun v => m.push (M.literal v)
    | "PUSHARG" => (number? params).map fun v => m.push (M.argument v.toNat)
    | "PUSHVAR" => (number? params).map fun v => m.push (M.localVar v.toNat)
    | "UNARY" => ((number? params).bind UnaryOp.ofOperand?).bind fun op => m.mapTop (M.unary op)
    | "CALL" => some { m with calls := m.line :: m.calls }
    | "PUSHRC" => if number? params = some 0 then m.takeResult M else some m
    | "IFNOTGO" => m.test
    | "STACKRWD" => some { m with stack := m.stack.drop ((number? params).getD 0).toNat }
    | _ =>
      match BinaryOp.ofMnemonic? mnemonic with
      | some op => m.combine (M.binary op)
      | none => some m

def next (m : Machine V) : Machine V :=
  { m with line := m.line + 1 }

def step (m : Machine V) (line : String) : Option (Machine V) :=
  (m.exec M (codeWords line)).map next

/-- The machine after lines, from an empty stack. -/
def run (lines : List String) : Option (Machine V) :=
  lines.foldlM (step M) {}

theorem exec_of_not_mem_keywords {m : Machine V} {mnemonic : String} {params : List String}
    (h : mnemonic ∉ Command.keywords) :
    m.exec M (mnemonic :: params) =
      match BinaryOp.ofMnemonic? mnemonic with
      | some op => m.combine (M.binary op)
      | none => some m := by
  simp only [exec]
  split <;> first | rfl | exact absurd (by decide) h

end Machine

namespace Draft

variable {V : Type u} {M : Meaning V} {d d' : Draft} {m : Machine V}

/-! ## The values of a draft -/

def addrOf (d : Draft) (id : Nat) : Nat :=
  d.addrs.getD id 0

def resultOf (M : Meaning V) (d : Draft) (id : Nat) : V :=
  M.result (d.addrOf id)

def value (M : Meaning V) (d : Draft) (id : Nat) : V :=
  (d.valueOf id).eval M (d.resultOf M)

/-- The value of the condition of a jump, with the address of the jump. -/
def testOf (M : Meaning V) (result : Nat → V) (i : Instr) : Option (Nat × V) :=
  match i.action with
  | .branch _ condition => some (i.addr, condition.eval M result)
  | _ => none

def tests (M : Meaning V) (d : Draft) : List (Nat × V) :=
  d.emitted.toList.filterMap (testOf M (d.resultOf M))

theorem value_eq {id : Nat} {e : Expr} (h : d.action? id = some (.assign e)) :
    d.value M id = e.eval M (d.resultOf M) := by
  rw [value, valueOf_eq h]

/-! ## Values stay the same when a draft grows -/

theorem addrOf_emit_of_lt {id : Nat} (action : Action) (h : id < d.emitted.size) :
    (d.emit action).addrOf id = d.addrOf id := by
  rw [addrOf, addrs_emit, List.getD_append _ _ _ _ (by rwa [length_addrs])]
  rfl

theorem addrOf_emit_size (d : Draft) (action : Action) :
    (d.emit action).addrOf d.emitted.size = d.offset := by
  have hle : d.addrs.length ≤ d.emitted.size := Nat.le_of_eq (length_addrs d)
  rw [addrOf, addrs_emit, List.getD_append_right _ _ _ _ hle, length_addrs, Nat.sub_self]
  rfl

theorem eval_emit {e : Expr} (action : Action) (h : ∀ c ∈ e.calls, c < d.emitted.size) :
    e.eval M ((d.emit action).resultOf M) = e.eval M (d.resultOf M) :=
  Expr.eval_congr fun c hc => by rw [resultOf, addrOf_emit_of_lt action (h c hc)]; rfl

theorem value_emit {id : Nat} (h : d.WellFormed) (action : Action) (hid : id ∈ d.pending) :
    (d.emit action).value M id = d.value M id := by
  have hv := h.action?_pending hid
  have he : (d.emit action).action? id = some (.assign (d.valueOf id)) := by
    rw [action?_emit_of_lt action (lt_size_of_action? hv), hv]
  rw [value_eq he]
  exact eval_emit action fun c hc => (h.taken_of_mem_calls hid hc).1.lt_size

theorem testOf_emit {i : Instr} (h : d.WellFormed) (action : Action) (hi : i ∈ d.emitted.toList) :
    testOf M ((d.emit action).resultOf M) i = testOf M (d.resultOf M) i := by
  obtain ⟨addr, a⟩ := i
  cases a with
  | branch target condition =>
      obtain ⟨id, hid⟩ := List.mem_iff_getElem?.mp hi
      rw [Array.getElem?_toList] at hid
      have he : d.expr? id = some condition := by rw [expr?, action?, hid]; rfl
      have hc : ∀ c ∈ condition.calls, c < d.emitted.size :=
        fun c hc => (h.result_taken id _ he c hc).2.1.lt_size
      simp only [testOf, eval_emit action hc]
  | _ => rfl

theorem tests_emit (h : d.WellFormed) (action : Action) :
    (d.emit action).tests M =
      d.tests M ++ (testOf M ((d.emit action).resultOf M) ⟨d.offset, action⟩).toList := by
  have hold : d.emitted.toList.filterMap (testOf M ((d.emit action).resultOf M)) = d.tests M :=
    List.filterMap_congr fun i hi => testOf_emit h action hi
  have hl : (d.emit action).emitted.toList = d.emitted.toList ++ [⟨d.offset, action⟩] :=
    Array.toList_push
  rw [tests, hl, List.filterMap_append, hold, List.filterMap_cons, List.filterMap_nil]
  cases testOf M ((d.emit action).resultOf M) ⟨d.offset, action⟩ <;> rfl

theorem resultOf_applyUnary (op : UnaryOp) (id : Nat) :
    (d.applyUnary op id).resultOf M = d.resultOf M := by
  funext c
  rw [resultOf, addrOf, addrs_applyUnary]
  rfl

theorem tests_applyUnary (op : UnaryOp) (id : Nat) :
    (d.applyUnary op id).tests M = d.tests M := by
  have hm := map_emitted_applyUnary (d := d) (f := testOf M (d.resultOf M)) op id
    fun _ _ => rfl
  -- what is filtered is a mapped list, and mapping does not see the operator
  have hf : ∀ l : List Instr, l.filterMap (testOf M (d.resultOf M)) =
      (l.map (testOf M (d.resultOf M))).filterMap (fun t => t) :=
    fun l => (List.filterMap_map (f := testOf M (d.resultOf M)) (g := fun t => t)).symm
  rw [tests, resultOf_applyUnary, hf, hm, ← hf]
  rfl

theorem value_applyUnary {op : UnaryOp} {id : Nat} (h : d.WellFormed) (hid : id ∈ d.pending) (j : Nat) :
    (d.applyUnary op id).value M j =
      if j = id then M.unary op (d.value M id) else d.value M j := by
  have ha : (d.applyUnary op id).action? j = _ := action?_applyUnary (h.action?_pending hid) j
  by_cases hj : j = id
  · rw [if_pos hj] at ha ⊢
    rw [value_eq ha, resultOf_applyUnary]
    rfl
  · rw [if_neg hj] at ha ⊢
    rw [value, valueOf, ha, resultOf_applyUnary]
    rfl

/-! ## The machine mirrors the draft -/

/-- The machine is where lifting the same lines leads. -/
structure Mirrors (M : Meaning V) (d : Draft) (m : Machine V) : Prop where
  line : m.line = d.offset
  stack : m.stack = d.pending.map (d.value M)
  calls : m.calls = d.liveCalls.map d.addrOf
  tests : m.tests = d.tests M

namespace Mirrors

theorem init : Mirrors M {} {} :=
  ⟨rfl, rfl, rfl, rfl⟩

theorem advance (hm : Mirrors M d m) : Mirrors M d.advance m.next where
  line := congrArg (· + 1) hm.line
  stack := hm.stack
  calls := hm.calls
  tests := hm.tests

theorem calls_emit (h : d.WellFormed) (action : Action) :
    (d.emit action).liveCalls.map (d.emit action).addrOf =
      if action.isCall then d.offset :: d.liveCalls.map d.addrOf else d.liveCalls.map d.addrOf := by
  have hold : d.liveCalls.map (d.emit action).addrOf = d.liveCalls.map d.addrOf :=
    List.map_congr_left fun id hid =>
      addrOf_emit_of_lt action (h.live_lt id (mem_liveCalls.mp hid).1)
  rw [h.liveCalls_emit]
  split
  · rw [List.map_cons, addrOf_emit_size, hold]
  · exact hold

/-- Emitting an instruction that is neither a call nor a conditional jump shows on neither side. -/
theorem emit (action : Action) (h : d.WellFormed) (hm : Mirrors M d m)
    (hc : action.isCall = false) (ht : testOf M ((d.emit action).resultOf M) ⟨d.offset, action⟩ = none) :
    Mirrors M (d.emit action) m where
  line := hm.line
  stack := hm.stack.trans (List.map_congr_left fun _ hid => (value_emit h action hid).symm)
  calls := by rw [calls_emit h, hc, hm.calls]; rfl
  tests := by rw [tests_emit h, ht, hm.tests]; exact (List.append_nil _).symm

theorem push {e : Expr} (h : d.WellFormed) (hm : Mirrors M d m) (he : ∀ c ∈ e.calls, d.Taken c) :
    Mirrors M (d.push e) (m.push (e.eval M (d.resultOf M))) :=
  have hs := hm.emit (.assign e) h rfl rfl
  have ha : (d.emit (.assign e)).action? d.emitted.size = some (.assign e) := by
    rw [action?_emit, if_pos rfl]
  have hv : (d.emit (.assign e)).value M d.emitted.size = e.eval M (d.resultOf M) :=
    (value_eq ha).trans (eval_emit _ fun c hc => (he c hc).1.lt_size)
  { line := hs.line
    stack := List.cons_eq_cons.mpr ⟨hv.symm, hs.stack⟩
    calls := hs.calls
    tests := hs.tests }

theorem call {name : String} (h : d.WellFormed) (hm : Mirrors M d m) :
    Mirrors M (d.emit (.call name)) { m with calls := m.line :: m.calls } where
  line := hm.line
  stack := hm.stack.trans (List.map_congr_left fun _ hid => (value_emit h _ hid).symm)
  calls := by rw [calls_emit h, hm.calls, hm.line]; rfl
  tests := by rw [tests_emit h, hm.tests]; exact (List.append_nil _).symm

theorem branch (target : Nat) {condition : Expr} (h : d.WellFormed) (hm : Mirrors M d m)
    (hc : ∀ c ∈ condition.calls, d.Taken c) :
    Mirrors M (d.jump target (.branch target condition))
      { m with tests := m.tests ++ [(m.line, condition.eval M (d.resultOf M))] } where
  line := hm.line
  stack := hm.stack.trans (List.map_congr_left fun _ hid => (value_emit h _ hid).symm)
  calls := hm.calls.trans (calls_emit h (.branch target condition)).symm
  tests := by
    have hv := eval_emit (M := M) (.branch target condition) fun c hcc => (hc c hcc).1.lt_size
    rw [hm.tests, hm.line, ← hv]
    exact (tests_emit h (.branch target condition)).symm

theorem consume {id : Nat} {rest : List Nat} (h : d.WellFormed) (hm : Mirrors M d m)
    (hp : d.pending = id :: rest) :
    m.stack = d.value M id :: rest.map (d.value M) ∧
      Mirrors M (d.consume id) { m with stack := rest.map (d.value M) } := by
  have hid : id ∈ d.pending := by simp [hp]
  refine ⟨by rw [hm.stack, hp]; rfl, hm.line, ?_, ?_, hm.tests⟩
  · rw [pending_consume hp]
    rfl
  · rw [h.liveCalls_consume hid]
    exact hm.calls

theorem unary {op : UnaryOp} {id : Nat} {rest : List Nat} (hm : Mirrors M d m) (h : d.WellFormed)
    (hp : d.pending = id :: rest) :
    ∃ m', m.mapTop (M.unary op) = some m' ∧ Mirrors M (d.applyUnary op id) m' := by
  have hid : id ∈ d.pending := by simp [hp]
  have hne : ∀ j ∈ rest, j ≠ id := by
    have hn := h.pending_nodup
    rw [hp] at hn
    rintro j hj rfl
    exact (List.nodup_cons.mp hn).1 hj
  have hst : m.stack = d.value M id :: rest.map (d.value M) := (hm.consume h hp).1
  refine ⟨{ m with stack := M.unary op (d.value M id) :: rest.map (d.value M) },
    by simp only [Machine.mapTop, hst], hm.line, ?_, ?_, ?_⟩
  · show _ = d.pending.map _
    rw [hp, List.map_cons, value_applyUnary h hid, if_pos rfl]
    refine congrArg (M.unary op (d.value M id) :: ·) (List.map_congr_left fun j hj => ?_)
    rw [value_applyUnary h hid, if_neg (hne j hj)]
  · rw [h.liveCalls_applyUnary hid, hm.calls]
    refine List.map_congr_left fun c _ => ?_
    rw [addrOf, addrOf, addrs_applyUnary]
  · rw [tests_applyUnary]
    exact hm.tests

theorem binary {op : BinaryOp} {right left : Nat} {rest : List Nat} (hm : Mirrors M d m)
    (h : d.WellFormed) (hp : d.pending = right :: left :: rest) :
    ∃ m', m.combine (M.binary op) = some m' ∧
      Mirrors M (((d.consume right).consume left).push
        (.binary op (d.valueOf left) (d.valueOf right))) m' := by
  have hr : right ∈ d.pending := by simp [hp]
  have hl : left ∈ d.pending := by simp [hp]
  have hst : m.stack = d.value M right :: d.value M left :: rest.map (d.value M) :=
    (hm.consume h hp).1
  have hpop := (((hm.consume h hp).2).consume (h.consume right) (pending_consume hp)).2
  have hcalls : ∀ c ∈ (Expr.binary op (d.valueOf left) (d.valueOf right)).calls,
      ((d.consume right).consume left).Taken c := by
    intro c hc
    rw [Expr.calls, List.mem_append] at hc
    have ht : d.Taken c := hc.elim (h.taken_of_mem_calls hl) (h.taken_of_mem_calls hr)
    exact (ht.consume right).consume left
  exact ⟨_, by simp only [Machine.combine, hst]; rfl,
    hpop.push ((h.consume right).consume left) hcalls⟩

theorem takeResult {id : Nat} (hm : Mirrors M d m) (h : d.WellFormed)
    (hc : d.latestCall? = some id) :
    ∃ m', m.takeResult M = some m' ∧ Mirrors M ((d.absorb id).push (.result id)) m' := by
  have hid := mem_live_of_latestCall? hc
  have hl := WellFormed.liveCalls_takeResult hc
  have hcalls : m.calls = d.addrOf id :: (d.consume id).liveCalls.map d.addrOf := by
    rw [hm.calls, hl, List.map_cons]
  have hpop : Mirrors M (d.consume id) { m with calls := (d.consume id).liveCalls.map d.addrOf } := by
    refine ⟨hm.line, ?_, rfl, hm.tests⟩
    rw [← h.absorb_eq_consume hid.2]
    exact hm.stack
  have htaken : (d.consume id).Taken id := ⟨hid.2, h.live_nodup.not_mem_erase⟩
  have hpush := hpop.push (e := .result id) (h.consume id) fun c hcc => by
    rw [Expr.calls, List.mem_singleton] at hcc
    exact hcc ▸ htaken
  rw [h.absorb_eq_consume hid.2]
  exact ⟨_, by simp only [Machine.takeResult, hcalls]; rfl, hpush⟩

theorem exec {ws : List String} {c : Command} (hm : Mirrors M d m) (h : d.WellFormed)
    (hr : Reads ws c) (hs : Step d c d') : ∃ m', m.exec M ws = some m' ∧ Mirrors M d' m' := by
  cases hr with
  | blank | loadAddress _ | forward _ | dropNone => cases hs; exact ⟨m, rfl, hm⟩
  | saveAddress hv => cases hs; exact ⟨m, by simp [Machine.exec, hv], hm⟩
  | label _ _ => cases hs; exact ⟨m, rfl, hm.line, hm.stack, hm.calls, hm.tests⟩
  | push hv =>
      cases hs
      exact ⟨_, by simp only [Machine.exec, hv]; rfl, hm.push h (by simp [Expr.calls])⟩
  | pushArgument hv hi | pushLocal hv hi =>
      cases hs
      rw [Command.eq_toNat_of_index? hi]
      exact ⟨_, by simp only [Machine.exec, hv]; rfl, hm.push h (by simp [Expr.calls])⟩
  | unary hv hop =>
      cases hs with
      | unary hp =>
          obtain ⟨m', hm', hm''⟩ := hm.unary h hp
          exact ⟨m', by simp only [Machine.exec, hv, Option.bind_some, hop, hm'], hm''⟩
  | call => cases hs; exact ⟨_, rfl, hm.call h⟩
  | @jump _ _ target _ _ =>
      cases hs
      have he := hm.emit (.goto target) h rfl rfl
      exact ⟨m, rfl, he.line, he.stack, he.calls, he.tests⟩
  | @branch _ _ target _ _ =>
      cases hs with
      | @branch _ id rest hp =>
          obtain ⟨hst, hpop⟩ := hm.consume h hp
          have hid : id ∈ d.pending := by simp [hp]
          have hb := hpop.branch target (h.consume id) fun c hc => (h.taken_of_mem_calls hid hc).consume id
          exact ⟨_, by simp only [Machine.exec, Machine.test, hst]; rfl, hb⟩
  | takeResult hv =>
      cases hs with
      | takeResult hc =>
          obtain ⟨m', hm', hm''⟩ := hm.takeResult h hc
          exact ⟨m', by simp only [Machine.exec, hv, ↓reduceIte, hm'], hm''⟩
  | ret _ => cases hs; exact ⟨m, rfl, hm.emit _ h rfl rfl⟩
  | drop hv =>
      cases hs
      refine ⟨_, rfl, hm.line, ?_, hm.calls, hm.tests⟩
      simp only [hv, Option.getD_some, hm.stack, List.map_drop]
      rfl
  | binary hop =>
      rw [Machine.exec_of_not_mem_keywords M (Command.not_mem_keywords hop), hop]
      cases hs with
      | binary hp => exact hm.binary h hp
  | unknown hk hop =>
      rw [Machine.exec_of_not_mem_keywords M hk, hop]
      cases hs
      exact ⟨m, rfl, hm.emit _ h rfl rfl⟩

end Mirrors

/-- Lines that lead to a draft lead the machine to its mirror. -/
theorem run_mirrors {lines : List String} (h : ({} : Draft).run lines = .ok d) :
    ∃ m, Machine.run M lines = some m ∧ Mirrors M d m := by
  refine step_induction (motive := fun lines d => ∃ m, Machine.run M lines = some m ∧ Mirrors M d m)
    ⟨{}, rfl, .init⟩ ?_ h
  rintro lines d line c d' hw - ⟨m, hm, hd⟩ hr hs
  obtain ⟨m', hm', hd'⟩ := hd.exec hw hr hs
  refine ⟨m'.next, ?_, hd'.advance⟩
  rw [Machine.run] at hm ⊢
  simp [List.foldlM_append, hm, Machine.step, hm']

/-! ## Lifting keeps the meaning -/

/-- The assignment with this number evaluates to the value. -/
def Holds (M : Meaning V) (d : Draft) (id : Nat) (v : V) : Prop :=
  ∃ e, d.action? id = some (.assign e) ∧ e.eval M (d.resultOf M) = v

/-- Lifting keeps the meaning of the lines: the machine does not get stuck on them, its stack holds the values of
the pending assignments, and the conditions of the conditional jumps have the values that it tested. -/
theorem run_meaning (M : Meaning V) {lines : List String} (h : ({} : Draft).run lines = .ok d) :
    ∃ m, Machine.run M lines = some m ∧ List.Forall₂ (d.Holds M) d.pending m.stack ∧
      d.tests M = m.tests := by
  obtain ⟨m, hm, hd⟩ := run_mirrors (M := M) h
  refine ⟨m, hm, ?_, hd.tests.symm⟩
  rw [hd.stack, List.forall₂_map_right_iff, List.forall₂_same]
  intro id hid
  exact ⟨_, (run_wellFormed h).action?_pending hid, rfl⟩

/-- Integers; a call gives ten times the number of its line. -/
def integers : Meaning Int where
  literal v := v
  argument i := i
  localVar i := -i
  result line := 10 * line
  unary op x := match op with
    | .not => if x = 0 then 1 else 0
    | .negate => -x
    | .bitNot => -x - 1
  binary op x y := match op with
    | .subtract => x - y
    | .multiply => x * y
    | _ => x + y

theorem run_meaning_integers :
    ∃ d, ({} : Draft).run ["PUSH 7", "PUSHARG 2", "CALL f", "PUSHRC 0", "MINUS", "UNARY 1", "IFNOTGO 9"] = .ok d ∧
      List.Forall₂ (d.Holds integers) d.pending [7] ∧ d.tests integers = [(6, 18)] := by
  obtain ⟨d, hd, _⟩ : ∃ d, ({} : Draft).run
      ["PUSH 7", "PUSHARG 2", "CALL f", "PUSHRC 0", "MINUS", "UNARY 1", "IFNOTGO 9"] = .ok d ∧
        d.pending = [0] := exists_ok (by decide +kernel)
  obtain ⟨m, hm, hstack, htests⟩ := run_meaning integers hd
  have hrun : (Machine.run integers
      ["PUSH 7", "PUSHARG 2", "CALL f", "PUSHRC 0", "MINUS", "UNARY 1", "IFNOTGO 9"]).map
        (fun m => (m.stack, m.tests)) = some ([7], [(6, 18)]) := by decide +kernel
  rw [hm, Option.map_some, Option.some.injEq, Prod.mk.injEq] at hrun
  exact ⟨d, hd, hrun.1 ▸ hstack, htests.trans hrun.2⟩

end Draft

end Unstack
