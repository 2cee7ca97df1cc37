import Mathlib.Data.List.Basic
import Unstack.Proofs.Draft.WellFormed

/-!
# What the live instructions hold

A tally lists what is found in the live instructions. Folding moves an expression from one live instruction into
another, so what is found in it is neither lost nor found twice: the nodes of expressions (`nodes_step`) and the
calls (`calls_step`). What no expression can absorb stays live (`Standing.step`).
-/

namespace Unstack

open Command (Reads number?)

/-! ## Nodes of expressions -/

/-- A node of an expression, without its operands. -/
inductive Node where
  | literal (value : Int)
  | argument (index : Nat)
  | localVar (index : Nat)
  | result (call : Nat)
  | binary (op : BinaryOp)
  | unary (op : UnaryOp)
deriving DecidableEq

namespace Node

def isLeaf : Node → Bool
  | binary _ | unary _ => false
  | _ => true

/-- The node that the words of a line ask for, where `calls` are the calls whose results were not taken. -/
def ofWords? (calls : List Nat) : List String → Option Node
  | [] => none
  | mnemonic :: params =>
    match mnemonic with
    | "PUSH" => (number? params).map literal
    | "PUSHARG" => (number? params).map fun v => argument v.toNat
    | "PUSHVAR" => (number? params).map fun v => localVar v.toNat
    | "UNARY" => ((number? params).bind UnaryOp.ofOperand?).map unary
    | "PUSHRC" => if number? params = some 0 then calls.head?.map result else none
    | _ => (BinaryOp.ofMnemonic? mnemonic).map binary

theorem ofWords?_of_not_mem_keywords {calls : List Nat} {mnemonic : String} {params : List String}
    (h : mnemonic ∉ Command.keywords) :
    ofWords? calls (mnemonic :: params) = (BinaryOp.ofMnemonic? mnemonic).map binary := by
  simp only [ofWords?]
  split <;> first | rfl | exact absurd (by decide) h

end Node

/-- The nodes of an expression, the root first. -/
def Expr.nodes : Expr → List Node
  | literal value => [.literal value]
  | argument index => [.argument index]
  | localVar index => [.localVar index]
  | result call => [.result call]
  | binary op left right => .binary op :: (left.nodes ++ right.nodes)
  | unary op operand => .unary op :: operand.nodes

namespace Action

def nodes (a : Action) : List Node :=
  (a.expr?.map Expr.nodes).getD []

/-- The calls that the instruction with this number makes or refers to. -/
def calls (id : Nat) : Action → List Nat
  | call _ => [id]
  | a => (a.expr?.map Expr.calls).getD []

end Action

namespace Draft

variable {β : Type*} {d d' : Draft}

/-! ## Tallies -/

/-- What `f` finds in the live instructions, the latest first. -/
def tally (f : Nat → Action → List β) (d : Draft) : List β :=
  d.live.flatMap fun id => (d.action? id).elim [] (f id)

theorem tally_emit (f : Nat → Action → List β) (h : d.WellFormed) (action : Action) :
    (d.emit action).tally f = f d.emitted.size action ++ d.tally f := by
  have hold : d.live.flatMap (fun id => ((d.emit action).action? id).elim [] (f id)) = d.tally f :=
    List.flatMap_congr fun id hid => by rw [action?_emit_of_lt action (h.live_lt id hid)]
  show (d.emitted.size :: d.live).flatMap _ = _
  rw [List.flatMap_cons, hold, action?_emit, if_pos rfl]
  rfl

theorem tally_consume (f : Nat → Action → List β) {id : Nat} {action : Action} (hid : id ∈ d.live)
    (ha : d.action? id = some action) :
    (d.tally f).Perm (f id action ++ (d.consume id).tally f) := by
  have hp := (List.perm_cons_erase hid).flatMap_right fun id => (d.action? id).elim [] (f id)
  rw [List.flatMap_cons, ha] at hp
  exact hp

/-- An operator applied in place adds what the new expression holds besides the old one. -/
theorem tally_applyUnary (f : Nat → Action → List β) (added : List β) {op : UnaryOp} {id : Nat}
    (h : d.WellFormed) (hid : id ∈ d.pending)
    (hf : f id (.assign (.unary op (d.valueOf id))) = added ++ f id (.assign (d.valueOf id))) :
    ((d.applyUnary op id).tally f).Perm (added ++ d.tally f) := by
  have hv := h.action?_pending hid
  have ha : (d.applyUnary op id).action? id = some (.assign (.unary op (d.valueOf id))) := by
    rw [action?_applyUnary hv, if_pos rfl]
  have hold : ((d.applyUnary op id).consume id).tally f = (d.consume id).tally f := by
    refine List.flatMap_congr fun j hj => ?_
    have hne : j ≠ id := (h.live_nodup.mem_erase_iff.mp hj).1
    show ((d.applyUnary op id).action? j).elim [] (f j) = (d.action? j).elim [] (f j)
    rw [action?_applyUnary hv, if_neg hne]
  have hnew := tally_consume f (d := d.applyUnary op id) (h.pending_live id hid) ha
  rw [hold, hf, List.append_assoc] at hnew
  exact hnew.trans ((tally_consume f (h.pending_live id hid) hv).symm.append_left added)

/-- An instruction that absorbs another one adds what it holds besides that one. -/
theorem tally_absorb (f : Nat → Action → List β) (new : Action) (added : List β) {id : Nat} {old : Action}
    (h : d.WellFormed) (hid : id ∈ d.live) (ha : d.action? id = some old)
    (hf : (f d.emitted.size new).Perm (added ++ f id old)) :
    (((d.consume id).emit new).tally f).Perm (added ++ d.tally f) := by
  rw [tally_emit f (h.consume id)]
  refine (hf.append_right _).trans ?_
  rw [List.append_assoc]
  exact (tally_consume f hid ha).symm.append_left added

/-- An instruction that absorbs the two values on top adds what it holds besides both. -/
theorem tally_absorb_two (f : Nat → Action → List β) (new : Action) (added : List β) {right left : Nat}
    {rest : List Nat} (h : d.WellFormed) (hp : d.pending = right :: left :: rest)
    (hf : f d.emitted.size new =
      added ++ (f left (.assign (d.valueOf left)) ++ f right (.assign (d.valueOf right)))) :
    ((((d.consume right).consume left).emit new).tally f).Perm (added ++ d.tally f) := by
  have hr : right ∈ d.pending := by simp [hp]
  have hl : left ∈ (d.consume right).pending := by simp [pending_consume hp]
  -- with the right value gone, the left one is absorbed and the right one counts as added
  have hswap : (f d.emitted.size new).Perm
      ((added ++ f right (.assign (d.valueOf right))) ++ f left (.assign (d.valueOf left))) := by
    rw [hf, List.append_assoc]
    exact List.perm_append_comm.append_left added
  have hnew := tally_absorb f new _ (h.consume right) ((h.consume right).pending_live left hl)
    ((h.consume right).action?_pending hl) hswap
  rw [List.append_assoc] at hnew
  exact hnew.trans ((tally_consume f (h.pending_live right hr) (h.action?_pending hr)).symm.append_left added)

/-! ## Nodes -/

def nodes (d : Draft) : List Node :=
  d.tally fun _ action => action.nodes

/-- The nodes of the live expressions are those from before and the one that the line asks for. -/
theorem nodes_step {ws : List String} {c : Command} (h : d.WellFormed) (hr : Reads ws c)
    (hs : Step d c d') :
    d'.nodes.Perm ((Node.ofWords? d.liveCalls ws).toList ++ d.nodes) := by
  cases hr with
  | blank | loadAddress _ | dropNone | forward _ => cases hs; exact .refl _
  | saveAddress hv =>
      cases hs
      simp [Node.ofWords?, hv]
  | label _ _ | drop _ => cases hs; exact .refl _
  | push hv =>
      cases hs
      rw [Node.ofWords?, hv]
      exact .of_eq (tally_emit _ h _)
  | pushArgument hv hi | pushLocal hv hi =>
      cases hs
      rw [Node.ofWords?, hv, Command.eq_toNat_of_index? hi]
      exact .of_eq (tally_emit _ h _)
  | unary hv hop =>
      cases hs with
      | @unary op id rest hp =>
          simp only [Node.ofWords?, hv, Option.bind_some, hop, Option.map_some]
          exact tally_applyUnary _ [_] h (by simp [hp]) rfl
  | call | jump _ _ | ret _ => cases hs; exact .of_eq (tally_emit _ h _)
  | branch _ _ =>
      cases hs with
      | @branch _ id rest hp =>
          have hid : id ∈ d.pending := by simp [hp]
          exact tally_absorb _ (.branch _ _) [] h (h.pending_live id hid) (h.action?_pending hid) (.refl _)
  | takeResult hv =>
      cases hs with
      | @takeResult id hc =>
          obtain ⟨hid, name, hn⟩ := mem_live_of_latestCall? hc
          simp only [Node.ofWords?, hv, ↓reduceIte, h.absorb_eq_consume ⟨name, hn⟩,
            WellFormed.liveCalls_takeResult hc, List.head?_cons, Option.map_some]
          exact tally_absorb _ (.assign _) [_] h hid hn (.refl _)
  | @binary _ _ op hop =>
      rw [Node.ofWords?_of_not_mem_keywords (Command.not_mem_keywords hop), hop]
      cases hs with
      | binary hp => exact tally_absorb_two _ (.assign _) [_] h hp rfl
  | unknown hk hop =>
      rw [Node.ofWords?_of_not_mem_keywords hk, hop]
      cases hs
      exact .of_eq (tally_emit _ h _)

/-! ## Calls -/

def allCalls (d : Draft) : List Nat :=
  (List.range d.emitted.size).filter fun id => (d.action? id).any Action.isCall

theorem allCalls_emit (d : Draft) (action : Action) :
    (d.emit action).allCalls =
      d.allCalls ++ if action.isCall then [d.emitted.size] else [] := by
  have hold : (List.range d.emitted.size).filter
      (fun id => ((d.emit action).action? id).any Action.isCall) = d.allCalls :=
    List.filter_congr fun id hid => by rw [action?_emit_of_lt action (List.mem_range.mp hid)]
  have hsize : (d.emit action).emitted.size = d.emitted.size + 1 := Array.size_push _
  rw [allCalls, hsize, List.range_succ, List.filter_append, hold, List.filter_singleton, action?_emit,
    if_pos rfl, Option.any_some, Bool.cond_eq_ite]

theorem allCalls_applyUnary {op : UnaryOp} {id : Nat} (h : d.WellFormed) (hid : id ∈ d.pending) :
    (d.applyUnary op id).allCalls = d.allCalls := by
  have hv := h.action?_pending hid
  have hsize : (d.applyUnary op id).emitted.size = d.emitted.size := Array.size_modify
  rw [allCalls, hsize]
  exact List.filter_congr fun j _ => any_isCall_applyUnary hv j

theorem allCalls_emit_of_not_isCall (d : Draft) {action : Action} (ha : action.isCall = false) :
    (d.emit action).allCalls = d.allCalls := by
  rw [allCalls_emit, ha]
  exact List.append_nil _

/-- Every call is made or referred to by exactly one live instruction, and this one does it once. -/
theorem calls_step {c : Command} (h : d.WellFormed) (hs : Step d c d')
    (hd : (d.tally Action.calls).Perm d.allCalls) :
    (d'.tally Action.calls).Perm d'.allCalls := by
  -- an instruction that neither is a call nor refers to one changes neither side
  have hemit : ∀ action : Action, action.isCall = false → action.calls d.emitted.size = [] →
      ((d.emit action).tally Action.calls).Perm (d.emit action).allCalls := by
    intro action hc ha
    rw [tally_emit _ h, ha, allCalls_emit_of_not_isCall d hc]
    exact hd
  cases hs with
  | skip | label _ | drop => exact hd
  | push | pushArgument | pushLocal => exact hemit (.assign _) rfl rfl
  | @unary op id rest hp =>
      have hid : id ∈ d.pending := by simp [hp]
      rw [allCalls_applyUnary h hid]
      exact (tally_applyUnary Action.calls [] h hid rfl).trans hd
  | @binary op right left rest hp =>
      have ht := tally_absorb_two Action.calls (.assign (.binary op (d.valueOf left) (d.valueOf right))) []
        h hp rfl
      exact ht.trans (hd.trans (.of_eq
        (allCalls_emit_of_not_isCall ((d.consume right).consume left) rfl).symm))
  | @call name =>
      rw [tally_emit _ h, allCalls_emit]
      exact (hd.cons _).trans (List.perm_append_singleton _ _).symm
  | jump => exact hemit (.goto _) rfl rfl
  | @branch t id rest hp =>
      have hid : id ∈ d.pending := by simp [hp]
      have ht := tally_absorb Action.calls (.branch t (d.valueOf id)) [] h (h.pending_live id hid)
        (h.action?_pending hid) (.refl _)
      exact ht.trans (hd.trans (.of_eq (allCalls_emit_of_not_isCall (d.consume id) rfl).symm))
  | @takeResult id hc =>
      obtain ⟨hid, name, hn⟩ := mem_live_of_latestCall? hc
      have ht := tally_absorb Action.calls (.assign (.result id)) [] h hid hn (.refl _)
      rw [h.absorb_eq_consume ⟨name, hn⟩]
      exact ht.trans (hd.trans (.of_eq (allCalls_emit_of_not_isCall (d.consume id) rfl).symm))
  | ret | unknown => exact hemit _ rfl rfl

/-! ## What stays live -/

/-- The instruction with this number is live and has nothing that an expression could absorb. -/
structure Standing (d : Draft) (id : Nat) (i : Instr) : Prop where
  live : id ∈ d.live
  found : d.emitted[id]? = some i
  notCall : i.action.isCall = false
  notAssign : i.action.isAssign = false

namespace Standing

variable {id : Nat} {i : Instr}

theorem action?_eq (hs : d.Standing id i) : d.action? id = some i.action := by
  rw [action?, hs.found]
  rfl

theorem ne_pending {j : Nat} (hs : d.Standing id i) (h : d.WellFormed) (hj : j ∈ d.pending) : id ≠ j := by
  rintro rfl
  have hv := h.action?_pending hj
  rw [hs.action?_eq] at hv
  have ha := hs.notAssign
  rw [Option.some.inj hv] at ha
  cases ha

theorem ne_call {j : Nat} (hs : d.Standing id i) (hj : d.IsCall j) : id ≠ j := by
  rintro rfl
  obtain ⟨name, hn⟩ := hj
  rw [hs.action?_eq] at hn
  have hc := hs.notCall
  rw [Option.some.inj hn] at hc
  cases hc

theorem consume {j : Nat} (hs : d.Standing id i) (hne : id ≠ j) : (d.consume j).Standing id i :=
  ⟨(List.mem_erase_of_ne hne).mpr hs.live, hs.found, hs.notCall, hs.notAssign⟩

theorem emit (hs : d.Standing id i) (action : Action) : (d.emit action).Standing id i := by
  refine ⟨List.mem_cons_of_mem _ hs.live, ?_, hs.notCall, hs.notAssign⟩
  have hne : id ≠ d.emitted.size := Nat.ne_of_lt (lt_size_of_action? hs.action?_eq)
  show (d.emitted.push _)[id]? = _
  rw [Array.getElem?_push, if_neg hne, hs.found]

theorem push (hs : d.Standing id i) (value : Expr) : (d.push value).Standing id i :=
  have he := hs.emit (.assign value)
  ⟨he.live, he.found, he.notCall, he.notAssign⟩

theorem jump (hs : d.Standing id i) (target : Nat) (action : Action) :
    (d.jump target action).Standing id i :=
  have he := hs.emit action
  ⟨he.live, he.found, he.notCall, he.notAssign⟩

theorem applyUnary {top : Nat} (hs : d.Standing id i) (op : UnaryOp) (hne : id ≠ top) :
    (d.applyUnary op top).Standing id i := by
  refine ⟨hs.live, ?_, hs.notCall, hs.notAssign⟩
  simp only [Draft.applyUnary, Array.getElem?_modify, hne.symm, ↓reduceIte, hs.found]

theorem advance (hs : d.Standing id i) : d.advance.Standing id i :=
  ⟨hs.live, hs.found, hs.notCall, hs.notAssign⟩

theorem step {c : Command} (hs : d.Standing id i) (h : d.WellFormed) (hstep : Step d c d') :
    d'.Standing id i := by
  cases hstep with
  | skip => exact hs
  | label _ | drop => exact ⟨hs.live, hs.found, hs.notCall, hs.notAssign⟩
  | push | pushArgument | pushLocal => exact hs.push _
  | @unary op top rest hp => exact hs.applyUnary op (hs.ne_pending h (by simp [hp]))
  | @binary op right left rest hp =>
      have hr : id ≠ right := hs.ne_pending h (by simp [hp])
      have hl : id ≠ left := hs.ne_pending h (by simp [hp])
      exact ((hs.consume hr).consume hl).push _
  | call | ret | unknown => exact hs.emit _
  | jump => exact hs.jump _ _
  | @branch t top rest hp => exact (hs.consume (hs.ne_pending h (by simp [hp]))).jump _ _
  | @takeResult call hc =>
      have hcall := (mem_live_of_latestCall? hc).2
      rw [h.absorb_eq_consume hcall]
      exact (hs.consume (hs.ne_call hcall)).push _

theorem new (d : Draft) {action : Action} (hc : action.isCall = false) (ha : action.isAssign = false) :
    (d.emit action).Standing d.emitted.size ⟨d.offset, action⟩ :=
  ⟨List.mem_cons_self, Array.getElem?_push_size, hc, ha⟩

theorem new_jump (d : Draft) {action : Action} (target : Nat) (hc : action.isCall = false)
    (ha : action.isAssign = false) :
    (d.jump target action).Standing d.emitted.size ⟨d.offset, action⟩ :=
  have hn := new d hc ha
  ⟨hn.live, hn.found, hc, ha⟩

end Standing

end Draft

end Unstack
