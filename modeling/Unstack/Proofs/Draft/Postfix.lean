import Unstack.Proofs.Draft.WellFormed
import Unstack.Proofs.Text.Words

/-!
# Lifting undoes postfix notation

The lines that compute a value in postfix notation are lifted to one assignment that holds the value as a tree,
whatever lines stand before them, and nothing else changes (`run_tree`). A conditional jump behind them absorbs the
assignment. Lifting does not see the registry.
-/

namespace Unstack

open Command (written)

/-! ## Trees and their lines -/

/-- A value before it is lifted: its calls are named, not numbered. -/
inductive Tree where
  | literal (value : Int)
  | argument (index : Nat)
  | localVar (index : Nat)
  | call (name : String)
  | unary (op : UnaryOp) (operand : Tree)
  /-- The left operand is pushed before the right one. -/
  | binary (op : BinaryOp) (left right : Tree)

/-- How many lines a tree takes. -/
def Tree.size : Tree → Nat
  | literal _ | argument _ | localVar _ => 1
  | call _ => 2
  | unary _ operand => operand.size + 1
  | binary _ left right => left.size + right.size + 1

/-- The lines push the value of the tree: operands first, then their operator. -/
inductive Postfix : Tree → List String → Prop where
  | literal {v text} (hv : Operand.read? text.toList = some v) : Postfix (.literal v) [written "PUSH" text]
  | argument {i : Nat} {text} (hv : Operand.read? text.toList = some (i : Int)) (hi : i < 0x100000000) :
      Postfix (.argument i) [written "PUSHARG" text]
  | localVar {i : Nat} {text} (hv : Operand.read? text.toList = some (i : Int)) (hi : i < 0x100000000) :
      Postfix (.localVar i) [written "PUSHVAR" text]
  | call {name zero} (hn : Text.IsWord name.toList) (hz : Operand.read? zero.toList = some 0) :
      Postfix (.call name) [written "CALL" name, written "PUSHRC" zero]
  | unary {op t lines text v} (h : Postfix t lines) (hv : Operand.read? text.toList = some v)
      (hop : UnaryOp.ofOperand? v = some op) : Postfix (.unary op t) (lines ++ [written "UNARY" text])
  | binary {op l r left right} (hl : Postfix l left) (hr : Postfix r right) :
      Postfix (.binary op l r) (left ++ right ++ [op.mnemonic])

/-- The expression is the tree, whose lines start at this address, with each call as the result of the instruction
that its own line emitted. -/
inductive Denotes (emitted : Array Instr) : Nat → Tree → Expr → Prop where
  | literal {line v} : Denotes emitted line (.literal v) (.literal v)
  | argument {line i} : Denotes emitted line (.argument i) (.argument i)
  | localVar {line i} : Denotes emitted line (.localVar i) (.localVar i)
  | call {line name id} (h : emitted[id]? = some ⟨line, .call name⟩) :
      Denotes emitted line (.call name) (.result id)
  | unary {line op t e} (h : Denotes emitted line t e) : Denotes emitted line (.unary op t) (.unary op e)
  | binary {line op l r left right} (hl : Denotes emitted line l left) (hr : Denotes emitted (line + l.size) r right) :
      Denotes emitted line (.binary op l r) (.binary op left right)

theorem Denotes.mono {emitted emitted' : Array Instr} {line : Nat} {t : Tree} {e : Expr}
    (hkeep : ∀ (id addr : Nat) (name : String),
      emitted[id]? = some ⟨addr, .call name⟩ → emitted'[id]? = some ⟨addr, .call name⟩)
    (h : Denotes emitted line t e) : Denotes emitted' line t e := by
  induction h with
  | literal => exact .literal
  | argument => exact .argument
  | localVar => exact .localVar
  | call h => exact .call (hkeep _ _ _ h)
  | unary _ ih => exact .unary ih
  | binary _ _ ihl ihr => exact .binary ihl ihr

/-! ## Reading the lines -/

namespace Command

variable {mnemonic text : String} {v : Int}

theorem isWord_of_mem_keywords : ∀ m ∈ keywords, Text.IsWord m.toList := by
  decide

theorem not_comment_of_mem_keywords : ∀ m ∈ keywords, m.toList.head? ≠ some '#' := by
  decide

theorem ofLine_written (hm : mnemonic ∈ keywords) (ht : Text.IsWord text.toList) :
    ofLine (written mnemonic text) = ofMnemonic mnemonic [text] := by
  rw [ofLine, wordsOf_written (isWord_of_mem_keywords _ hm) ht, ofWords, if_neg (not_comment_of_mem_keywords _ hm)]

theorem ofLine_push (hv : Operand.read? text.toList = some v) : ofLine (written "PUSH" text) = .ok (.push v) := by
  rw [ofLine_written (by decide) (Text.isWord_of_read? hv)]
  simp only [ofMnemonic, operand_of_read? hv rfl]
  rfl

theorem ofLine_pushArgument {i : Nat} (hv : Operand.read? text.toList = some (i : Int)) (hi : i < 0x100000000) :
    ofLine (written "PUSHARG" text) = .ok (.pushArgument i) := by
  rw [ofLine_written (by decide) (Text.isWord_of_read? hv)]
  simp only [ofMnemonic, operand_of_read? hv (index?_natCast hi)]
  rfl

theorem ofLine_pushLocal {i : Nat} (hv : Operand.read? text.toList = some (i : Int)) (hi : i < 0x100000000) :
    ofLine (written "PUSHVAR" text) = .ok (.pushLocal i) := by
  rw [ofLine_written (by decide) (Text.isWord_of_read? hv)]
  simp only [ofMnemonic, operand_of_read? hv (index?_natCast hi)]
  rfl

theorem ofLine_call (hn : Text.IsWord text.toList) : ofLine (written "CALL" text) = .ok (.call text) := by
  rw [ofLine_written (by decide) hn]
  rfl

theorem ofLine_takeResult (hv : Operand.read? text.toList = some 0) :
    ofLine (written "PUSHRC" text) = .ok .takeResult := by
  rw [ofLine_written (by decide) (Text.isWord_of_read? hv)]
  simp only [ofMnemonic, choose, operand_of_read? hv rfl, ↓reduceIte]

theorem ofLine_unary {op : UnaryOp} (hv : Operand.read? text.toList = some v)
    (hop : UnaryOp.ofOperand? v = some op) : ofLine (written "UNARY" text) = .ok (.unary op) := by
  rw [ofLine_written (by decide) (Text.isWord_of_read? hv)]
  simp only [ofMnemonic, unaryOperator, operand_of_read? hv rfl, hop]
  rfl

theorem ofLine_branch {target : Nat} (hv : Operand.read? text.toList = some (target : Int)) :
    ofLine (written "IFNOTGO" text) = .ok (.branch target) := by
  rw [ofLine_written (by decide) (Text.isWord_of_read? hv)]
  simp only [ofMnemonic, operand_of_read? hv (address?_natCast target)]
  rfl

theorem ofLine_mnemonic (op : BinaryOp) : ofLine op.mnemonic = .ok (.binary op) := by
  cases op <;> decide

end Command

/-! ## Every tree has lines -/

/-- The numbers of the tree fit into operands, and the names of its calls are words. -/
def Tree.Writable : Tree → Prop
  | literal v => Operand.InRange v
  | argument i | localVar i => i < 0x100000000
  | call name => Text.IsWord name.toList
  | unary _ operand => operand.Writable
  | binary _ left right => left.Writable ∧ right.Writable

theorem inRange_index {i : Nat} (h : i < 0x100000000) : Operand.InRange (i : Int) :=
  ⟨by omega, by omega⟩

theorem exists_operand {v : Int} (h : Operand.InRange v) : ∃ text : String, Operand.read? text.toList = some v := by
  have hread : ∀ s : List Char, Operand.signed? s = some v →
      Operand.read? (String.ofList ('0' :: 'x' :: s)).toList = some v := by
    intro s hs
    rw [String.toList_ofList, Operand.read?, Operand.dropMark, hs, Option.filter_some, if_pos (decide_eq_true h)]
  obtain ⟨n, rfl | rfl⟩ := v.eq_nat_or_neg
  · exact ⟨_, hread ('+' :: Nat.toDigits 16 n) (by rw [Operand.signed?, Hex.value?_toDigits]; rfl)⟩
  · exact ⟨_, hread ('-' :: Nat.toDigits 16 n) (by rw [Operand.signed?, Hex.value?_toDigits]; rfl)⟩

theorem exists_unaryOperand : ∀ op : UnaryOp, ∃ v, Operand.InRange v ∧ UnaryOp.ofOperand? v = some op
  | .not => ⟨0, by decide⟩
  | .negate => ⟨1, by decide⟩
  | .bitNot => ⟨2, by decide⟩

theorem Tree.Writable.exists_lines {t : Tree} (h : t.Writable) : ∃ lines, Postfix t lines := by
  induction t with
  | literal v =>
      obtain ⟨text, hv⟩ := exists_operand h
      exact ⟨_, .literal hv⟩
  | argument i =>
      obtain ⟨text, hv⟩ := exists_operand (inRange_index h)
      exact ⟨_, .argument hv h⟩
  | localVar i =>
      obtain ⟨text, hv⟩ := exists_operand (inRange_index h)
      exact ⟨_, .localVar hv h⟩
  | call name => exact ⟨_, .call h (show Operand.read? "0".toList = some 0 by decide)⟩
  | unary op operand ih =>
      obtain ⟨lines, hl⟩ := ih h
      obtain ⟨v, hr, hop⟩ := exists_unaryOperand op
      obtain ⟨text, hv⟩ := exists_operand hr
      exact ⟨_, .unary hl hv hop⟩
  | binary op left right ihl ihr =>
      obtain ⟨llines, hl⟩ := ihl h.1
      obtain ⟨rlines, hr⟩ := ihr h.2
      exact ⟨_, .binary hl hr⟩

namespace Draft

variable {d d₁ d' : Draft} {t : Tree} {id : Nat}

/-! ## What the lines of a tree add -/

/-- The draft keeps every instruction of the one before and its labels. -/
structure Keeps (d d' : Draft) : Prop where
  kept : ∀ j < d.emitted.size, d'.emitted[j]? = d.emitted[j]?
  labels : d'.labels = d.labels

/-- Whatever the draft has emitted since the one before is absorbed, and nothing else is new. -/
structure Settles (d d' : Draft) : Prop extends d.Keeps d' where
  live : d'.live = d.live
  pending : d'.pending = d.pending
  targets : d'.targets = d.targets

/-- The draft has the value of the tree as one more pending assignment, and nothing else is new. -/
structure Lifts (d : Draft) (t : Tree) (id : Nat) (d' : Draft) : Prop extends d.Keeps d' where
  fresh : d.emitted.size ≤ id
  live : d'.live = id :: d.live
  pending : d'.pending = id :: d.pending
  targets : d'.targets = d.targets
  value : ∃ e, d'.action? id = some (.assign e) ∧ Denotes d'.emitted d.offset t e

/-- The draft has a jump on the value of the tree as one more live instruction, and but for its target nothing else is
new. -/
structure Branches (d : Draft) (t : Tree) (target id : Nat) (d' : Draft) : Prop extends d.Keeps d' where
  fresh : d.emitted.size ≤ id
  live : d'.live = id :: d.live
  pending : d'.pending = d.pending
  targets : d'.targets = d.targets.insert target ()
  value : ∃ e, d'.action? id = some (.branch target e) ∧ Denotes d'.emitted d.offset t e

/-! ## What is kept -/

theorem denotes_emit {line : Nat} {e : Expr} (action : Action) (h : Denotes d.emitted line t e) :
    Denotes (d.emit action).emitted line t e :=
  h.mono fun _ _ _ hc => getElem?_emit_of_eq_some action hc

theorem denotes_applyUnary {line : Nat} {e value : Expr} {op : UnaryOp} (ha : d.action? id = some (.assign value))
    (h : Denotes d.emitted line t e) : Denotes (d.applyUnary op id).emitted line t e := by
  refine h.mono fun j addr name hc => ?_
  have hne : j ≠ id := by
    rintro rfl
    rw [action?, hc] at ha
    cases ha
  rw [getElem?_applyUnary_of_ne hne, hc]

namespace Keeps

theorem size_le (h : d.Keeps d') : d.emitted.size ≤ d'.emitted.size := by
  by_contra hlt
  have hk := h.kept d'.emitted.size (by omega)
  simp only [Array.getElem?_eq_getElem (by omega : d'.emitted.size < d.emitted.size), Array.getElem?_size] at hk
  cases hk

theorem trans (h : d.Keeps d₁) (h' : d₁.Keeps d') : d.Keeps d' where
  kept j hj := (h'.kept j (Nat.lt_of_lt_of_le hj h.size_le)).trans (h.kept j hj)
  labels := h'.labels.trans h.labels

theorem emit (action : Action) (h : d.Keeps d') : d.Keeps (d'.emit action) :=
  h.trans ⟨fun _ hj => getElem?_emit_of_lt hj, rfl⟩

theorem denotes {line : Nat} {e : Expr} (h : d.Keeps d') (ht : Denotes d.emitted line t e) :
    Denotes d'.emitted line t e :=
  ht.mono fun _ _ _ hc => (h.kept _ (Array.getElem?_eq_some_iff.mp hc).1).trans hc

theorem valueOf_eq {e : Expr} (h : d.Keeps d') (ha : d.action? id = some (.assign e)) : d'.valueOf id = e := by
  refine Draft.valueOf_eq ?_
  rw [action?, h.kept id (lt_size_of_action? ha)]
  exact ha

end Keeps

namespace Settles

theorem refl (d : Draft) : d.Settles d :=
  ⟨⟨fun _ _ => rfl, rfl⟩, rfl, rfl, rfl⟩

/-- Taking the result of a call right behind it settles the call. -/
theorem takeResult (d : Draft) (name : String) :
    d.Settles ((d.emit (.call name)).advance.absorb d.emitted.size) where
  kept _ hj := getElem?_emit_of_lt hj
  labels := rfl
  live := List.erase_cons_head _ _
  pending := rfl
  targets := rfl

/-- Taking the value of a tree away settles what its lines have added. -/
theorem consume (h : d.Lifts t id d₁) (hs : d₁.Settles d') : d.Settles (d'.consume id) where
  toKeeps := h.toKeeps.trans ⟨hs.kept, hs.labels⟩
  live := by
    show d'.live.erase id = d.live
    rw [hs.live, h.live, List.erase_cons_head]
  pending := pending_consume (hs.pending.trans h.pending)
  targets := hs.targets.trans h.targets

theorem push {value : Expr} (hs : d.Settles d') (h : Denotes d'.emitted d.offset t value) :
    d.Lifts t d'.emitted.size (d'.push value).advance where
  kept := (hs.toKeeps.emit (.assign value)).kept
  labels := hs.labels
  fresh := hs.size_le
  live := congrArg (_ :: ·) hs.live
  pending := congrArg (_ :: ·) hs.pending
  targets := hs.targets
  value := by
    refine ⟨value, ?_, denotes_emit _ h⟩
    show (d'.emit (.assign value)).action? _ = _
    rw [action?_emit, if_pos rfl]

theorem branch {target : Nat} {value : Expr} (hs : d.Settles d') (h : Denotes d'.emitted d.offset t value) :
    d.Branches t target d'.emitted.size (d'.jump target (.branch target value)).advance where
  kept := (hs.toKeeps.emit (.branch target value)).kept
  labels := hs.labels
  fresh := hs.size_le
  live := congrArg (_ :: ·) hs.live
  pending := hs.pending
  targets := congrArg (·.insert target ()) hs.targets
  value := by
    refine ⟨value, ?_, denotes_emit _ h⟩
    show (d'.emit (.branch target value)).action? _ = _
    rw [action?_emit, if_pos rfl]

end Settles

theorem Lifts.applyUnary (op : UnaryOp) (h : d.Lifts t id d') :
    d.Lifts (.unary op t) id (d'.applyUnary op id).advance := by
  obtain ⟨e, he, hd⟩ := h.value
  refine ⟨⟨fun j hj => ?_, h.labels⟩, h.fresh, h.live, h.pending, h.targets, .unary op e, ?_, ?_⟩
  · have hne : j ≠ id := Nat.ne_of_lt (Nat.lt_of_lt_of_le hj h.fresh)
    exact (getElem?_applyUnary_of_ne hne).trans (h.kept j hj)
  · show (d'.applyUnary op id).action? id = _
    rw [action?_applyUnary he, if_pos rfl]
  · exact .unary (denotes_applyUnary he hd)

/-! ## Running the lines -/

theorem latestCall?_call (d : Draft) (name : String) :
    (d.emit (.call name)).advance.latestCall? = some d.emitted.size := by
  have ha : (d.emit (.call name)).action? d.emitted.size = some (.call name) := by
    rw [action?_emit, if_pos rfl]
  refine List.find?_cons_of_pos ?_
  show ((d.emit (.call name)).action? d.emitted.size).any Action.isCall = true
  rw [ha]
  rfl

theorem run_lifts {lines : List String} (h : Postfix t lines) (d : Draft) :
    ∃ d' id, d.run lines = .ok d' ∧ d'.offset = d.offset + t.size ∧ d.Lifts t id d' := by
  induction h generalizing d with
  | literal hv =>
      have hs := stepLine_of_step (Command.ofLine_push hv) (Step.push (d := d))
      exact ⟨_, _, (run_singleton _ _).trans hs, rfl, (Settles.refl d).push .literal⟩
  | argument hv hi =>
      have hs := stepLine_of_step (Command.ofLine_pushArgument hv hi) (Step.pushArgument (d := d))
      exact ⟨_, _, (run_singleton _ _).trans hs, rfl, (Settles.refl d).push .argument⟩
  | localVar hv hi =>
      have hs := stepLine_of_step (Command.ofLine_pushLocal hv hi) (Step.pushLocal (d := d))
      exact ⟨_, _, (run_singleton _ _).trans hs, rfl, (Settles.refl d).push .localVar⟩
  | @call name zero hn hz =>
      have hcall := stepLine_of_step (Command.ofLine_call hn) (Step.call (d := d))
      have htake := stepLine_of_step (Command.ofLine_takeResult hz) (Step.takeResult (latestCall?_call d name))
      exact ⟨_, _, run_concat ((run_singleton _ _).trans hcall) htake, rfl,
        (Settles.takeResult d name).push (.call (getElem?_emit_size d _))⟩
  | @unary op t lines text v h hv hop ih =>
      obtain ⟨d', id, hrun, ho, hl⟩ := ih d
      have hs := stepLine_of_step (Command.ofLine_unary hv hop) (Step.unary hl.pending)
      refine ⟨_, id, run_concat hrun hs, ?_, hl.applyUnary op⟩
      show d'.offset + 1 = d.offset + (t.size + 1)
      omega
  | @binary op l r left right hl hr ihl ihr =>
      obtain ⟨d₁, lid, hrunl, hol, hleft⟩ := ihl d
      obtain ⟨d₂, rid, hrunr, hor, hright⟩ := ihr d₁
      obtain ⟨a, ha, hda⟩ := hleft.value
      obtain ⟨b, hb, hdb⟩ := hright.value
      have hpending : d₂.pending = rid :: lid :: d.pending := by rw [hright.pending, hleft.pending]
      have hs : d₂.stepLine op.mnemonic = _ := stepLine_of_step (Command.ofLine_mnemonic op) (.binary hpending)
      have hrun : d.run (left ++ right) = .ok d₂ := by
        rw [run_append, hrunl]
        exact hrunr
      have hsettles : d.Settles ((d₂.consume rid).consume lid) :=
        .consume hleft (.consume hright (.refl d₂))
      have hvalue : Denotes d₂.emitted d.offset (.binary op l r)
          (.binary op (d₂.valueOf lid) (d₂.valueOf rid)) := by
        rw [hright.valueOf_eq ha, valueOf_eq hb]
        exact .binary (hright.denotes hda) (hol ▸ hdb)
      refine ⟨_, d₂.emitted.size, run_concat hrun hs, ?_, hsettles.push hvalue⟩
      show d₂.offset + 1 = d.offset + (l.size + r.size + 1)
      omega

/-- Whatever lines stand before the lines of a tree, these add its value and nothing else; with a conditional jump
behind them they add the jump instead. -/
theorem run_tree {before lines : List String} (hd : ({} : Draft).run before = .ok d) (h : Postfix t lines) :
    (∃ d' id, ({} : Draft).run (before ++ lines) = .ok d' ∧ d.Lifts t id d') ∧
      ∀ (text : String) (target : Nat), Operand.read? text.toList = some (target : Int) →
        ∃ d' id, ({} : Draft).run (before ++ lines ++ [written "IFNOTGO" text]) = .ok d' ∧
          d.Branches t target id d' := by
  obtain ⟨d₁, id, hrun, _, hl⟩ := run_lifts h d
  have hrun : ({} : Draft).run (before ++ lines) = .ok d₁ := by
    rw [run_append, hd]
    exact hrun
  refine ⟨⟨d₁, id, hrun, hl⟩, fun text target hv => ?_⟩
  obtain ⟨e, he, hvalue⟩ := hl.value
  have hs := stepLine_of_step (Command.ofLine_branch hv) (Step.branch hl.pending)
  refine ⟨_, d₁.emitted.size, run_concat hrun hs, ?_⟩
  rw [← valueOf_eq he] at hvalue
  exact (Settles.consume hl (.refl d₁)).branch hvalue

theorem run_tree_nested :
    ∃ d, ({} : Draft).run ["LABEL 1", "PUSH 7", "CALL f", "PUSH 8"] = .ok d ∧
      ∃ d' id, ({} : Draft).run (["LABEL 1", "PUSH 7", "CALL f", "PUSH 8"] ++
          ["PUSHARG 0x2", "CALL g", "PUSHRC 0", "UNARY 1", "MINUS"] ++ ["IFNOTGO 0"]) = .ok d' ∧
        d.Branches (.binary .subtract (.argument 2) (.unary .negate (.call "g"))) 0 id d' := by
  have harg : Postfix (.argument 2) [written "PUSHARG" "0x2"] := .argument (by decide) (by decide)
  have hcall : Postfix (.call "g") [written "CALL" "g", written "PUSHRC" "0"] :=
    .call (by decide) (by decide)
  have hunary : Postfix (.unary .negate (.call "g")) _ :=
    .unary (t := .call "g") hcall (show Operand.read? "1".toList = some 1 by decide) (by decide)
  have hlines : ["PUSHARG 0x2", "CALL g", "PUSHRC 0", "UNARY 1", "MINUS"] =
      [written "PUSHARG" "0x2"] ++ ([written "CALL" "g", written "PUSHRC" "0"] ++ [written "UNARY" "1"]) ++
        [BinaryOp.subtract.mnemonic] := by decide
  have hbranch : "IFNOTGO 0" = written "IFNOTGO" "0" := by decide
  obtain ⟨d, hd⟩ : ∃ d, ({} : Draft).run ["LABEL 1", "PUSH 7", "CALL f", "PUSH 8"] = .ok d := ⟨_, rfl⟩
  rw [hlines, hbranch]
  exact ⟨d, hd, (run_tree hd (.binary harg hunary)).2 "0" 0 (by decide)⟩

end Draft

end Unstack
