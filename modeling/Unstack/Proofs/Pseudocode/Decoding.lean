import Unstack.Proofs.Text.Hex
import Unstack.Proofs.Text.Split
import Unstack.Pseudocode.Expr

/-!
# Expressions can be read back

The text of an expression without results of calls determines the expression, up to one thing: a negative number has
the text of a negation (`render_eq_iff`). Operands carry their own parentheses, so the text of an operand ends where a
space, a closing bracket or nothing follows (`Plain.decodes`).
-/

namespace Unstack

/-! ## Where a text ends -/

/-- A character that is in no number and in no symbol. -/
def isEnd (c : Char) : Bool :=
  c = ' ' ∨ c = ')' ∨ c = ']'

/-- A text that cannot go on with what stands before it. -/
def Ends (text : List Char) : Prop :=
  ∀ c, text.head? = some c → isEnd c = true

theorem Ends.nil : Ends [] := by
  intro c hc
  cases hc

theorem Ends.cons {c : Char} (hc : isEnd c = true) (text : List Char) : Ends (c :: text) := by
  rintro _ ⟨⟩
  exact hc

/-- Two texts without ends that are followed by ends stop at the same place. -/
theorem append_inj_of_ends {l l' r r' : List Char} (hl : ∀ c ∈ l, isEnd c = false) (hl' : ∀ c ∈ l', isEnd c = false)
    (hr : Ends r) (hr' : Ends r') (h : l ++ r = l' ++ r') : l = l' ∧ r = r' :=
  Text.append_inj_of_stops isEnd hl hl' hr hr' h

theorem isEnd_of_mem_toDigits {n : Nat} {c : Char} (hc : c ∈ Nat.toDigits 16 n) : isEnd c = false := by
  refine decide_eq_false ?_
  rintro (rfl | rfl | rfl)
  · exact Hex.not_mem_toDigits (by decide) n hc
  · exact Hex.not_mem_toDigits (by decide) n hc
  · exact Hex.not_mem_toDigits (by decide) n hc

theorem isEnd_of_mem_toDigits_ten {n : Nat} {c : Char} (hc : c ∈ Nat.toDigits 10 n) : isEnd c = false := by
  have hd := Nat.isDigit_of_mem_toDigits (by decide) (by decide) hc
  refine decide_eq_false ?_
  rintro (rfl | rfl | rfl)
  all_goals exact absurd hd (by decide)

theorem isEnd_of_mem_symbol {op : BinaryOp} : ∀ c ∈ op.symbol.toList, isEnd c = false := by
  cases op <;> simp [BinaryOp.symbol, isEnd]

theorem BinaryOp.symbol_injective {op op' : BinaryOp} (h : op.symbol = op'.symbol) : op = op' := by
  have hall : ∀ a ∈ all, ∀ b ∈ all, a.symbol = b.symbol → a = b := by decide
  exact hall op (mem_all op) op' (mem_all op') h

theorem UnaryOp.symbol_append_inj {op op' : UnaryOp} {l l' : List Char} :
    op.symbol.toList ++ l = op'.symbol.toList ++ l' → op = op' ∧ l = l' := by
  cases op <;> cases op' <;> simp [symbol]

namespace Expr

variable {e e' : Expr} {call call' : Nat → String}

theorem render_congr (h : ∀ id ∈ e.calls, call id = call' id) : e.render call = e.render call' := by
  induction e with
  | literal | argument | localVar => rfl
  | result id => exact h id List.mem_cons_self
  | binary op left right ihl ihr =>
      simp only [calls, List.mem_append] at h
      simp only [render, ihl fun id hid => h id (Or.inl hid), ihr fun id hid => h id (Or.inr hid)]
  | unary op operand ih => simp only [render, ih h]

/-! ## Negative numbers -/

/-- The expression with every negative number written as the negation of a number. -/
def normal : Expr → Expr
  | literal value => if value < 0 then unary .negate (literal (-value)) else literal value
  | argument index => argument index
  | localVar index => localVar index
  | result call => result call
  | binary op left right => binary op left.normal right.normal
  | unary op operand => unary op operand.normal

theorem parenthesize_normal (e : Expr) (text : String) : e.normal.parenthesize text = e.parenthesize text := by
  cases e with
  | literal value =>
      rw [normal]
      split <;> rfl
  | _ => rfl

theorem render_normal (call : Nat → String) (e : Expr) : e.normal.render call = e.render call := by
  induction e with
  | literal value =>
      rw [normal]
      split
      · rename_i hneg
        have hpos : ¬ -value < 0 := by omega
        simp only [render, parenthesize, Hex.signed, hneg, hpos, ↓reduceIte, Int.natAbs_neg]
        rfl
      · rfl
  | argument | localVar | result => rfl
  | binary op left right ihl ihr => simp only [normal, render, parenthesize_normal, ihl, ihr]
  | unary op operand ih => simp only [normal, render, parenthesize_normal, ih]

/-- An expression without results of calls and without negative numbers. -/
inductive Plain : Expr → Prop where
  | literal (n : Nat) : Plain (literal n)
  | argument (index : Nat) : Plain (argument index)
  | localVar (index : Nat) : Plain (localVar index)
  | binary {op left right} (hl : Plain left) (hr : Plain right) : Plain (binary op left right)
  | unary {op operand} (ho : Plain operand) : Plain (unary op operand)

theorem plain_normal (h : e.calls = []) : e.normal.Plain := by
  induction e with
  | literal value =>
      rw [normal]
      split
      · rename_i hneg
        obtain ⟨n, hn⟩ := Int.eq_ofNat_of_zero_le (a := -value) (by omega)
        rw [hn]
        exact .unary (.literal n)
      · rename_i hpos
        obtain ⟨n, rfl⟩ := Int.eq_ofNat_of_zero_le (Int.not_lt.mp hpos)
        exact .literal n
  | argument index => exact .argument index
  | localVar index => exact .localVar index
  | result call => cases h
  | binary op left right ihl ihr =>
      obtain ⟨hl, hr⟩ := List.append_eq_nil_iff.mp h
      exact .binary (ihl hl) (ihr hr)
  | unary op operand ih => exact .unary (ih h)

/-! ## The texts of operands -/

/-- The text of the expression as an operand. -/
def operandText (call : Nat → String) (e : Expr) : List Char :=
  (e.parenthesize (e.render call)).toList

/-- The text of a binary operation, without parentheses. -/
def binaryText (call : Nat → String) (op : BinaryOp) (left right : Expr) : List Char :=
  left.operandText call ++ ' ' :: (op.symbol.toList ++ ' ' :: right.operandText call)

@[simp] theorem operandText_literal (n : Nat) :
    operandText call (literal n) = '0' :: 'x' :: Nat.toDigits 16 n := by
  have hpos : ¬ (n : Int) < 0 := by omega
  simp [operandText, parenthesize, render, Hex.signed, hpos, Hex.unsigned, Hex.digits]

@[simp] theorem operandText_argument (index : Nat) :
    operandText call (argument index) = 'A' :: 'R' :: 'G' :: '[' :: '0' :: 'x' :: (Nat.toDigits 16 index ++ [']']) := by
  show ("ARG[" ++ ("0x" ++ String.ofList (Nat.toDigits 16 index)) ++ "]").toList = _
  simp

@[simp] theorem operandText_localVar (index : Nat) :
    operandText call (localVar index) = 'v' :: 'a' :: 'r' :: Nat.toDigits 10 index := by
  show ("var" ++ String.ofList (Nat.toDigits 10 index)).toList = _
  simp

theorem toList_render_binary (op : BinaryOp) (left right : Expr) :
    ((binary op left right).render call).toList = binaryText call op left right := by
  simp [render, binaryText, operandText]

@[simp] theorem operandText_binary (op : BinaryOp) (left right : Expr) :
    operandText call (binary op left right) = '(' :: (binaryText call op left right ++ [')']) := by
  rw [operandText, parenthesize, String.toList_append, String.toList_append, toList_render_binary]
  rfl

@[simp] theorem operandText_unary (op : UnaryOp) (operand : Expr) :
    operandText call (unary op operand) = op.symbol.toList ++ operandText call operand := by
  simp [operandText, parenthesize, render]

/-! ## Reading operands back -/

/-- Where the text of the operand stands before an end, no other plain operand does. -/
def Decodes (call : Nat → String) (e : Expr) : Prop :=
  ∀ e', e'.Plain → ∀ r r', Ends r → Ends r' → e.operandText call ++ r = e'.operandText call ++ r' → e = e' ∧ r = r'

theorem binaryText_append_inj {op op' : BinaryOp} {left right left' right' : Expr} (hl : left.Decodes call)
    (hr : right.Decodes call) (hl' : left'.Plain) (hr' : right'.Plain) {r r' : List Char} (hends : Ends r)
    (hends' : Ends r') (h : binaryText call op left right ++ r = binaryText call op' left' right' ++ r') :
    binary op left right = binary op' left' right' ∧ r = r' := by
  have hspace : ∀ text, Ends (' ' :: text) := Ends.cons rfl
  simp only [binaryText, List.append_assoc, List.cons_append] at h
  obtain ⟨rfl, hsymbol⟩ := hl left' hl' _ _ (hspace _) (hspace _) h
  obtain ⟨hop, hright⟩ := append_inj_of_ends isEnd_of_mem_symbol isEnd_of_mem_symbol (hspace _) (hspace _)
    (List.cons.inj hsymbol).2
  obtain ⟨rfl, rfl⟩ := hr right' hr' _ _ hends hends' (List.cons.inj hright).2
  exact ⟨by rw [BinaryOp.symbol_injective (String.toList_inj.mp hop)], rfl⟩

/-- The first character of an operand tells its kind, and its end is where its parts end. -/
theorem Plain.decodes (h : e.Plain) : e.Decodes call := by
  induction h with
  | literal n =>
      intro e' h' r r' hr hr' heq
      cases h' with
      | literal m =>
          simp only [operandText_literal, List.cons_append, List.cons.injEq, true_and] at heq
          obtain ⟨hdigits, rfl⟩ := append_inj_of_ends (fun _ => isEnd_of_mem_toDigits) (fun _ => isEnd_of_mem_toDigits)
            hr hr' heq
          exact ⟨by rw [Hex.toDigits_injective hdigits], rfl⟩
      | @unary op _ _ => cases op <;> simp [UnaryOp.symbol] at heq
      | _ => simp at heq
  | argument index =>
      intro e' h' r r' hr hr' heq
      cases h' with
      | argument index' =>
          simp only [operandText_argument, List.cons_append, List.append_assoc, List.nil_append, List.cons.injEq,
            true_and] at heq
          obtain ⟨hdigits, hrest⟩ := append_inj_of_ends (fun _ => isEnd_of_mem_toDigits)
            (fun _ => isEnd_of_mem_toDigits) (.cons rfl _) (.cons rfl _) heq
          exact ⟨by rw [Hex.toDigits_injective hdigits], (List.cons.inj hrest).2⟩
      | @unary op _ _ => cases op <;> simp [UnaryOp.symbol] at heq
      | _ => simp at heq
  | localVar index =>
      intro e' h' r r' hr hr' heq
      cases h' with
      | localVar index' =>
          simp only [operandText_localVar, List.cons_append, List.cons.injEq, true_and] at heq
          obtain ⟨hdigits, rfl⟩ := append_inj_of_ends (fun _ => isEnd_of_mem_toDigits_ten)
            (fun _ => isEnd_of_mem_toDigits_ten) hr hr' heq
          exact ⟨by rw [Decimal.toDigits_injective hdigits], rfl⟩
      | @unary op _ _ => cases op <;> simp [UnaryOp.symbol] at heq
      | _ => simp at heq
  | @binary op left right _ _ ihl ihr =>
      intro e' h' r r' hr hr' heq
      cases h' with
      | binary hl' hr'' =>
          simp only [operandText_binary, List.cons_append, List.append_assoc, List.nil_append, List.cons.injEq,
            true_and] at heq
          obtain ⟨he, hrest⟩ := binaryText_append_inj ihl ihr hl' hr'' (.cons rfl _) (.cons rfl _) heq
          exact ⟨he, (List.cons.inj hrest).2⟩
      | @unary op' _ _ => cases op' <;> simp [UnaryOp.symbol] at heq
      | _ => simp at heq
  | @unary op operand _ ih =>
      intro e' h' r r' hr hr' heq
      cases h' with
      | @unary op' operand' ho' =>
          simp only [operandText_unary, List.append_assoc] at heq
          obtain ⟨rfl, hoperand⟩ := UnaryOp.symbol_append_inj heq
          obtain ⟨rfl, rfl⟩ := ih operand' ho' r r' hr hr' hoperand
          exact ⟨rfl, rfl⟩
      | _ => cases op <;> simp [UnaryOp.symbol] at heq

/-! ## Reading expressions back -/

theorem toList_render (call : Nat → String) (e : Expr) :
    (∃ op left right, e = binary op left right) ∨ (e.render call).toList = operandText call e := by
  cases e with
  | binary op left right => exact Or.inl ⟨op, left, right, rfl⟩
  | _ => exact Or.inr rfl

/-- A binary operation has a space behind its left operand, where any other operand ends. -/
theorem Plain.binaryText_ne_operandText {op : BinaryOp} {left right : Expr} (hl : left.Plain) (h : e.Plain) :
    binaryText call op left right ≠ operandText call e := by
  intro heq
  rw [← List.append_nil (operandText call e)] at heq
  exact absurd (hl.decodes e h _ _ (.cons rfl _) .nil heq).2 (List.cons_ne_nil _ _)

theorem Plain.render_inj (h : e.Plain) (h' : e'.Plain) (heq : e.render call = e'.render call) : e = e' := by
  have htext := congrArg String.toList heq
  rcases toList_render call e with ⟨op, left, right, rfl⟩ | he
  · obtain _ | _ | _ | ⟨hl, hr⟩ | _ := h
    rw [toList_render_binary] at htext
    rcases toList_render call e' with ⟨op', left', right', rfl⟩ | he'
    · obtain _ | _ | _ | ⟨hl', hr'⟩ | _ := h'
      rw [toList_render_binary] at htext
      exact (binaryText_append_inj hl.decodes hr.decodes hl' hr' .nil .nil (congrArg (· ++ []) htext)).1
    · rw [he'] at htext
      exact absurd htext (hl.binaryText_ne_operandText h')
  · rw [he] at htext
    rcases toList_render call e' with ⟨op', left', right', rfl⟩ | he'
    · obtain _ | _ | _ | ⟨hl', _⟩ | _ := h'
      rw [toList_render_binary] at htext
      exact absurd htext.symm (hl'.binaryText_ne_operandText h)
    · rw [he'] at htext
      exact (h.decodes e' h' [] [] .nil .nil (congrArg (· ++ []) htext)).1

/-- Two expressions without results of calls have the same text exactly if they are the same once negative numbers are
written as negations. -/
theorem render_eq_iff (h : e.calls = []) (h' : e'.calls = []) :
    e.render call = e'.render call' ↔ e.normal = e'.normal := by
  have hcall : e'.render call' = e'.render call := render_congr (by simp [h'])
  rw [hcall, ← render_normal call e, ← render_normal call e']
  constructor
  · exact (plain_normal h).render_inj (plain_normal h')
  · intro he
    rw [he]

theorem render_eq_iff_minimum :
    (binary .subtract (literal (-0x8000000000000000)) (unary .not (localVar 7))).calls = [] ∧
      (binary .subtract (unary .negate (literal 0x8000000000000000)) (unary .not (localVar 7))).calls = [] ∧
      (binary .subtract (literal (-0x8000000000000000)) (unary .not (localVar 7))).render (fun _ => "") =
        (binary .subtract (unary .negate (literal 0x8000000000000000)) (unary .not (localVar 7))).render (fun _ => "") ∧
      (binary .subtract (binary .subtract (argument 1) (argument 2)) (literal (-3))).render (fun _ => "") ≠
        (binary .subtract (argument 1) (binary .subtract (argument 2) (literal (-3)))).render (fun _ => "") :=
  ⟨rfl, rfl, (render_eq_iff rfl rfl).mpr (by decide), fun h => absurd ((render_eq_iff rfl rfl).mp h) (by decide)⟩

end Expr

end Unstack
