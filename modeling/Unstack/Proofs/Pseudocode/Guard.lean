import Unstack.Proofs.Draft.Meaning
import Unstack.Proofs.Pseudocode.Decoding
import Unstack.Pseudocode.Layout

/-!
# What the guard of a jump says

A conditional jump is taken if its condition does not hold, and its guard says so once: by the contrary comparison,
where a comparison is at the root of the condition, or else by a mark in front of the condition (`guard_negates`). The
mark keeps a space behind it, which no operator does, so that a guard is never taken for another one.
-/

namespace Unstack

/-! ## Comparisons -/

namespace BinaryOp

/-- Whether the comparison holds of two numbers. The other operators compare nothing. -/
def compare? (a b : Int) : BinaryOp → Option Bool
  | equal => some (a = b)
  | notEqual => some (a ≠ b)
  | less => some (a < b)
  | greaterEq => some (a ≥ b)
  | lessEq => some (a ≤ b)
  | greater => some (a > b)
  | _ => none

theorem complement?_symm {op op' : BinaryOp} (h : op.complement? = some op') : op'.complement? = some op := by
  cases op <;> cases h <;> rfl

theorem compare?_complement {op op' : BinaryOp} (h : op.complement? = some op') (a b : Int) :
    ∃ holds, op.compare? a b = some holds ∧ op'.compare? a b = some (!holds) := by
  cases op <;> cases h <;> exact ⟨_, rfl, congrArg some (by grind)⟩

theorem complement?_ne_self (op : BinaryOp) : op.complement? ≠ some op := by
  cases op <;> decide

end BinaryOp

/-- The comparisons compare numbers, with one for true and zero for false. All else may mean anything. -/
def Meaning.Compares (M : Meaning Int) : Prop :=
  ∀ op a b holds, BinaryOp.compare? a b op = some holds → M.binary op a b = if holds then 1 else 0

/-- The meaning in which every operator that compares nothing adds, and every leaf but a number is zero. -/
def Meaning.comparing : Meaning Int where
  literal value := value
  argument _ := 0
  localVar _ := 0
  result _ := 0
  unary _ v := v
  binary op a b := (op.compare? a b).elim (a + b) fun holds => if holds then 1 else 0

theorem Meaning.compares_comparing : comparing.Compares := by
  intro op a b holds h
  simp only [comparing, h, Option.elim_some]

namespace Expr

variable {e i : Expr} {call : Nat → String}

theorem inverse?_eq_some : e.inverse? = some i ↔
    ∃ op op' left right, e = binary op left right ∧ i = binary op' left right ∧ op.complement? = some op' := by
  cases e with
  | binary op left right =>
      simp only [inverse?, Option.map_eq_some_iff, binary.injEq]
      constructor
      · rintro ⟨op', hop, rfl⟩
        exact ⟨op, op', left, right, ⟨rfl, rfl, rfl⟩, rfl, hop⟩
      · rintro ⟨_, op', _, _, ⟨rfl, rfl, rfl⟩, rfl, hop⟩
        exact ⟨op', hop, rfl⟩
  | _ => simp [inverse?]

theorem inverse?_symm (h : e.inverse? = some i) : i.inverse? = some e := by
  obtain ⟨op, op', left, right, rfl, rfl, hop⟩ := inverse?_eq_some.mp h
  exact inverse?_eq_some.mpr ⟨op', op, left, right, rfl, rfl, BinaryOp.complement?_symm hop⟩

theorem inverse?_normal (h : e.inverse? = some i) : e.normal.inverse? = some i.normal := by
  obtain ⟨op, op', left, right, rfl, rfl, hop⟩ := inverse?_eq_some.mp h
  exact inverse?_eq_some.mpr ⟨op, op', left.normal, right.normal, rfl, rfl, hop⟩

theorem inverse?_ne_self (e : Expr) : e.inverse? ≠ some e := by
  intro h
  obtain ⟨op, op', left, right, rfl, he, hop⟩ := inverse?_eq_some.mp h
  cases he
  exact BinaryOp.complement?_ne_self op hop

theorem calls_inverse (h : e.inverse? = some i) : i.calls = e.calls := by
  obtain ⟨op, op', left, right, rfl, rfl, _⟩ := inverse?_eq_some.mp h
  rfl

theorem ne_unary (op : UnaryOp) (e : Expr) : e ≠ unary op e := by
  intro h
  have hsize := congrArg sizeOf h
  simp at hsize

/-- The contrary comparison holds exactly if the comparison does not. -/
theorem eval_inverse {M : Meaning Int} (hM : M.Compares) (h : e.inverse? = some i) (result : Nat → Int) :
    i.eval M result ≠ 0 ↔ e.eval M result = 0 := by
  obtain ⟨op, op', left, right, rfl, rfl, hop⟩ := inverse?_eq_some.mp h
  obtain ⟨holds, hold, hnew⟩ := BinaryOp.compare?_complement hop (left.eval M result) (right.eval M result)
  rw [eval, eval, hM _ _ _ _ hold, hM _ _ _ _ hnew]
  cases holds <;> decide

/-! ## Texts that start with a mark -/

theorem Plain.operandText_append_ne_space (h : e.Plain) (r l : List Char) : operandText call e ++ r ≠ ' ' :: l := by
  cases h with
  | @unary op _ _ => cases op <;> simp [UnaryOp.symbol]
  | _ => simp

/-- An operator stands right in front of its operand. -/
theorem Plain.operandText_append_ne_mark (h : e.Plain) (r l : List Char) :
    operandText call e ++ r ≠ '!' :: ' ' :: l := by
  cases h with
  | @unary op operand ho =>
      have hspace : operandText call operand ++ r ≠ ' ' :: l := ho.operandText_append_ne_space r l
      cases op <;> simp [UnaryOp.symbol, hspace]
  | _ => simp

theorem Plain.render_ne_mark (h : e.Plain) (text : String) : e.render call ≠ "! " ++ text := by
  intro heq
  have htext := congrArg String.toList heq
  rw [String.toList_append] at htext
  rcases toList_render call e with ⟨op, left, right, rfl⟩ | he
  · obtain _ | _ | _ | ⟨hl, _⟩ | _ := h
    rw [toList_render_binary] at htext
    exact hl.operandText_append_ne_mark _ _ htext
  · rw [he, ← List.append_nil (operandText call e)] at htext
    exact h.operandText_append_ne_mark _ _ htext

end Expr

/-! ## Tests -/

/-- What a guard asks for: that an expression holds, or that it does not. -/
inductive Test where
  | holds (e : Expr)
  | fails (e : Expr)
deriving DecidableEq

namespace Test

variable {t t' : Test} {call call' : Nat → String}

def expr : Test → Expr
  | holds e | fails e => e

def normal : Test → Test
  | holds e => holds e.normal
  | fails e => fails e.normal

/-- The guard that asks for the test. -/
def text (call : Nat → String) : Test → String
  | holds e => "if(" ++ e.render call ++ ")"
  | fails e => "if(! " ++ e.render call ++ ")"

/-- Numbers other than zero hold. -/
def Passes (M : Meaning Int) (result : Nat → Int) : Test → Prop
  | holds e => e.eval M result ≠ 0
  | fails e => e.eval M result = 0

/-- The test that passes if the condition does not hold. -/
def against (condition : Expr) : Test :=
  match condition.inverse? with
  | some inverse => holds inverse
  | none => fails condition

theorem text_holds_ne_text_fails {e e' : Expr} (h : e.calls = []) :
    (holds e).text call ≠ (fails e').text call' := by
  intro heq
  have hmark : "if(! " = "if(" ++ "! " := rfl
  rw [text, text, hmark, String.append_left_inj, String.append_assoc, String.append_right_inj,
    ← Expr.render_normal] at heq
  exact (Expr.plain_normal h).render_ne_mark _ heq

/-- A guard tells its test. -/
theorem text_inj (h : t.expr.calls = []) (h' : t'.expr.calls = []) (heq : t.text call = t'.text call') :
    t.normal = t'.normal := by
  cases t with
  | holds e =>
      cases t' with
      | holds e' =>
          rw [text, text, String.append_left_inj, String.append_right_inj] at heq
          exact congrArg holds ((Expr.render_eq_iff h h').mp heq)
      | fails e' => exact absurd heq (text_holds_ne_text_fails h)
  | fails e =>
      cases t' with
      | holds e' => exact absurd heq.symm (text_holds_ne_text_fails h')
      | fails e' =>
          rw [text, text, String.append_left_inj, String.append_right_inj] at heq
          exact congrArg fails ((Expr.render_eq_iff h h').mp heq)

theorem text_against (condition : Expr) : (against condition).text call = condition.guard call := by
  simp only [against, Expr.guard]
  cases condition.inverse? <;> rfl

theorem calls_against (condition : Expr) : (against condition).expr.calls = condition.calls := by
  simp only [against]
  cases hi : condition.inverse? with
  | none => rfl
  | some inverse => exact Expr.calls_inverse hi

theorem passes_against {M : Meaning Int} (hM : M.Compares) (condition : Expr) (result : Nat → Int) :
    (against condition).Passes M result ↔ condition.eval M result = 0 := by
  simp only [against]
  cases hi : condition.inverse? with
  | none => rfl
  | some inverse => exact Expr.eval_inverse hM hi result

/-- The test tells the condition that it is against. -/
theorem normal_eq_of_against {c c' : Expr} (h : (against c).normal = (against c').normal) : c.normal = c'.normal := by
  simp only [against] at h
  cases hi : c.inverse? with
  | none =>
      cases hi' : c'.inverse? with
      | none =>
          rw [hi, hi'] at h
          exact fails.inj h
      | some i' =>
          rw [hi, hi'] at h
          cases h
  | some i =>
      cases hi' : c'.inverse? with
      | none =>
          rw [hi, hi'] at h
          cases h
      | some i' =>
          rw [hi, hi'] at h
          -- turning the comparison around once more gives the condition back
          have hback := Expr.inverse?_normal (Expr.inverse?_symm hi)
          rw [holds.inj h, Expr.inverse?_normal (Expr.inverse?_symm hi')] at hback
          exact (Option.some.inj hback).symm

end Test

/-! ## Guards -/

namespace Expr

theorem guard_inj {call call' : Nat → String} {c c' : Expr} (h : c.calls = []) (h' : c'.calls = [])
    (heq : c.guard call = c'.guard call') : c.normal = c'.normal := by
  rw [← Test.text_against, ← Test.text_against] at heq
  exact Test.normal_eq_of_against
    (Test.text_inj ((Test.calls_against c).trans h) ((Test.calls_against c').trans h') heq)

/-- The test is what the guard of the condition asks for, and passes exactly if the condition does not hold. -/
structure Guards (t : Test) (condition : Expr) : Prop where
  shown : ∀ (s : Script) reg name? slot target, s.actionText reg name? slot (.branch target condition) =
    some (t.text (s.resultText reg) ++ " then " ++ s.gotoText target)
  passes : ∀ M : Meaning Int, M.Compares → ∀ result, t.Passes M result ↔ condition.eval M result = 0
  /-- A comparison at the root is turned around, and nothing under it. -/
  turned : ∀ op op' left right, condition = binary op left right → op.complement? = some op' →
    t = .holds (binary op' left right)
  /-- Any other condition stays as it is. -/
  kept : condition.operator?.bind BinaryOp.complement? = none → t = .fails condition
  /-- The text of the guard asks for no other test. -/
  read : ∀ (call call' : Nat → String) (t' : Test), condition.calls = [] → t'.expr.calls = [] →
    t'.text call' = condition.guard call → t'.normal = t.normal

theorem guards_against (condition : Expr) : Guards (.against condition) condition where
  shown s reg name? slot target := by
    rw [Test.text_against]
    rfl
  passes M hM result := Test.passes_against hM condition result
  turned op op' left right hc hop := by
    have hi := inverse?_eq_some.mpr ⟨op, op', left, right, hc, rfl, hop⟩
    simp only [Test.against, hi]
  kept hnone := by
    have hi : condition.inverse? = none := by
      cases condition with
      | binary op left right =>
          have hop : op.complement? = none := hnone
          rw [inverse?, hop]
          rfl
      | _ => rfl
    simp only [Test.against, hi]
  read call call' t' hc ht' heq := by
    rw [← Test.text_against] at heq
    exact Test.text_inj ht' ((Test.calls_against condition).trans hc) heq

/-- The guard of a jump passes exactly if the condition does not hold. Guards of conditions without results of calls are
alike only if the conditions are, so no condition has the guard of its negation. -/
theorem guard_negates (c : Expr) :
    (∃ t, Guards t c) ∧
      (∀ (call call' : Nat → String) (c' : Expr), c.calls = [] → c'.calls = [] → c.guard call = c'.guard call' →
        c.normal = c'.normal) ∧
      ∀ call call' : Nat → String, c.calls = [] → c.guard call ≠ (unary .not c).guard call' ∧
        ∀ c', c.inverse? = some c' → c.guard call ≠ c'.guard call' := by
  refine ⟨⟨_, guards_against c⟩, fun call call' c' => guard_inj, fun call call' hc => ⟨?_, ?_⟩⟩
  · intro heq
    have hc' : (unary .not c).calls = [] := hc
    exact ne_unary .not c.normal (guard_inj hc hc' heq)
  · intro c' hi heq
    have hnormal := guard_inj hc ((calls_inverse hi).trans hc) heq
    have hinverse := inverse?_normal hi
    rw [← hnormal] at hinverse
    exact inverse?_ne_self c.normal hinverse

theorem guard_negates_nested :
    Meaning.comparing.Compares ∧
      ∃ t, Guards t (binary .less (binary .less (argument 0) (literal 1)) (literal (-5))) ∧
        t = .holds (binary .greaterEq (binary .less (argument 0) (literal 1)) (literal (-5))) ∧
        t.text (fun _ => "") = "if((ARG[0x0] < 0x1) >= -0x5)" ∧
        t.Passes .comparing (fun _ => 0) ∧
        t.text (fun _ => "") ≠
          (unary .not (binary .less (binary .less (argument 0) (literal 1)) (literal (-5)))).guard fun _ => "" := by
  obtain ⟨⟨t, ht⟩, -, hne⟩ := guard_negates (binary .less (binary .less (argument 0) (literal 1)) (literal (-5)))
  have hholds := ht.turned .less .greaterEq _ _ rfl rfl
  refine ⟨Meaning.compares_comparing, t, ht, hholds, ?_, ?_, ?_⟩
  · rw [hholds]
    decide +kernel
  · refine (ht.passes _ Meaning.compares_comparing _).mpr ?_
    decide
  · rw [hholds]
    exact (hne _ _ rfl).1

end Expr

end Unstack
