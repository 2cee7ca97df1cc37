import Unstack.Proofs.Command.Reading

/-!
# What the operands of a line have to meet

`checks` lists the checks of a line in the order in which they are made. A line can be read unless it fails one
of them, and the fault is that of the first one that it fails (`raised_ofLine`).
-/

namespace Unstack

/-! ## Checks -/

/-- A condition, with the fault of what does not meet it. -/
structure Check where
  holds : Bool
  fault : Fault

/-- The fault of the first check that fails. -/
def firstFault : List Check → Option Fault
  | [] => none
  | check :: checks => if check.holds then firstFault checks else some check.fault

/-- The fault of what could not be done. -/
def raised {α : Type} : Except Fault α → Option Fault
  | .ok _ => none
  | .error fault => some fault

theorem firstFault_append (l₁ l₂ : List Check) :
    firstFault (l₁ ++ l₂) = (firstFault l₁).or (firstFault l₂) := by
  induction l₁ with
  | nil => rfl
  | cons check l₁ ih =>
      simp only [List.cons_append, firstFault, ih]
      split <;> rfl

theorem raised_map {α β : Type} (x : Except Fault α) (f : α → β) : raised (x.map f) = raised x := by
  cases x <;> rfl

theorem mem_of_firstFault {l : List Check} {fault : Fault} (h : firstFault l = some fault) :
    fault ∈ l.map Check.fault := by
  induction l with
  | nil => cases h
  | cons check l ih =>
      simp only [firstFault] at h
      split at h
      · exact List.mem_cons_of_mem _ (ih h)
      · cases h
        exact List.mem_cons_self

/-- What is done in two steps meets the checks of the first and then those of the second. -/
theorem raised_bind {α β : Type} {x : Except Fault α} {f : α → Except Fault β} {l₁ l₂ : List Check}
    (hx : raised x = firstFault l₁) (hf : ∀ a, x = .ok a → raised (f a) = firstFault l₂) :
    raised (x.bind f) = firstFault (l₁ ++ l₂) := by
  rw [firstFault_append, ← hx]
  cases x with
  | error _ => rfl
  | ok a => exact hf a rfl

theorem raised_eq_none {α : Type} {x : Except Fault α} : raised x = none ↔ ∃ a, x = .ok a := by
  cases x <;> simp [raised]

theorem raised_eq_some {α : Type} {x : Except Fault α} {fault : Fault} :
    raised x = some fault ↔ x = .error fault := by
  cases x <;> simp [raised]

namespace Command

/-! ## The checks of operands -/

def present (mnemonic : String) (params : List String) : Check :=
  ⟨!params.isEmpty, .missingOperand mnemonic⟩

/-- The operand is a number, and one in the range. -/
def within (range : Int → Bool) (mnemonic : String) (params : List String) : Check :=
  ⟨(number? params).any range, .invalidOperand mnemonic (params.headD "")⟩

/-- The operand is a number, if there is one. -/
def optional (mnemonic : String) (params : List String) : Check :=
  ⟨params.isEmpty || (number? params).isSome, .invalidOperand mnemonic (params.headD "")⟩

/-- What the operands of a line with these words have to meet. -/
def checks : List String → List Check
  | [] => []
  | mnemonic :: params =>
    let v := (number? params).getD 0
    let number := [present mnemonic params, within (fun _ => true) mnemonic params]
    match mnemonic with
    | "LABEL" | "PUSHARG" | "PUSHVAR" => number ++ [within (fun v => 0 ≤ v ∧ v < 0x100000000) mnemonic params]
    | "PUSH" => number
    | "UNARY" => number ++ [⟨0 ≤ v ∧ v ≤ 2, .invalidUnary v⟩]
    | "CALL" => [present mnemonic params]
    | "JUMP" | "IFNOTGO" => number ++ [within (fun v => 0 ≤ v) mnemonic params]
    | "PUSHRC" | "POPRC" => number ++ [⟨v = 0 ∨ v = 1, .unexpectedOperand mnemonic v⟩]
    | "STACKRWD" | "STACKFWD" => [optional mnemonic params]
    | _ => []

theorem raised_operand {α : Type} {select : Int → Option α} (range : Int → Bool)
    (hs : ∀ v, (select v).isSome = range v) (m : String) (ps : List String) :
    raised (operand m select ps) =
      firstFault [present m ps, within (fun _ => true) m ps, within range m ps] := by
  cases ps with
  | nil => rfl
  | cons text ps =>
      rcases Option.eq_none_or_eq_some (Operand.read? text.toList) with hv | ⟨v, hv⟩
      · simp [operand, firstFault, present, within, number?, raised, hv]
      · simp only [operand, firstFault, present, within, number?, hv, Option.bind_some, Option.any_some, ← hs]
        cases select v <;> rfl

theorem raised_operand_some (m : String) (ps : List String) :
    raised (operand m some ps) = firstFault [present m ps, within (fun _ => true) m ps] := by
  rw [raised_operand (fun _ => true) fun _ => rfl]
  simp only [firstFault]
  cases (within (fun _ => true) m ps).holds <;> rfl

theorem raised_operand? (m : String) (ps : List String) :
    raised (operand? m ps) = firstFault [optional m ps] := by
  cases ps with
  | nil => rfl
  | cons text ps =>
      rcases Option.eq_none_or_eq_some (Operand.read? text.toList) with hv | ⟨v, hv⟩
      · simp [operand?, firstFault, optional, number?, raised, hv]
      · simp [operand?, firstFault, optional, number?, raised, hv]

theorem getD_number?_of_operand {m : String} {ps : List String} {v : Int} (h : operand m some ps = .ok v) :
    (number? ps).getD 0 = v := by
  obtain ⟨_, hv, he⟩ := operand_eq_ok h
  cases he
  rw [hv, Option.getD_some]

theorem isSome_ofOperand? (v : Int) : (UnaryOp.ofOperand? v).isSome = decide (0 ≤ v ∧ v ≤ 2) := by
  by_cases hv : 0 ≤ v ∧ v ≤ 2
  · obtain rfl | rfl | rfl : v = 0 ∨ v = 1 ∨ v = 2 := by omega
    all_goals rfl
  · have hne : v ≠ 0 ∧ v ≠ 1 ∧ v ≠ 2 := by omega
    simp [UnaryOp.ofOperand?, hne, hv]

theorem raised_unaryOperator (ps : List String) :
    raised (unaryOperator ps) = firstFault (checks ("UNARY" :: ps)) := by
  have hbind : unaryOperator ps = (operand "UNARY" some ps).bind fun v =>
      (UnaryOp.ofOperand? v).elim (.error (.invalidUnary v)) .ok := by
    simp only [unaryOperator]
    cases operand "UNARY" some ps with
    | error _ => rfl
    | ok v => cases hop : UnaryOp.ofOperand? v <;> simp [Except.bind, hop]
  rw [hbind]
  refine raised_bind (raised_operand_some "UNARY" ps) fun v hv => ?_
  simp only [firstFault, getD_number?_of_operand hv, ← isSome_ofOperand?]
  cases UnaryOp.ofOperand? v <;> rfl

theorem raised_choose (m : String) (zero one : Command) (ps : List String) :
    raised (choose m zero one ps) = firstFault ([present m ps, within (fun _ => true) m ps] ++
      [⟨(number? ps).getD 0 = 0 ∨ (number? ps).getD 0 = 1, .unexpectedOperand m ((number? ps).getD 0)⟩]) := by
  have hbind : choose m zero one ps = (operand m some ps).bind fun v =>
      if v = 0 then .ok zero else if v = 1 then .ok one else .error (.unexpectedOperand m v) := by
    simp only [choose]
    cases operand m some ps <;> rfl
  rw [hbind]
  refine raised_bind (raised_operand_some m ps) fun v hv => ?_
  simp only [firstFault, getD_number?_of_operand hv]
  by_cases h0 : v = 0
  · simp [h0, raised]
  · by_cases h1 : v = 1
    · simp [h1, raised]
    · simp [h0, h1, raised]

/-! ## Lines -/

theorem checks_of_not_mem_keywords {m : String} {ps : List String} (h : m ∉ keywords) :
    checks (m :: ps) = [] := by
  simp only [checks]
  split <;> first | rfl | exact absurd (by decide) h

theorem isSome_index? (v : Int) : (Operand.index? v).isSome = decide (0 ≤ v ∧ v < 0x100000000) := by
  simp only [Operand.index?]
  split
  · rename_i h
    exact (decide_eq_true h).symm
  · rename_i h
    exact (decide_eq_false h).symm

theorem isSome_address? (v : Int) : (Operand.address? v).isSome = decide (0 ≤ v) := by
  simp only [Operand.address?]
  split
  · rename_i h
    exact (decide_eq_true h).symm
  · rename_i h
    exact (decide_eq_false h).symm

theorem raised_ofMnemonic (m : String) (ps : List String) :
    raised (ofMnemonic m ps) = firstFault (checks (m :: ps)) := by
  unfold ofMnemonic
  split
  · exact (raised_map _ _).trans (raised_operand _ isSome_index? _ _)
  · exact (raised_map _ _).trans (raised_operand_some _ _)
  · exact (raised_map _ _).trans (raised_operand _ isSome_index? _ _)
  · exact (raised_map _ _).trans (raised_operand _ isSome_index? _ _)
  · exact (raised_map _ _).trans (raised_unaryOperator ps)
  · cases ps <;> rfl
  · exact (raised_map _ _).trans (raised_operand _ isSome_address? _ _)
  · exact (raised_map _ _).trans (raised_operand _ isSome_address? _ _)
  · exact raised_choose _ _ _ _
  · exact raised_choose _ _ _ _
  · exact (raised_map _ _).trans (raised_operand? _ _)
  · exact (raised_map _ _).trans (raised_operand? _ _)
  · rw [checks_of_not_mem_keywords]
    · rfl
    · simp only [keywords, List.mem_cons, List.not_mem_nil, or_false, not_or]
      and_intros <;> assumption

/-- A line that cannot be read is refused with the fault of the first check that its operands fail. -/
theorem raised_ofLine (line : String) :
    raised (ofLine line) = firstFault (checks (codeWords line)) := by
  rw [ofLine_eq]
  cases codeWords line with
  | nil => rfl
  | cons m ps => exact raised_ofMnemonic m ps

end Command

end Unstack
