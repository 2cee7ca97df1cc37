import Unstack.Command

/-!
# What the words of a line ask for

`Reads` lists the forms of a line, each with the command that it asks for. Reading a line finds the command of
its form, so what is shown form by form holds of every line that can be read.
-/

namespace Unstack

/-! ## Results -/

theorem map_eq_ok {α β ε : Type} {x : Except ε α} {f : α → β} {b : β}
    (h : x.map f = .ok b) : ∃ a, x = .ok a ∧ f a = b := by
  cases x with
  | error _ => cases h
  | ok a => exact ⟨a, rfl, Except.ok.inj h⟩

theorem bind_eq_ok {α β ε : Type} {x : Except ε α} {f : α → Except ε β} {b : β}
    (h : x.bind f = .ok b) : ∃ a, x = .ok a ∧ f a = .ok b := by
  cases x with
  | error _ => cases h
  | ok a => exact ⟨a, rfl, h⟩

theorem exists_ok {α β ε : Type} {x : Except ε α} {f : α → β} {b : β}
    (h : x.toOption.map f = some b) : ∃ a, x = .ok a ∧ f a = b := by
  cases x with
  | error _ => cases h
  | ok a => exact ⟨a, rfl, Option.some.inj h⟩

namespace Command

/-! ## The forms of a line -/

/-- The words of a line that reading looks at: none in a comment. -/
def codeWords (line : String) : List String :=
  match wordsOf line with
  | [] => []
  | mnemonic :: params => if mnemonic.toList.head? = some '#' then [] else mnemonic :: params

/-- The mnemonics that belong to no binary operator. -/
def keywords : List String :=
  ["LABEL", "PUSH", "PUSHARG", "PUSHVAR", "UNARY", "CALL", "JUMP", "IFNOTGO", "PUSHRC", "POPRC",
    "STACKRWD", "STACKFWD"]

/-- The number that the first of these words stands for. -/
def number? : List String → Option Int
  | [] => none
  | text :: _ => Operand.read? text.toList

/-- The words have the form that asks for the command. -/
inductive Reads : List String → Command → Prop where
  | blank : Reads [] .skip
  | label {ps v id} (hv : number? ps = some v) (hid : Operand.index? v = some id) :
      Reads ("LABEL" :: ps) (.label id)
  | push {ps v} (hv : number? ps = some v) : Reads ("PUSH" :: ps) (.push v)
  | pushArgument {ps v i} (hv : number? ps = some v) (hi : Operand.index? v = some i) :
      Reads ("PUSHARG" :: ps) (.pushArgument i)
  | pushLocal {ps v i} (hv : number? ps = some v) (hi : Operand.index? v = some i) :
      Reads ("PUSHVAR" :: ps) (.pushLocal i)
  | unary {ps v op} (hv : number? ps = some v) (hop : UnaryOp.ofOperand? v = some op) :
      Reads ("UNARY" :: ps) (.unary op)
  | call {name ps} : Reads ("CALL" :: name :: ps) (.call name)
  | jump {ps v t} (hv : number? ps = some v) (ht : Operand.address? v = some t) :
      Reads ("JUMP" :: ps) (.jump t)
  | branch {ps v t} (hv : number? ps = some v) (ht : Operand.address? v = some t) :
      Reads ("IFNOTGO" :: ps) (.branch t)
  | takeResult {ps} (hv : number? ps = some 0) : Reads ("PUSHRC" :: ps) .takeResult
  | saveAddress {ps} (hv : number? ps = some 1) : Reads ("PUSHRC" :: ps) .skip
  | loadAddress {ps} (hv : number? ps = some 0) : Reads ("POPRC" :: ps) .skip
  | ret {ps} (hv : number? ps = some 1) : Reads ("POPRC" :: ps) .ret
  | dropNone : Reads ["STACKRWD"] .skip
  | drop {ps v} (hv : number? ps = some v) : Reads ("STACKRWD" :: ps) (.drop v.toNat)
  | forward {ps} (hv : ps = [] ∨ ∃ v, number? ps = some v) : Reads ("STACKFWD" :: ps) .skip
  | binary {m ps op} (hm : BinaryOp.ofMnemonic? m = some op) : Reads (m :: ps) (.binary op)
  | unknown {m ps} (hk : m ∉ keywords) (hm : BinaryOp.ofMnemonic? m = none) :
      Reads (m :: ps) (.unknown m)

/-- Whether a line with these words emits an instruction. -/
def emits : List String → Bool
  | [] => false
  | mnemonic :: params =>
    match mnemonic with
    | "LABEL" | "UNARY" | "STACKRWD" | "STACKFWD" => false
    | "PUSHRC" => number? params = some 0
    | "POPRC" => number? params = some 1
    | _ => true

def takesResult (ws : List String) : Bool :=
  ws.head? = some "PUSHRC" ∧ number? ws.tail = some 0

theorem emits_of_call {ws : List String} (h : ws.head? = some "CALL") : emits ws = true := by
  obtain ⟨ps, rfl⟩ := List.head?_eq_some_iff.mp h
  rfl

/-! ## Operands -/

theorem operand_eq_ok {α : Type} {mnemonic : String} {select : Int → Option α} {ps : List String}
    {a : α} (h : operand mnemonic select ps = .ok a) :
    ∃ v, number? ps = some v ∧ select v = some a := by
  cases ps with
  | nil => cases h
  | cons text _ =>
      simp only [operand] at h
      split at h
      · rename_i hv
        cases h
        exact Option.bind_eq_some_iff.mp hv
      · cases h

theorem operand?_eq_ok {mnemonic : String} {ps : List String} {n? : Option Int}
    (h : operand? mnemonic ps = .ok n?) :
    (ps = [] ∧ n? = none) ∨ ∃ v, number? ps = some v ∧ n? = some v := by
  cases ps with
  | nil => cases h; exact Or.inl ⟨rfl, rfl⟩
  | cons text _ =>
      simp only [operand?] at h
      split at h
      · rename_i v hv
        cases h
        exact Or.inr ⟨v, hv, rfl⟩
      · cases h

theorem unaryOperator_eq_ok {ps : List String} {op : UnaryOp} (h : unaryOperator ps = .ok op) :
    ∃ v, number? ps = some v ∧ UnaryOp.ofOperand? v = some op := by
  simp only [unaryOperator] at h
  split at h
  · cases h
  · rename_i v hv
    obtain ⟨_, hw, he⟩ := operand_eq_ok hv
    cases he
    split at h
    · rename_i op' hop
      cases h
      exact ⟨v, hw, hop⟩
    · cases h

theorem choose_eq_ok {mnemonic : String} {zero one c : Command} {ps : List String}
    (h : choose mnemonic zero one ps = .ok c) :
    (number? ps = some 0 ∧ c = zero) ∨ (number? ps = some 1 ∧ c = one) := by
  simp only [choose] at h
  split at h
  · cases h
  · rename_i v hv
    obtain ⟨_, hw, he⟩ := operand_eq_ok hv
    cases he
    split at h
    · rename_i h0
      cases h
      exact Or.inl ⟨h0 ▸ hw, rfl⟩
    · split at h
      · rename_i h1
        cases h
        exact Or.inr ⟨h1 ▸ hw, rfl⟩
      · cases h

theorem eq_toNat_of_index? {v : Int} {i : Nat} (h : Operand.index? v = some i) : i = v.toNat := by
  simp only [Operand.index?] at h
  split at h
  · exact (Option.some.inj h).symm
  · cases h

theorem eq_toNat_of_address? {v : Int} {t : Nat} (h : Operand.address? v = some t) : t = v.toNat := by
  simp only [Operand.address?] at h
  split at h
  · exact (Option.some.inj h).symm
  · cases h

theorem operand_of_read? {α : Type} {select : Int → Option α} {mnemonic text : String} {ps : List String} {v : Int}
    {a : α} (hv : Operand.read? text.toList = some v) (ha : select v = some a) :
    operand mnemonic select (text :: ps) = .ok a := by
  simp only [operand, hv, Option.bind_some, ha]

theorem index?_natCast {i : Nat} (hi : i < 0x100000000) : Operand.index? (i : Int) = some i := by
  rw [Operand.index?, if_pos (by omega), Int.toNat_natCast]

theorem address?_natCast (target : Nat) : Operand.address? (target : Int) = some target := by
  rw [Operand.address?, if_pos (by omega), Int.toNat_natCast]

/-! ## Lines -/

theorem reads_of_ofMnemonic {m : String} {ps : List String} {c : Command}
    (h : ofMnemonic m ps = .ok c) : Reads (m :: ps) c := by
  unfold ofMnemonic at h
  split at h
  · obtain ⟨id, hid, rfl⟩ := map_eq_ok h
    obtain ⟨v, hv, hid⟩ := operand_eq_ok hid
    exact .label hv hid
  · obtain ⟨v, hv, rfl⟩ := map_eq_ok h
    obtain ⟨_, hv, he⟩ := operand_eq_ok hv
    cases he
    exact .push hv
  · obtain ⟨i, hi, rfl⟩ := map_eq_ok h
    obtain ⟨v, hv, hi⟩ := operand_eq_ok hi
    exact .pushArgument hv hi
  · obtain ⟨i, hi, rfl⟩ := map_eq_ok h
    obtain ⟨v, hv, hi⟩ := operand_eq_ok hi
    exact .pushLocal hv hi
  · obtain ⟨op, hop, rfl⟩ := map_eq_ok h
    obtain ⟨v, hv, hop⟩ := unaryOperator_eq_ok hop
    exact .unary hv hop
  · split at h
    · cases h
    · cases h; exact .call
  · obtain ⟨t, ht, rfl⟩ := map_eq_ok h
    obtain ⟨v, hv, ht⟩ := operand_eq_ok ht
    exact .jump hv ht
  · obtain ⟨t, ht, rfl⟩ := map_eq_ok h
    obtain ⟨v, hv, ht⟩ := operand_eq_ok ht
    exact .branch hv ht
  · rcases choose_eq_ok h with ⟨hv, rfl⟩ | ⟨hv, rfl⟩
    · exact .takeResult hv
    · exact .saveAddress hv
  · rcases choose_eq_ok h with ⟨hv, rfl⟩ | ⟨hv, rfl⟩
    · exact .loadAddress hv
    · exact .ret hv
  · obtain ⟨n?, hn, rfl⟩ := map_eq_ok h
    rcases operand?_eq_ok hn with ⟨rfl, rfl⟩ | ⟨v, hv, rfl⟩
    · exact .dropNone
    · exact .drop hv
  · obtain ⟨n?, hn, rfl⟩ := map_eq_ok h
    rcases operand?_eq_ok hn with ⟨rfl, _⟩ | ⟨v, hv, _⟩
    · exact .forward (Or.inl rfl)
    · exact .forward (Or.inr ⟨v, hv⟩)
  · cases h
    cases hm : BinaryOp.ofMnemonic? m with
    | none =>
        have hk : m ∉ keywords := by
          simp only [keywords, List.mem_cons, List.not_mem_nil, or_false, not_or]
          and_intros <;> assumption
        exact .unknown hk hm
    | some op => exact .binary hm

theorem ofLine_eq (line : String) : ofLine line =
    match codeWords line with
    | [] => .ok skip
    | m :: ps => ofMnemonic m ps := by
  simp only [ofLine, codeWords]
  cases wordsOf line with
  | nil => rfl
  | cons m ps =>
      simp only [ofWords]
      by_cases hm : m.toList.head? = some '#'
      · simp only [hm, ↓reduceIte]
      · simp only [hm, ↓reduceIte]

theorem reads_of_ofLine {line : String} {c : Command} (h : ofLine line = .ok c) :
    Reads (codeWords line) c := by
  rw [ofLine_eq] at h
  split at h
  · rename_i hw
    cases h
    rw [hw]
    exact .blank
  · rename_i m ps hw
    rw [hw]
    exact reads_of_ofMnemonic h

theorem ofMnemonic?_of_mem_keywords : ∀ m ∈ keywords, BinaryOp.ofMnemonic? m = none := by
  decide

theorem ofMnemonic?_eq_some {m : String} {op : BinaryOp} :
    BinaryOp.ofMnemonic? m = some op ↔ m = op.mnemonic := by
  constructor
  · intro h
    rw [BinaryOp.ofMnemonic?] at h
    have hp := List.find?_some h
    exact (eq_of_beq hp).symm
  · rintro rfl
    exact BinaryOp.ofMnemonic?_mnemonic op

theorem emits_of_not_mem_keywords {m : String} {ps : List String} (h : m ∉ keywords) :
    emits (m :: ps) = true := by
  simp only [emits]
  split <;> first | rfl | exact absurd (by decide) h

theorem head?_ne_of_not_mem_keywords {m k : String} {ps : List String} (h : m ∉ keywords)
    (hk : k ∈ keywords) : (m :: ps).head? ≠ some k := by
  intro he
  exact h (Option.some.inj he ▸ hk)

theorem takesResult_of_not_mem_keywords {m : String} {ps : List String} (h : m ∉ keywords) :
    takesResult (m :: ps) = false := by
  refine decide_eq_false fun ht => ?_
  exact head?_ne_of_not_mem_keywords h (by decide) ht.1

theorem not_mem_keywords {m : String} {op : BinaryOp} (h : BinaryOp.ofMnemonic? m = some op) :
    m ∉ keywords := by
  intro hk
  rw [ofMnemonic?_of_mem_keywords m hk] at h
  cases h

/-! ## Lines that push a number, call a function or define a label -/

def Pushes (line : String) (v : Int) : Prop :=
  ∃ operand rest, wordsOf line = "PUSH" :: operand :: rest ∧ Operand.read? operand.toList = some v

def Calls (line name : String) : Prop :=
  ∃ rest, wordsOf line = "CALL" :: name :: rest

def Labels (line : String) (label : Nat) : Prop :=
  ∃ operand rest, wordsOf line = "LABEL" :: operand :: rest ∧
    (Operand.read? operand.toList).bind Operand.index? = some label

theorem codeWords_eq (line : String) : codeWords line = wordsOf line ∨ codeWords line = [] := by
  rw [codeWords]
  split
  · exact Or.inr rfl
  · rename_i hw
    split
    · exact Or.inr rfl
    · exact Or.inl hw.symm

theorem Pushes.ofLine {line : String} {v : Int} (h : Pushes line v) : ofLine line = .ok (.push v) := by
  obtain ⟨operand, rest, hw, hv⟩ := h
  have hm : "PUSH".toList.head? ≠ some '#' := by decide
  rw [Command.ofLine, hw, ofWords, if_neg hm]
  simp only [ofMnemonic, operand_of_read? hv rfl]
  rfl

theorem Calls.ofLine {line name : String} (h : Calls line name) : ofLine line = .ok (.call name) := by
  obtain ⟨rest, hw⟩ := h
  have hm : "CALL".toList.head? ≠ some '#' := by decide
  rw [Command.ofLine, hw, ofWords, if_neg hm]
  rfl

theorem calls_of_reads {line name : String} (h : Reads (codeWords line) (.call name)) : Calls line name := by
  have hw := codeWords_eq line
  generalize hws : codeWords line = ws at h
  cases h with
  | @call _ ps =>
      rcases hw with hw | hw
      · exact ⟨ps, hw.symm.trans hws⟩
      · cases hw.symm.trans hws

theorem codeWords_of_head {line m : String} (h : (wordsOf line).head? = some m) (hm : m.toList.head? ≠ some '#') :
    codeWords line = wordsOf line := by
  obtain ⟨rest, hw⟩ := List.head?_eq_some_iff.mp h
  rw [codeWords, hw]
  exact if_neg hm

theorem head?_codeWords {line m : String} (hm : m.toList.head? ≠ some '#') :
    (codeWords line).head? = some m ↔ (wordsOf line).head? = some m := by
  refine ⟨fun h => ?_, fun h => (codeWords_of_head h hm).symm ▸ h⟩
  rcases codeWords_eq line with hw | hw
  · rwa [hw] at h
  · rw [hw] at h
    cases h

/-- Of the lines that can be read, those that define a label start with its keyword. -/
theorem labels_iff {line : String} {c : Command} {label : Nat} (h : Reads (codeWords line) c) :
    Labels line label ↔
      (codeWords line).head? = some "LABEL" ∧ label = ((number? (codeWords line).tail).getD 0).toNat := by
  constructor
  · rintro ⟨operand, rest, hw, hid⟩
    obtain ⟨v, hv, hid⟩ := Option.bind_eq_some_iff.mp hid
    rw [codeWords_of_head (by rw [hw]; rfl) (by decide), hw]
    simp only [List.head?_cons, List.tail_cons, number?, hv, Option.getD_some, true_and]
    exact eq_toNat_of_index? hid
  · rintro ⟨hl, rfl⟩
    rcases codeWords_eq line with hw | hw
    · rw [hw] at h hl ⊢
      generalize hws : wordsOf line = ws at h hl
      cases h with
      | @label ps v id hv hid =>
          cases ps with
          | nil => cases hv
          | cons operand rest =>
              refine ⟨operand, rest, hws, Option.bind_eq_some_iff.mpr ⟨v, hv, ?_⟩⟩
              rw [hid, eq_toNat_of_index? hid, List.tail_cons, hv, Option.getD_some]
      | binary hm => exact absurd hl (head?_ne_of_not_mem_keywords (not_mem_keywords hm) (by decide))
      | unknown hk _ => exact absurd hl (head?_ne_of_not_mem_keywords hk (by decide))
      | _ => simp at hl
    · rw [hw] at hl
      cases hl

end Command

end Unstack
