import Unstack.Proofs.Draft.WellFormed
import Unstack.Proofs.Pseudocode.Decoding
import Unstack.Proofs.Script.Live
import Unstack.Proofs.Text.Lines
import Unstack.Proofs.Text.Words

/-!
# Listings can be read back

The listing of a script shows all that there is to its live instructions and its labels (`ofLines_listingText`). The
kind of every part of a line is told by its first character, and where the part ends by what follows it. Names and
mnemonics are words of lines, so no line of a listing has a newline in it.
-/

namespace Unstack

/-! ## Numbers -/

namespace Hex

theorem isEnd_of_mem_unsigned {n : Nat} : ∀ c ∈ (unsigned n).toList, isEnd c = false := by
  intro c hc
  simp only [unsigned, digits, String.toList_append, String.toList_ofList, List.mem_append] at hc
  rcases hc with hc | hc
  · have hprefix : ∀ c ∈ "0x".toList, isEnd c = false := by simp [isEnd]
    exact hprefix c hc
  · exact isEnd_of_mem_toDigits hc

theorem isEnd_of_mem_signed {v : Int} : ∀ c ∈ (signed v).toList, isEnd c = false := by
  rw [signed]
  split
  · rw [String.toList_append]
    exact List.forall_mem_cons.mpr ⟨rfl, isEnd_of_mem_unsigned⟩
  · exact isEnd_of_mem_unsigned

theorem signed_injective {v v' : Int} (h : signed v = signed v') : v = v' := by
  have hne : ∀ m n : Nat, "-" ++ unsigned m ≠ unsigned n := fun m n he => by
    have hfirst := congrArg (fun text => text.toList.head?) he
    simp [unsigned] at hfirst
  rw [signed, signed] at h
  split at h <;> split at h
  · have he := unsigned_injective ((String.append_right_inj "-").mp h)
    omega
  · exact absurd h (hne _ _)
  · exact absurd h.symm (hne _ _)
  · have he := unsigned_injective h
    omega

theorem paddedDigits_injective {width m n : Nat} (h : paddedDigits width m = paddedDigits width n) : m = n := by
  have hread : ∀ n, digits? 0 ((Nat.toDigits 16 n).leftpad width '0') = some n := by
    intro n
    have hzeros : ∀ k, digits? 0 (List.replicate k '0') = some 0 := by
      intro k
      induction k with
      | zero => rfl
      | succ k ih => exact ih
    rw [List.leftpad, digits?_append, hzeros, Option.bind_some, digits?_toDigits]
  have hdigits := congrArg (digits? 0) (String.ofList_injective h)
  rw [hread, hread] at hdigits
  exact Option.some.inj hdigits

end Hex

theorem BinaryOp.mnemonic_injective {op op' : BinaryOp} (h : op.mnemonic = op'.mnemonic) : op = op' := by
  have hop := ofMnemonic?_mnemonic op
  rw [h, ofMnemonic?_mnemonic] at hop
  exact (Option.some.inj hop).symm

theorem isEnd_of_mem_mnemonic {op : BinaryOp} : ∀ c ∈ op.mnemonic.toList, isEnd c = false := by
  cases op <;> simp [BinaryOp.mnemonic, isEnd]

/-! ## Expressions -/

namespace Expr

@[simp] theorem toList_dump_literal (v : Int) :
    (literal v).dump.toList = 'l' :: 'i' :: 't' :: ' ' :: (Hex.signed v).toList :=
  String.toList_append

@[simp] theorem toList_dump_argument (index : Nat) :
    (argument index).dump.toList = 'a' :: 'r' :: 'g' :: Nat.toDigits 10 index := by
  show ("arg" ++ String.ofList (Nat.toDigits 10 index)).toList = _
  simp

@[simp] theorem toList_dump_localVar (index : Nat) :
    (localVar index).dump.toList = 'v' :: 'a' :: 'r' :: Nat.toDigits 10 index := by
  show ("var" ++ String.ofList (Nat.toDigits 10 index)).toList = _
  simp

@[simp] theorem toList_dump_result (call : Nat) :
    (result call).dump.toList = 'r' :: 'e' :: 't' :: '(' :: '#' :: (Nat.toDigits 10 call ++ [')']) := by
  show ("ret(#" ++ String.ofList (Nat.toDigits 10 call) ++ ")").toList = _
  simp

@[simp] theorem toList_dump_binary (op : BinaryOp) (left right : Expr) :
    (binary op left right).dump.toList =
      '(' :: (left.dump.toList ++ ' ' :: (op.mnemonic.toList ++ ' ' :: (right.dump.toList ++ [')']))) := by
  show ("(" ++ left.dump ++ " " ++ op.mnemonic ++ " " ++ right.dump ++ ")").toList = _
  simp

@[simp] theorem toList_dump_unary (op : UnaryOp) (operand : Expr) :
    (unary op operand).dump.toList = op.symbol.toList ++ operand.dump.toList :=
  String.toList_append

/-- Where the text of an expression stands before an end, it is that of no other expression. -/
theorem dump_append_inj {e e' : Expr} {r r' : List Char} (hr : Ends r) (hr' : Ends r')
    (h : e.dump.toList ++ r = e'.dump.toList ++ r') : e = e' ∧ r = r' := by
  have hspace : ∀ text, Ends (' ' :: text) := Ends.cons rfl
  have hclose : ∀ text, Ends (')' :: text) := Ends.cons rfl
  induction e generalizing e' r r' with
  | literal v =>
      cases e' with
      | literal v' =>
          simp only [toList_dump_literal, List.cons_append, List.cons.injEq, true_and] at h
          obtain ⟨hsigned, rfl⟩ := append_inj_of_ends Hex.isEnd_of_mem_signed Hex.isEnd_of_mem_signed hr hr' h
          exact ⟨by rw [Hex.signed_injective (String.toList_inj.mp hsigned)], rfl⟩
      | unary op _ => cases op <;> simp [UnaryOp.symbol] at h
      | _ => simp at h
  | argument index =>
      cases e' with
      | argument index' =>
          simp only [toList_dump_argument, List.cons_append, List.cons.injEq, true_and] at h
          obtain ⟨hdigits, rfl⟩ := append_inj_of_ends (fun _ => isEnd_of_mem_toDigits_ten)
            (fun _ => isEnd_of_mem_toDigits_ten) hr hr' h
          exact ⟨by rw [Decimal.toDigits_injective hdigits], rfl⟩
      | unary op _ => cases op <;> simp [UnaryOp.symbol] at h
      | _ => simp at h
  | localVar index =>
      cases e' with
      | localVar index' =>
          simp only [toList_dump_localVar, List.cons_append, List.cons.injEq, true_and] at h
          obtain ⟨hdigits, rfl⟩ := append_inj_of_ends (fun _ => isEnd_of_mem_toDigits_ten)
            (fun _ => isEnd_of_mem_toDigits_ten) hr hr' h
          exact ⟨by rw [Decimal.toDigits_injective hdigits], rfl⟩
      | unary op _ => cases op <;> simp [UnaryOp.symbol] at h
      | _ => simp at h
  | result call =>
      cases e' with
      | result call' =>
          simp only [toList_dump_result, List.cons_append, List.append_assoc, List.cons.injEq, true_and] at h
          obtain ⟨hdigits, hrest⟩ := append_inj_of_ends (fun _ => isEnd_of_mem_toDigits_ten)
            (fun _ => isEnd_of_mem_toDigits_ten) (hclose _) (hclose _) h
          exact ⟨by rw [Decimal.toDigits_injective hdigits], (List.cons.inj hrest).2⟩
      | unary op _ => cases op <;> simp [UnaryOp.symbol] at h
      | _ => simp at h
  | binary op left right ihl ihr =>
      cases e' with
      | binary op' left' right' =>
          simp only [toList_dump_binary, List.cons_append, List.append_assoc, List.cons.injEq, true_and] at h
          obtain ⟨rfl, hmnemonic⟩ := ihl (hspace _) (hspace _) h
          obtain ⟨hop, hright⟩ := append_inj_of_ends isEnd_of_mem_mnemonic isEnd_of_mem_mnemonic (hspace _) (hspace _)
            (List.cons.inj hmnemonic).2
          obtain ⟨rfl, hrest⟩ := ihr (hclose _) (hclose _) (List.cons.inj hright).2
          exact ⟨by rw [BinaryOp.mnemonic_injective (String.toList_inj.mp hop)], (List.cons.inj hrest).2⟩
      | unary op' _ => cases op' <;> simp [UnaryOp.symbol] at h
      | _ => simp at h
  | unary op operand ih =>
      cases e' with
      | unary op' operand' =>
          simp only [toList_dump_unary, List.append_assoc] at h
          obtain ⟨rfl, hoperand⟩ := UnaryOp.symbol_append_inj h
          obtain ⟨rfl, rfl⟩ := ih hr hr' hoperand
          exact ⟨rfl, rfl⟩
      | _ => cases op <;> simp [UnaryOp.symbol] at h

theorem dump_injective {e e' : Expr} (h : e.dump = e'.dump) : e = e' :=
  (dump_append_inj .nil .nil (congrArg (·.toList ++ []) h)).1

end Expr

/-! ## Instructions -/

namespace Action

/-- The first character that a listing shows of an action. -/
def initial : Action → Char
  | assign _ => 'A'
  | call _ => 'F'
  | goto _ => 'G'
  | branch _ _ => 'I'
  | ret => 'R'
  | unknown _ => 'N'

theorem dump_branch (target : Nat) (condition : Expr) :
    (branch target condition).dump = "IfNot ( " ++ (condition.dump ++ (" ) Goto " ++ Hex.unsigned target)) := by
  rw [← String.append_assoc, ← String.append_assoc]
  rfl

theorem head?_dump (a : Action) : a.dump.toList.head? = some a.initial := by
  cases a with
  | branch target condition => simp [dump_branch, initial]
  | _ => simp [dump, initial]

theorem dump_injective {a a' : Action} (h : a.dump = a'.dump) : a = a' := by
  have hinitial : a.initial = a'.initial := by
    rw [← Option.some.injEq, ← head?_dump, ← head?_dump, h]
  cases a with
  | assign value =>
      cases a' with
      | assign value' => rw [Expr.dump_injective ((String.append_right_inj _).mp h)]
      | _ => simp [initial] at hinitial
  | call name =>
      cases a' with
      | call name' => rw [(String.append_right_inj _).mp h]
      | _ => simp [initial] at hinitial
  | goto target =>
      cases a' with
      | goto target' => rw [Hex.unsigned_injective ((String.append_right_inj _).mp h)]
      | _ => simp [initial] at hinitial
  | branch target condition =>
      cases a' with
      | branch target' condition' =>
          rw [dump_branch, dump_branch, String.append_right_inj, ← String.toList_inj] at h
          simp only [String.toList_append] at h
          have hends : ∀ text, Ends (" ) Goto ".toList ++ text) := Ends.cons rfl
          obtain ⟨rfl, hgoto⟩ := Expr.dump_append_inj (hends _) (hends _) h
          rw [Hex.unsigned_injective (String.toList_inj.mp (List.append_cancel_left hgoto))]
      | _ => simp [initial] at hinitial
  | ret =>
      cases a' with
      | ret => rfl
      | _ => simp [initial] at hinitial
  | unknown mnemonic =>
      cases a' with
      | unknown mnemonic' => rw [(String.append_right_inj _).mp h]
      | _ => simp [initial] at hinitial

end Action

/-! ## Lines of instructions and of labels -/

theorem Hex.digit?_of_mem_paddedDigits {width n : Nat} {c : Char} (hc : c ∈ (paddedDigits width n).toList) :
    (digit? c).isNone = false := by
  rw [paddedDigits, String.toList_ofList, List.leftpad, List.mem_append] at hc
  rcases hc with hc | hc
  · obtain ⟨_, rfl⟩ := List.mem_replicate.mp hc
    rfl
  · cases hd : digit? c with
    | none => exact absurd hc (not_mem_toDigits hd n)
    | some d => rfl

theorem Hex.paddedDigits_ne_nil (width n : Nat) : (paddedDigits width n).toList ≠ [] := by
  rw [paddedDigits, String.toList_ofList, List.leftpad]
  exact List.append_ne_nil_of_right_ne_nil _ Nat.toDigits_ne_nil

namespace Instr

theorem toList_dump (i : Instr) (landing : Bool) :
    (i.dump landing).toList =
      (Hex.paddedDigits 4 i.addr).toList ++ (if landing then '*' else ' ') :: ' ' :: i.action.dump.toList := by
  rw [dump, String.toList_append, String.toList_append, List.append_assoc]
  cases landing <;> rfl

theorem dump_inj {i i' : Instr} {landing landing' : Bool} (h : i.dump landing = i'.dump landing') :
    i = i' ∧ landing = landing' := by
  rw [← String.toList_inj, toList_dump, toList_dump] at h
  have hmark : ∀ (landing : Bool) (text : List Char) (c : Char),
      ((if landing then '*' else ' ') :: text).head? = some c → (Hex.digit? c).isNone = true := by
    rintro landing text _ ⟨⟩
    cases landing <;> rfl
  obtain ⟨haddr, hrest⟩ := Text.append_inj_of_stops (fun c => (Hex.digit? c).isNone)
    (fun _ => Hex.digit?_of_mem_paddedDigits) (fun _ => Hex.digit?_of_mem_paddedDigits) (hmark _ _) (hmark _ _) h
  obtain ⟨hlanding, hrest⟩ := List.cons.inj hrest
  have haction := Action.dump_injective (String.toList_inj.mp (List.cons.inj hrest).2)
  have haddr := Hex.paddedDigits_injective (String.toList_inj.mp haddr)
  refine ⟨?_, ?_⟩
  · cases i
    cases i'
    exact congrArg₂ Instr.mk haddr haction
  · revert hlanding
    cases landing <;> cases landing' <;> decide

/-- The line of an instruction starts with a digit. -/
theorem head?_dump (i : Instr) (landing : Bool) :
    ((i.dump landing).toList.head?.bind Hex.digit?).isSome = true := by
  rw [toList_dump]
  cases hd : (Hex.paddedDigits 4 i.addr).toList with
  | nil => exact absurd hd (Hex.paddedDigits_ne_nil 4 i.addr)
  | cons c text =>
      have hc := Hex.digit?_of_mem_paddedDigits (hd ▸ List.mem_cons_self)
      rwa [← Bool.not_inj_iff, Option.not_isSome]

end Instr

namespace Script

variable {s s' : Script}

/-- The line that a listing shows of a label. -/
def labelLine (l : Nat × Nat) : String :=
  s!"label {Hex.unsigned l.1} -> 0x{Hex.paddedDigits 4 l.2}"

/-- The live instructions, each with whether a jump goes to it. -/
def marked (s : Script) : List (Instr × Bool) :=
  s.instructions.map fun p => (p.2, s.landings.contains p.1)

theorem listing_eq (s : Script) : s.listing = (s.marked.map fun q => q.1.dump q.2) ++ s.labels.map labelLine := by
  rw [listing, marked, List.map_map]
  rfl

theorem toList_labelLine (l : Nat × Nat) :
    (labelLine l).toList =
      "label ".toList ++ ((Hex.unsigned l.1).toList ++ (" -> 0x".toList ++ (Hex.paddedDigits 4 l.2).toList)) := by
  show ("label " ++ Hex.unsigned l.1 ++ " -> 0x" ++ Hex.paddedDigits 4 l.2).toList = _
  simp only [String.toList_append, List.append_assoc]

theorem labelLine_injective {l l' : Nat × Nat} (h : labelLine l = labelLine l') : l = l' := by
  rw [← String.toList_inj, toList_labelLine, toList_labelLine] at h
  have hends : ∀ text, Ends (" -> 0x".toList ++ text) := Ends.cons rfl
  obtain ⟨hlabel, hrest⟩ := append_inj_of_ends Hex.isEnd_of_mem_unsigned Hex.isEnd_of_mem_unsigned (hends _) (hends _)
    (List.append_cancel_left h)
  exact Prod.ext (Hex.unsigned_injective (String.toList_inj.mp hlabel))
    (Hex.paddedDigits_injective (String.toList_inj.mp (List.append_cancel_left hrest)))

/-- What starts with a digit is the line of an instruction, and what does not is that of a label. -/
theorem listing_inj (h : s.listing = s'.listing) : s.marked = s'.marked ∧ s.labels = s'.labels := by
  have hfilter : ∀ (l : List (Instr × Bool)) (labels : List (Nat × Nat)),
      ((l.map fun q => q.1.dump q.2) ++ labels.map labelLine).filter
        (fun line => (line.toList.head?.bind Hex.digit?).isSome) = l.map fun q => q.1.dump q.2 := by
    intro l labels
    have hinstr : ∀ line ∈ l.map fun q => q.1.dump q.2, (line.toList.head?.bind Hex.digit?).isSome = true :=
      List.forall_mem_map.mpr fun q _ => q.1.head?_dump q.2
    have hlabel : ∀ line ∈ labels.map labelLine, ¬ (line.toList.head?.bind Hex.digit?).isSome = true := by
      refine List.forall_mem_map.mpr fun label _ => ?_
      rw [toList_labelLine]
      exact Bool.false_ne_true
    rw [List.filter_append, List.filter_eq_self.mpr hinstr, List.filter_eq_nil_iff.mpr hlabel, List.append_nil]
  rw [listing_eq, listing_eq] at h
  have hlines := congrArg (List.filter fun line => (line.toList.head?.bind Hex.digit?).isSome) h
  rw [hfilter, hfilter] at hlines
  have hlabels := List.append_cancel_left (hlines ▸ h)
  refine ⟨List.map_injective_iff.mpr ?_ hlines, List.map_injective_iff.mpr (fun l l' => labelLine_injective) hlabels⟩
  rintro ⟨i, landing⟩ ⟨i', landing'⟩ hq
  obtain ⟨rfl, rfl⟩ := Instr.dump_inj hq
  rfl

end Script

/-! ## Newlines -/

theorem Hex.newline_not_mem_unsigned (n : Nat) : '\n' ∉ (unsigned n).toList := by
  simp [unsigned, digits, not_mem_toDigits (show digit? '\n' = none by decide)]

theorem Hex.newline_not_mem_signed (v : Int) : '\n' ∉ (signed v).toList := by
  rw [signed]
  split
  · simp [newline_not_mem_unsigned]
  · exact newline_not_mem_unsigned _

theorem Hex.newline_not_mem_paddedDigits (width n : Nat) : '\n' ∉ (paddedDigits width n).toList := by
  intro hm
  cases digit?_of_mem_paddedDigits hm

theorem Decimal.newline_not_mem_toDigits (n : Nat) : '\n' ∉ Nat.toDigits 10 n := by
  intro hm
  exact absurd (Nat.isDigit_of_mem_toDigits (by decide) (by decide) hm) (by decide)

theorem Expr.newline_not_mem_dump (e : Expr) : '\n' ∉ e.dump.toList := by
  induction e with
  | literal v => simp [Hex.newline_not_mem_signed]
  | argument index | localVar index | result index => simp [Decimal.newline_not_mem_toDigits]
  | binary op left right ihl ihr =>
      have hop : '\n' ∉ op.mnemonic.toList := by cases op <;> decide
      simp [hop, ihl, ihr]
  | unary op operand ih =>
      have hop : '\n' ∉ op.symbol.toList := by cases op <;> decide
      simp [hop, ih]

/-- The word of its line that the action keeps. -/
def Action.word? : Action → Option String
  | call word | unknown word => some word
  | _ => none

theorem Action.newline_not_mem_dump {a : Action} (h : ∀ word, a.word? = some word → '\n' ∉ word.toList) :
    '\n' ∉ a.dump.toList := by
  cases a with
  | assign value => simp [dump, Expr.newline_not_mem_dump]
  | call name => simp [dump, h name rfl]
  | goto target => simp [dump, Hex.newline_not_mem_unsigned]
  | branch target condition => simp [dump_branch, Expr.newline_not_mem_dump, Hex.newline_not_mem_unsigned]
  | ret => simp [dump]
  | unknown mnemonic => simp [dump, h mnemonic rfl]

theorem Instr.newline_not_mem_dump {i : Instr} (h : ∀ word, i.action.word? = some word → '\n' ∉ word.toList)
    (landing : Bool) : '\n' ∉ (i.dump landing).toList := by
  have hmark : '\n' ≠ (if landing then '*' else ' ') := by cases landing <;> decide
  simp [toList_dump, Hex.newline_not_mem_paddedDigits, hmark, Action.newline_not_mem_dump h]

theorem Script.newline_not_mem_labelLine (l : Nat × Nat) : '\n' ∉ (labelLine l).toList := by
  simp [toList_labelLine, Hex.newline_not_mem_paddedDigits, Hex.newline_not_mem_unsigned]

/-! ## Words -/

open Command (Reads codeWords)

theorem Command.newline_not_mem_codeWords {line word : String} (h : word ∈ codeWords line) : '\n' ∉ word.toList := by
  have hword : word ∈ wordsOf line := by
    rcases codeWords_eq line with hw | hw
    · rwa [hw] at h
    · rw [hw] at h
      cases h
  obtain ⟨w, hw, rfl⟩ := List.mem_map.mp hword
  rw [String.toList_ofList]
  exact fun hm => absurd (Text.isBlank_of_mem_words hw _ hm) (by decide)

namespace Draft

variable {d d' : Draft}

/-- The words that the instructions keep. -/
def words (d : Draft) : List (Option String) :=
  d.emitted.toList.map (·.action.word?)

theorem words_emit (d : Draft) (action : Action) : (d.emit action).words = d.words ++ [action.word?] := by
  simp [words, emit]

/-- An instruction keeps a word of its line only. -/
theorem words_step {ws : List String} {c : Command} {word : String} (hr : Reads ws c) (hs : Step d c d')
    (hw : some word ∈ d'.words) : some word ∈ d.words ∨ word ∈ ws := by
  have hemit : ∀ (d₀ : Draft) (action : Action), d₀.words = d.words → some word ∈ (d₀.emit action).words →
      some word ∈ d.words ∨ action.word? = some word := by
    intro d₀ action h₀ hw
    rw [words_emit, h₀, List.mem_append, List.mem_singleton] at hw
    exact hw.imp_right Eq.symm
  have hnone : ∀ (d₀ : Draft) (action : Action), d₀.words = d.words → action.word? = none →
      some word ∈ (d₀.emit action).words → some word ∈ d.words := by
    intro d₀ action h₀ ha hw
    exact (hemit d₀ action h₀ hw).resolve_right (by rw [ha]; exact (Option.some_ne_none word).symm)
  cases hs with
  | skip | label | drop => exact Or.inl hw
  | push | pushArgument | pushLocal => exact Or.inl (hnone d (.assign _) rfl rfl hw)
  | @unary op id rest hp =>
      have he : (d.applyUnary op id).words = d.words := map_emitted_applyUnary op id fun _ _ => rfl
      exact Or.inl (he ▸ hw)
  | @binary op right left rest hp => exact Or.inl (hnone ((d.consume right).consume left) (.assign _) rfl rfl hw)
  | jump => exact Or.inl (hnone d (.goto _) rfl rfl hw)
  | @branch t id rest hp => exact Or.inl (hnone (d.consume id) (.branch _ _) rfl rfl hw)
  | @takeResult id hc => exact Or.inl (hnone (d.absorb id) (.assign _) rfl rfl hw)
  | ret => exact Or.inl (hnone d .ret rfl rfl hw)
  | @call name =>
      refine (hemit d (.call name) rfl hw).imp_right fun hname => ?_
      cases hname
      cases hr
      exact List.mem_cons_of_mem _ List.mem_cons_self
  | @unknown m =>
      refine (hemit d (.unknown m) rfl hw).imp_right fun hm => ?_
      cases hm
      cases hr
      exact List.mem_cons_self

theorem newline_not_mem_words {lines : List String} (h : ({} : Draft).run lines = .ok d) :
    ∀ word, some word ∈ d.words → '\n' ∉ word.toList := by
  refine step_induction (motive := fun _ d => ∀ word, some word ∈ d.words → '\n' ∉ word.toList) ?_ ?_ h
  · exact fun _ hw => absurd hw List.not_mem_nil
  · intro lines d line c d' _ _ ih hr hs word hw
    rcases words_step hr hs hw with hw | hw
    · exact ih word hw
    · exact Command.newline_not_mem_codeWords hw

end Draft

namespace Script

variable {s s' : Script} {lines lines' : List String}

theorem newline_not_mem_listing (h : ofLines lines = .ok s) : ∀ line ∈ s.listing, '\n' ∉ line.toList := by
  obtain ⟨d, hd, hf⟩ := ofLines_eq_ok h
  obtain ⟨labels, _, rfl⟩ := Draft.finish_eq_ok hf
  intro line hline
  rw [listing_eq, List.mem_append] at hline
  rcases hline with hline | hline
  · obtain ⟨q, hq, rfl⟩ := List.mem_map.mp hline
    obtain ⟨p, hp, rfl⟩ := List.mem_map.mp hq
    refine Instr.newline_not_mem_dump (fun word hword => Draft.newline_not_mem_words hd word ?_) _
    have hi : d.emitted[p.1]? = some p.2 := (mem_instructions.mp hp).2
    rw [← hword]
    exact List.mem_map_of_mem (Array.mem_toList_iff.mpr (Array.mem_of_getElem? hi))
  · obtain ⟨l, _, rfl⟩ := List.mem_map.mp hline
    exact newline_not_mem_labelLine l

/-! ## Listings -/

/-- The listing of a script as a text. -/
def listingText (s : Script) : String :=
  String.join (s.listing.map (· ++ "\n"))

/-- Two disassemblies have the same listing exactly if their live instructions and their labels are the same. -/
theorem ofLines_listingText (h : ofLines lines = .ok s) (h' : ofLines lines' = .ok s') :
    s.listingText = s'.listingText ↔ s.marked = s'.marked ∧ s.labels = s'.labels := by
  constructor
  · intro htext
    exact listing_inj (eq_of_join_eq (newline_not_mem_listing h) (newline_not_mem_listing h') htext)
  · rintro ⟨hmarked, hlabels⟩
    rw [listingText, listingText, listing_eq, listing_eq, hmarked, hlabels]

theorem ofLines_listingText_spelled :
    ∃ s s', ofLines ["PUSH 1", "UNARY 1", "LABEL 2", "CALL f g", "PUSHRC 0", "MINUS", "IFNOTGO 0"] = .ok s ∧
      ofLines [" PUSH 0X1", "UNARY 01", "LABEL 0x2", "CALL f", "PUSHRC 0 #", "MINUS", "IFNOTGO 0"] = .ok s' ∧
      s.listingText = "0006* IfNot ( (-lit 0x1 MINUS ret(#1)) ) Goto 0x0\nlabel 0x2 -> 0x0006\n" ∧
      s.marked = s'.marked ∧ s.labels = s'.labels := by
  obtain ⟨s, hs, htext⟩ : ∃ s,
      ofLines ["PUSH 1", "UNARY 1", "LABEL 2", "CALL f g", "PUSHRC 0", "MINUS", "IFNOTGO 0"] = .ok s ∧
        s.listingText = "0006* IfNot ( (-lit 0x1 MINUS ret(#1)) ) Goto 0x0\nlabel 0x2 -> 0x0006\n" :=
    exists_ok (by decide +kernel)
  obtain ⟨s', hs', htext'⟩ : ∃ s',
      ofLines [" PUSH 0X1", "UNARY 01", "LABEL 0x2", "CALL f", "PUSHRC 0 #", "MINUS", "IFNOTGO 0"] = .ok s' ∧
        s'.listingText = "0006* IfNot ( (-lit 0x1 MINUS ret(#1)) ) Goto 0x0\nlabel 0x2 -> 0x0006\n" :=
    exists_ok (by decide +kernel)
  exact ⟨s, s', hs, hs', htext, (ofLines_listingText hs hs').mp (htext.trans htext'.symm)⟩

end Script

end Unstack
