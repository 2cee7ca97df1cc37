import Mathlib.Data.List.Induction
import Unstack.Proofs.Draft.Outline
import Unstack.Proofs.Draft.Tally
import Unstack.Proofs.Script.Live

/-!
# Nothing is lost and nothing is shown twice

`Ledger` keeps the books of a disassembly from the words of its lines alone. The live instructions of a finished
script hold exactly the nodes in the books, make or refer to every call exactly once, and every line that no
expression absorbs has its own instruction (`ofLines_conserves`). Lifting does not see the registry.
-/

namespace Unstack

open Command (Reads codeWords number? keywords emits takesResult)

variable {d d' : Draft} {s : Script}

/-! ## The books -/

/-- What the lines read so far ask for. -/
structure Ledger where
  /-- The number of instructions emitted, which is the number that the next one gets. -/
  size : Nat := 0
  /-- The calls whose results were not taken, the latest first. -/
  untaken : List Nat := []
  /-- The nodes that lines asked for, the latest first. -/
  nodes : List Node := []

namespace Ledger

def enter (L : Ledger) (ws : List String) : Ledger where
  size := if emits ws then L.size + 1 else L.size
  untaken :=
    if ws.head? = some "CALL" then L.size :: L.untaken
    else if takesResult ws then L.untaken.tail
    else L.untaken
  nodes := (Node.ofWords? L.untaken ws).toList ++ L.nodes

def ofLines (lines : List String) : Ledger :=
  lines.foldl (fun L line => L.enter (codeWords line)) {}

theorem ofLines_append (lines : List String) (line : String) :
    ofLines (lines ++ [line]) = (ofLines lines).enter (codeWords line) := by
  rw [ofLines, List.foldl_append]
  rfl

/-- A node that is asked for by the lines with a certain property is in the books once for each of them. -/
theorem count_nodes {node : Node} {p : List String → Bool}
    (hp : ∀ calls ws, Node.ofWords? calls ws = some node ↔ p ws = true) (lines : List String) :
    (ofLines lines).nodes.count node = lines.countP fun line => p (codeWords line) := by
  induction lines using List.reverseRecOn with
  | nil => rfl
  | append_singleton lines line ih =>
      have hnew : (Node.ofWords? (ofLines lines).untaken (codeWords line)).toList.count node =
          if p (codeWords line) = true then 1 else 0 := by
        by_cases hw : p (codeWords line) = true
        · rw [(hp _ _).mpr hw, if_pos hw, Option.toList_some, List.count_singleton_self]
        · rw [if_neg hw, List.count_eq_zero, Option.mem_toList]
          exact fun hn => hw ((hp _ _).mp hn)
      rw [ofLines_append, enter, List.count_append, ih, hnew, List.countP_append, List.countP_singleton,
        Nat.add_comm]

end Ledger

/-! ## Which lines ask for an operator -/

def Command.appliesUnary (op : UnaryOp) (ws : List String) : Bool :=
  ws.head? = some "UNARY" ∧ (number? ws.tail).bind UnaryOp.ofOperand? = some op

def Command.appliesBinary (op : BinaryOp) (ws : List String) : Bool :=
  ws.head? = some op.mnemonic

namespace Node

theorem ofWords?_eq_binary (op : BinaryOp) (calls : List Nat) (ws : List String) :
    ofWords? calls ws = some (.binary op) ↔ Command.appliesBinary op ws = true := by
  cases ws with
  | nil => simp [ofWords?, Command.appliesBinary]
  | cons m ps =>
      simp only [Command.appliesBinary, List.head?_cons, Option.some.injEq, decide_eq_true_eq]
      by_cases hk : m ∈ keywords
      · have hne : m ≠ op.mnemonic := by
          rintro rfl
          exact Command.not_mem_keywords (BinaryOp.ofMnemonic?_mnemonic op) hk
        have hnone := Command.ofMnemonic?_of_mem_keywords m hk
        refine iff_of_false ?_ hne
        simp only [ofWords?, hnone]
        split <;> simp [-Option.map_bind]
      · rw [ofWords?_of_not_mem_keywords hk, ← Command.ofMnemonic?_eq_some]
        simp

theorem ofWords?_eq_unary (op : UnaryOp) (calls : List Nat) (ws : List String) :
    ofWords? calls ws = some (.unary op) ↔ Command.appliesUnary op ws = true := by
  cases ws with
  | nil => simp [ofWords?, Command.appliesUnary]
  | cons m ps =>
      simp only [Command.appliesUnary, List.head?_cons, List.tail_cons, Option.some.injEq,
        decide_eq_true_eq]
      by_cases hm : m = "UNARY"
      · subst hm
        simp [ofWords?, -Option.map_bind]
      · refine iff_of_false ?_ fun h => hm h.1
        simp only [ofWords?]
        split <;> simp_all

end Node

/-! ## The books agree with the draft -/

namespace Draft

structure Agrees (d : Draft) (L : Ledger) : Prop where
  size : d.emitted.size = L.size
  untaken : d.liveCalls = L.untaken
  nodes : d.nodes.Perm L.nodes

theorem Agrees.step {L : Ledger} {ws : List String} {c : Command} (ha : d.Agrees L) (h : d.WellFormed)
    (hr : Reads ws c) (hs : Step d c d') : d'.advance.Agrees (L.enter ws) where
  size := by
    show d'.emitted.size = _
    rw [← length_addrs, addrs_step hr hs, List.length_append, length_addrs, ha.size, Ledger.enter]
    cases emits ws <;> rfl
  untaken := by
    show d'.liveCalls = _
    rw [liveCalls_step h hr hs, ha.untaken, ha.size]
    rfl
  nodes := by
    refine (nodes_step h hr hs).trans ?_
    rw [ha.untaken]
    exact ha.nodes.append_left _

theorem run_agrees {lines : List String} (h : ({} : Draft).run lines = .ok d) :
    d.Agrees (Ledger.ofLines lines) := by
  refine step_induction (motive := fun lines d => d.Agrees (Ledger.ofLines lines)) ⟨rfl, rfl, .refl _⟩ ?_ h
  intro lines d line c d' hw _ ih hr hs
  rw [Ledger.ofLines_append]
  exact ih.step hw hr hs

theorem run_calls {lines : List String} (h : ({} : Draft).run lines = .ok d) :
    (d.tally Action.calls).Perm d.allCalls := by
  refine step_induction (motive := fun _ d => (d.tally Action.calls).Perm d.allCalls) (.refl _) ?_ h
  intro lines d line c d' hw _ ih _ hs
  show (d'.tally Action.calls).Perm d'.allCalls
  exact calls_step hw hs ih

end Draft

/-! ## The lines that call -/

/-- The addresses of the lines that call. -/
def callLines (lines : List String) : List Nat :=
  (lines.zipIdx.filter fun p => (codeWords p.1).head? = some "CALL").map (·.2)

theorem callLines_append (lines : List String) (line : String) :
    callLines (lines ++ [line]) =
      callLines lines ++ if (codeWords line).head? = some "CALL" then [lines.length] else [] := by
  rw [callLines, List.zipIdx_append, List.filter_append, List.map_append, Nat.zero_add]
  congr 1
  by_cases hc : (codeWords line).head? = some "CALL"
  · simp [hc]
  · simp [hc]

namespace Draft

/-- The calls stand at the lines that call, in their order. -/
theorem run_allCalls {lines : List String} (h : ({} : Draft).run lines = .ok d) :
    d.allCalls.map (d.addrs[·]?) = (callLines lines).map some := by
  refine step_induction (motive := fun lines d => d.allCalls.map (d.addrs[·]?) = (callLines lines).map some)
    rfl ?_ h
  intro lines d line c d' hw ho ih hr hs
  have hold : ∀ id ∈ d.allCalls, d'.addrs[id]? = d.addrs[id]? := fun id hid =>
    getElem?_addrs_step_of_lt hr hs (List.mem_range.mp (List.mem_filter.mp hid).1)
  show d'.allCalls.map (d'.addrs[·]?) = _
  rw [allCalls_step hw hr hs, List.map_append, List.map_congr_left hold, ih, callLines_append,
    List.map_append]
  congr 1
  by_cases hcall : (codeWords line).head? = some "CALL"
  · have hnew := getElem?_addrs_step_size hr hs (Command.emits_of_call hcall)
    rw [if_pos hcall, if_pos hcall, List.map_singleton, hnew, ho]
    rfl
  · rw [if_neg hcall, if_neg hcall]
    rfl

end Draft

/-! ## The lines that no expression absorbs -/

/-- Whether a line with these words jumps, returns or means nothing to the lifter. -/
def Command.standsAlone : List String → Bool
  | [] => false
  | mnemonic :: params =>
    match mnemonic with
    | "JUMP" | "IFNOTGO" => true
    | "POPRC" => number? params = some 1
    | _ => mnemonic ∉ keywords ∧ (BinaryOp.ofMnemonic? mnemonic).isNone

/-- The action does what the words ask for, where they stand alone. -/
inductive StandsFor : List String → Action → Prop where
  | jump {ps v} (hv : number? ps = some v) : StandsFor ("JUMP" :: ps) (.goto v.toNat)
  | branch {ps v condition} (hv : number? ps = some v) :
      StandsFor ("IFNOTGO" :: ps) (.branch v.toNat condition)
  | ret {ps} (hv : number? ps = some 1) : StandsFor ("POPRC" :: ps) .ret
  | unknown {m ps} (hk : m ∉ keywords) (hm : BinaryOp.ofMnemonic? m = none) :
      StandsFor (m :: ps) (.unknown m)

theorem Command.standsAlone_of_not_mem_keywords {m : String} {ps : List String} (h : m ∉ keywords) :
    standsAlone (m :: ps) = (BinaryOp.ofMnemonic? m).isNone := by
  simp only [standsAlone]
  split
  iterate 3 exact absurd (by decide) h
  cases BinaryOp.ofMnemonic? m with
  | none => simp [h]
  | some _ => simp

namespace Draft

/-- A line that stands alone has its own instruction, which nothing can absorb. -/
theorem exists_standing {ws : List String} {c : Command} (hr : Reads ws c) (hs : Step d c d')
    (hw : Command.standsAlone ws = true) :
    ∃ id action, StandsFor ws action ∧ d'.Standing id ⟨d.offset, action⟩ := by
  cases hr with
  | jump hv ht =>
      cases hs
      rw [Command.eq_toNat_of_address? ht]
      exact ⟨_, _, .jump hv, .new_jump d _ rfl rfl⟩
  | branch hv ht =>
      cases hs
      rw [Command.eq_toNat_of_address? ht]
      exact ⟨_, _, .branch hv, .new_jump (d.consume _) _ rfl rfl⟩
  | ret hv =>
      cases hs
      exact ⟨_, _, .ret hv, .new d rfl rfl⟩
  | unknown hk hm =>
      cases hs
      exact ⟨_, _, .unknown hk hm, .new d rfl rfl⟩
  | binary hm =>
      rw [Command.standsAlone_of_not_mem_keywords (Command.not_mem_keywords hm), hm] at hw
      cases hw
  | loadAddress hv => simp [Command.standsAlone, hv] at hw
  | _ => simp [Command.standsAlone, keywords] at hw

theorem run_standing {lines : List String} (h : ({} : Draft).run lines = .ok d) {n : Nat} {line : String}
    (hl : lines[n]? = some line) (ha : Command.standsAlone (codeWords line) = true) :
    ∃ id action, StandsFor (codeWords line) action ∧ d.Standing id ⟨n, action⟩ := by
  refine step_induction (motive := fun lines d => ∀ n line, lines[n]? = some line →
    Command.standsAlone (codeWords line) = true →
      ∃ id action, StandsFor (codeWords line) action ∧ d.Standing id ⟨n, action⟩) ?_ ?_ h n line hl ha
  · simp
  · intro lines d last c d' hw ho ih hr hs n line hl ha
    by_cases hn : n < lines.length
    · rw [List.getElem?_append_left hn] at hl
      obtain ⟨id, action, hf, hd⟩ := ih n line hl ha
      exact ⟨id, action, hf, (hd.step hw hs).advance⟩
    · obtain ⟨hlt, rfl⟩ := List.getElem?_eq_some_iff.mp hl
      rw [List.length_append, List.length_singleton] at hlt
      obtain rfl : n = lines.length := by omega
      rw [List.getElem_concat_length rfl] at ha ⊢
      obtain ⟨id, action, hf, hd⟩ := exists_standing hr hs ha
      rw [ho] at hd
      exact ⟨id, action, hf, hd.advance⟩

end Draft

/-! ## Tallies of scripts -/

namespace Draft

theorem tally_perm_instructions {β : Type*} (f : Nat → Action → List β) (d : Draft) :
    (d.tally f).Perm (d.script.instructions.flatMap fun p => f p.1 p.2.action) := by
  have hl : ∀ l : List Nat, l.flatMap (fun id => (d.action? id).elim [] (f id)) =
      (l.filterMap fun id => d.emitted[id]?.map fun i => (id, i)).flatMap fun p => f p.1 p.2.action := by
    intro l
    induction l with
    | nil => rfl
    | cons id l ih =>
        rw [List.flatMap_cons, ih]
        cases hi : d.emitted[id]? with
        | none => simp [action?, hi]
        | some i => simp [action?, hi]
  have hrev := (List.reverse_perm d.live).flatMap_right fun id => (d.action? id).elim [] (f id)
  rw [hl d.live.reverse] at hrev
  exact hrev.symm

/-- An instruction that nothing can absorb is the only live one at its address. -/
theorem filter_addr_eq {id : Nat} {i : Instr} (h : d.WellFormed) (hs : d.Standing id i) :
    d.script.instructions.filter (·.2.addr = i.addr) = [(id, i)] := by
  have hmem : (id, i) ∈ d.script.instructions :=
    Script.mem_instructions.mpr ⟨List.mem_reverse.mpr hs.live, hs.found⟩
  obtain ⟨before, after, hsplit⟩ := List.append_of_mem hmem
  have hsorted := instructions_sorted h
  rw [hsplit, List.pairwise_append] at hsorted
  obtain ⟨_, hafter, hbefore⟩ := hsorted
  -- addresses increase strictly, so nothing on either side has the same one
  have hb : before.filter (·.2.addr = i.addr) = [] := by
    refine List.filter_eq_nil_iff.mpr fun p hp => ?_
    simpa using Nat.ne_of_lt (hbefore p hp (id, i) List.mem_cons_self).2
  have ha : after.filter (·.2.addr = i.addr) = [] := by
    refine List.filter_eq_nil_iff.mpr fun p hp => ?_
    simpa using Nat.ne_of_gt ((List.pairwise_cons.mp hafter).1 p hp).2
  rw [hsplit, List.filter_append, hb, List.filter_cons_of_pos (by simp), ha]
  rfl

end Draft

/-! ## Scripts -/

namespace Script

def nodes (s : Script) : List Node :=
  s.instructions.flatMap fun p => p.2.action.nodes

def callIds (s : Script) : List Nat :=
  (List.range s.emitted.size).filter fun id => (s.callee? id).isSome

theorem callIds_script (d : Draft) : d.script.callIds = d.allCalls := by
  refine List.filter_congr fun id _ => ?_
  show (d.script.callee? id).isSome = (d.emitted[id]?.map Instr.action).any Action.isCall
  simp only [callee?, Draft.script]
  cases d.emitted[id]?.map Instr.action with
  | none => rfl
  | some action => cases action <;> rfl

/-- A line that is left out of the pseudocode makes no call. -/
theorem flatMap_slots (s : Script) :
    s.slots.flatMap Slot.calls = s.instructions.flatMap fun p => p.2.action.calls p.1 := by
  rw [slots, List.flatMap_map]
  induction s.instructions with
  | nil => rfl
  | cons p l ih =>
      obtain ⟨id, addr, action⟩ := p
      cases action with
      | unknown m =>
          rw [List.filter_cons_of_neg (by simp [Action.isUnknown]), ih]
          rfl
      | _ =>
          rw [List.filter_cons_of_pos rfl, List.flatMap_cons, ih]
          rfl

/-- Nothing that the lines ask for is lost, and nothing is shown twice. -/
structure Conserves (lines : List String) (s : Script) : Prop where
  /-- The values that the lines push are the leaves of the expressions. -/
  leaves : (s.nodes.filter Node.isLeaf).Perm ((Ledger.ofLines lines).nodes.filter Node.isLeaf)
  binary : ∀ op, s.nodes.count (.binary op) =
    lines.countP fun line => Command.appliesBinary op (codeWords line)
  unary : ∀ op, s.nodes.count (.unary op) =
    lines.countP fun line => Command.appliesUnary op (codeWords line)
  /-- The slots make or refer to every call exactly once. -/
  calls : (s.slots.flatMap Slot.calls).Perm s.callIds
  /-- Every line that calls has one call, at its own address. -/
  callAddrs : s.callIds.map (fun id => s.emitted[id]?.map (·.addr)) = (callLines lines).map some
  /-- A line that no expression absorbs has one live instruction, at its own address. -/
  alone : ∀ n line, lines[n]? = some line → Command.standsAlone (codeWords line) = true →
    ∃ p, s.instructions.filter (·.2.addr = n) = [p] ∧ StandsFor (codeWords line) p.2.action

/-- The script of a disassembly conserves what its lines ask for. -/
theorem ofLines_conserves {lines : List String} (h : ofLines lines = .ok s) : s.Conserves lines := by
  obtain ⟨d, hd, hf⟩ := ofLines_eq_ok h
  obtain ⟨labels, _, rfl⟩ := Draft.finish_eq_ok hf
  have hw := Draft.run_wellFormed hd
  have hnodes : Script.nodes { d.script with labels } |>.Perm (Ledger.ofLines lines).nodes :=
    (Draft.tally_perm_instructions (fun _ a => a.nodes) d).symm.trans (Draft.run_agrees hd).nodes
  refine ⟨hnodes.filter _, fun op => ?_, fun op => ?_, ?_, ?_, fun n line hl ha => ?_⟩
  · rw [hnodes.count_eq, Ledger.count_nodes (Node.ofWords?_eq_binary op)]
  · rw [hnodes.count_eq, Ledger.count_nodes (Node.ofWords?_eq_unary op)]
  · have hc := (Draft.tally_perm_instructions Action.calls d).symm.trans (Draft.run_calls hd)
    rw [← callIds_script] at hc
    rw [flatMap_slots]
    exact hc
  · have hc := Draft.run_allCalls hd
    simp only [← callIds_script, Draft.getElem?_addrs] at hc
    exact hc
  · obtain ⟨id, action, hs, hd⟩ := Draft.run_standing hd hl ha
    exact ⟨_, Draft.filter_addr_eq hw hd, hs⟩

theorem ofLines_conserves_folded :
    ∃ s, ofLines ["PUSH 1", "CALL f", "PUSHRC 0", "ADD", "UNARY 0", "IFNOTGO 3", "POPRC 1"] = .ok s ∧
      s.Conserves ["PUSH 1", "CALL f", "PUSHRC 0", "ADD", "UNARY 0", "IFNOTGO 3", "POPRC 1"] ∧
      s.live = [4, 5] ∧ s.nodes = [.unary .not, .binary .add, .literal 1, .result 1] := by
  obtain ⟨s, hs, hrun⟩ : ∃ s, ofLines
      ["PUSH 1", "CALL f", "PUSHRC 0", "ADD", "UNARY 0", "IFNOTGO 3", "POPRC 1"] = .ok s ∧
        (s.live, s.nodes) = ([4, 5], [.unary .not, .binary .add, .literal 1, .result 1]) :=
    exists_ok (by decide +kernel)
  obtain ⟨hlive, hnodes⟩ := Prod.mk.inj hrun
  exact ⟨s, hs, ofLines_conserves hs, hlive, hnodes⟩

end Script

end Unstack
