import Unstack.Proofs.Draft.Dropped
import Unstack.Proofs.Script.Resolution

/-!
# What a line leaves alone

A line adds at most one instruction, at its own address. Of the earlier ones it changes at most one: a unary operator
wraps the value on top of the stack. It takes away the live instructions that it folds and no others (`Frame`). So an
instruction that is not pending stays as it is, whatever lines follow, and ending a draft changes no instruction
(`run_framed`).
-/

namespace Unstack

open Command (Reads codeWords number? emits takesResult)

namespace Command

/-- The operator that a line with these words applies in place. -/
def wraps? : List String → Option UnaryOp
  | [] => none
  | mnemonic :: params => if mnemonic = "UNARY" then (number? params).bind UnaryOp.ofOperand? else none

/-- How many values a line with these words folds. -/
def folds : List String → Nat
  | [] => 0
  | mnemonic :: _ =>
    if mnemonic = "IFNOTGO" then 1 else if (BinaryOp.ofMnemonic? mnemonic).isSome then 2 else 0

/-- How many values a command folds. -/
def operands : Command → Nat
  | binary _ => 2
  | branch _ => 1
  | _ => 0

/-- How many values a line with these words takes from the stack, or all of them if there are fewer. -/
def pops : List String → Nat
  | [] => 0
  | mnemonic :: params =>
    if mnemonic = "STACKRWD" then ((number? params).getD 0).toNat else folds (mnemonic :: params)

end Command

namespace Draft

open Command (wraps? folds pops)

variable {d d' : Draft} {ws : List String} {c : Command}

/-- The numbers of the live instructions, in the order of their addresses. -/
def order (d : Draft) : List Nat :=
  d.live.reverse

/-- The last live call. -/
def lastCall? (d : Draft) : Option Nat :=
  (d.order.filter fun id => (d.action? id).any Action.isCall).getLast?

/-- The live instructions that a line with these words takes away: the values on top that it folds, or the last live
call. -/
def absorbed (d : Draft) (ws : List String) : List Nat :=
  if takesResult ws then d.lastCall?.toList else d.pending.take (folds ws)

/-- What a line with these words does to the instructions of a draft. -/
structure Frame (d : Draft) (ws : List String) (d' : Draft) : Prop where
  /-- At most one instruction is new. -/
  size : d'.emitted.size = d.emitted.size + if emits ws then 1 else 0
  new : ∀ i, d'.emitted[d.emitted.size]? = some i → i.addr = d.offset
  kept : ∀ id i, d.emitted[id]? = some i → (wraps? ws = none ∨ d.pending.head? ≠ some id) → d'.emitted[id]? = some i
  wrapped : ∀ op, wraps? ws = some op → ∃ id addr value, d.pending.head? = some id ∧
    d.emitted[id]? = some ⟨addr, .assign value⟩ ∧ d'.emitted[id]? = some ⟨addr, .assign (.unary op value)⟩
  /-- The values that are folded are there, and so is the call whose result is taken. -/
  enough : folds ws ≤ d.pending.length ∧ (takesResult ws = true → d.lastCall?.isSome)
  absorbed : ∀ id ∈ d.absorbed ws, id ∈ d.order
  /-- The live instructions that are not taken away stay in their order, and a new one is the last. -/
  order : d'.order = d.order.filter (· ∉ d.absorbed ws) ++ if emits ws then [d.emitted.size] else []
  /-- Only a value or a call is taken away. -/
  standing : ∀ id i, id ∈ d.order → d.emitted[id]? = some i → i.action.isAssign = false → i.action.isCall = false →
    id ∈ d'.order
  stack : ∃ new, (∀ id ∈ new, id = d.emitted.size) ∧ d'.pending = new ++ d.pending.drop (pops ws)

/-! ## Words -/

theorem lastCall?_eq (d : Draft) : d.lastCall? = d.latestCall? := by
  rw [lastCall?, order, List.filter_reverse, List.getLast?_reverse, latestCall?_eq]
  rfl

theorem folds_of_reads (hr : Reads ws c) : folds ws = c.operands := by
  cases hr with
  | blank => rfl
  | binary hm =>
      rw [folds, if_neg, hm]
      · rfl
      · rintro rfl
        exact absurd (by decide) (Command.not_mem_keywords hm)
  | unknown hk hm =>
      rw [folds, if_neg, hm]
      · rfl
      · rintro rfl
        exact absurd (by decide) hk
  | _ => rfl

theorem pops_of_reads (hr : Reads ws c) (hc : ∀ n, c ≠ .drop n) : pops ws = c.operands := by
  have hne : ∀ {m : String} {ps : List String}, m ≠ "STACKRWD" → pops (m :: ps) = folds (m :: ps) := fun hm => if_neg hm
  rw [← folds_of_reads hr]
  cases hr with
  | blank | dropNone => rfl
  | drop hv => exact absurd rfl (hc _)
  | binary hm =>
      refine hne ?_
      rintro rfl
      exact absurd (by decide) (Command.not_mem_keywords hm)
  | unknown hk _ =>
      refine hne ?_
      rintro rfl
      exact absurd (by decide) hk
  | _ => exact hne (by decide)

theorem takesResult_of_reads (hr : Reads ws c) : takesResult ws = true ↔ c = .takeResult := by
  cases hr with
  | blank => simp [takesResult]
  | takeResult hv | saveAddress hv => simp [takesResult, hv]
  | binary hm => simp [Command.takesResult_of_not_mem_keywords (Command.not_mem_keywords hm)]
  | unknown hk _ => simp [Command.takesResult_of_not_mem_keywords hk]
  | _ => simp [takesResult]

theorem wraps?_of_reads (hr : Reads ws c) (op : UnaryOp) : wraps? ws = some op ↔ c = .unary op := by
  have hne : ∀ {m : String} {ps : List String} {c : Command}, m ≠ "UNARY" → (∀ op, c ≠ .unary op) →
      (wraps? (m :: ps) = some op ↔ c = .unary op) := by
    intro m ps c hm hc
    rw [wraps?, if_neg hm]
    exact iff_of_false (Option.some_ne_none op).symm (hc op)
  cases hr with
  | blank => exact iff_of_false (Option.some_ne_none op).symm (by simp)
  | unary hv hop =>
      rw [wraps?, if_pos rfl, hv, Option.bind_some, hop, Option.some.injEq, Command.unary.injEq]
  | binary hm =>
      refine hne ?_ (by simp)
      rintro rfl
      exact absurd (by decide) (Command.not_mem_keywords hm)
  | unknown hk _ =>
      refine hne ?_ (by simp)
      rintro rfl
      exact absurd (by decide) hk
  | _ => exact hne (by decide) (by simp)

/-! ## Wrapped values -/

theorem wrapped_step {op : UnaryOp} (h : d.WellFormed) (hs : Step d (.unary op) d') :
    ∃ id addr value, d.pending.head? = some id ∧ d.emitted[id]? = some ⟨addr, .assign value⟩ ∧
      d'.emitted[id]? = some ⟨addr, .assign (.unary op value)⟩ := by
  cases hs with
  | @unary _ id rest hp =>
      obtain ⟨⟨addr, _⟩, hi, ha⟩ := Option.map_eq_some_iff.mp (h.action?_pending (hp ▸ List.mem_cons_self))
      obtain rfl := ha
      refine ⟨id, addr, _, by rw [hp]; rfl, hi, ?_⟩
      simp only [applyUnary, Array.getElem?_modify, ↓reduceIte, hi, Option.map_some]

/-! ## Live instructions -/

/-- Instructions that are taken away leave the others in their order. -/
theorem order_consume (l : List Nat) (h : d.WellFormed) : (l.foldl consume d).order = d.order.filter (· ∉ l) := by
  induction l generalizing d with
  | nil => exact (List.filter_eq_self.mpr fun id _ => by simp).symm
  | cons id l ih =>
      have hid : (d.consume id).order = d.order.filter (· ≠ id) := by
        show (d.live.erase id).reverse = _
        rw [h.live_nodup.erase_eq_filter, order, ← List.filter_reverse]
        exact List.filter_congr fun j _ => Bool.eq_iff_iff.mpr (by simp)
      rw [List.foldl_cons, ih (h.consume id), hid, List.filter_filter]
      exact List.filter_congr fun j _ => Bool.eq_iff_iff.mpr (by simp [and_comm])

theorem absorbed_of_ne (hr : Reads ws c) (hc : c ≠ .takeResult) : d.absorbed ws = d.pending.take c.operands := by
  rw [absorbed, if_neg (mt (takesResult_of_reads hr).mp hc), folds_of_reads hr]

/-- The live instructions that stay keep their order, and a new one comes behind them. -/
theorem order_step (h : d.WellFormed) (hr : Reads ws c) (hs : Step d c d') :
    d'.order = d.order.filter (· ∉ d.absorbed ws) ++ if emits ws then [d.emitted.size] else [] := by
  have habsorbed := absorbed_of_ne (d := d) hr
  have hsame : d.order = d.order.filter (· ∉ []) ++ [] := by
    rw [← order_consume [] h]
    exact (List.append_nil _).symm
  have hnew : ∀ (l : List Nat) {d' : Draft}, d'.live = d.emitted.size :: (l.foldl consume d).live →
      d'.order = d.order.filter (· ∉ l) ++ [d.emitted.size] := by
    intro l d' hl
    rw [← order_consume l h, order, hl, List.reverse_cons]
    rfl
  cases hr with
  | blank | label _ _ | unary _ _ | dropNone | drop _ | forward _ =>
      cases hs
      rw [habsorbed (by simp)]
      exact hsame
  | push _ | pushArgument _ _ | pushLocal _ _ | call | jump _ _ =>
      cases hs
      rw [habsorbed (by simp)]
      exact hnew [] rfl
  | saveAddress hv | loadAddress hv =>
      cases hs
      rw [habsorbed (by simp), if_neg (by simp [emits, hv])]
      exact hsame
  | ret hv =>
      cases hs
      rw [habsorbed (by simp), if_pos (by simp [emits, hv])]
      exact hnew [] rfl
  | branch _ _ =>
      cases hs with
      | @branch _ id rest hp =>
          rw [habsorbed (by simp), hp]
          exact hnew [id] rfl
  | @takeResult ps hv =>
      cases hs with
      | @takeResult id hc =>
          have ha : d.absorbed ("PUSHRC" :: ps) = [id] := by
            rw [absorbed, if_pos (by simp [takesResult, hv]), lastCall?_eq, hc]
            rfl
          rw [h.absorb_eq_consume (mem_live_of_latestCall? hc).2, ha, if_pos (by simp [emits, hv])]
          exact hnew [id] rfl
  | binary hm =>
      cases hs with
      | @binary _ right left rest hp =>
          rw [habsorbed (by simp), hp, Command.emits_of_not_mem_keywords (Command.not_mem_keywords hm)]
          exact hnew [right, left] rfl
  | unknown hk _ =>
      cases hs
      rw [habsorbed (by simp), Command.emits_of_not_mem_keywords hk]
      exact hnew [] rfl

theorem mem_order_of_absorbed (h : d.WellFormed) {id : Nat} (hid : id ∈ d.absorbed ws) : id ∈ d.order := by
  rw [absorbed] at hid
  split at hid
  · rw [lastCall?_eq, Option.mem_toList] at hid
    exact List.mem_reverse.mpr (mem_live_of_latestCall? hid).1
  · exact List.mem_reverse.mpr (h.pending_live id (List.mem_of_mem_take hid))

theorem operands_le (hs : Step d c d') : c.operands ≤ d.pending.length := by
  cases hs with
  | binary hp | branch hp => simp [hp, Command.operands]
  | _ => exact Nat.zero_le _

/-! ## The stack -/

theorem stack_step (hr : Reads ws c) (hs : Step d c d') :
    ∃ new, (∀ id ∈ new, id = d.emitted.size) ∧ d'.pending = new ++ d.pending.drop (pops ws) := by
  have hpops := pops_of_reads hr
  cases hs with
  | skip | label | unary | call | jump | ret | unknown =>
      rw [hpops (by simp)]
      exact ⟨[], by simp, rfl⟩
  | push | pushArgument | pushLocal | takeResult =>
      rw [hpops (by simp)]
      exact ⟨[d.emitted.size], by simp, rfl⟩
  | binary hp =>
      rw [hpops (by simp), hp]
      exact ⟨[d.emitted.size], by simp, congrArg (_ :: ·) (pending_consume (pending_consume hp))⟩
  | branch hp =>
      rw [hpops (by simp), hp]
      exact ⟨[], by simp, pending_consume hp⟩
  | drop =>
      cases hr with
      | drop hv => exact ⟨[], by simp, by simp [pops, hv]⟩

/-! ## Lines -/

theorem Frame.advance (h : d.Frame ws d') : d.Frame ws d'.advance :=
  ⟨h.size, h.new, h.kept, h.wrapped, h.enough, h.absorbed, h.order, h.standing, h.stack⟩

theorem frame_step (h : d.WellFormed) (hr : Reads ws c) (hs : Step d c d') : d.Frame ws d' where
  size := by
    rw [← length_addrs, ← length_addrs, addrs_step hr hs, List.length_append]
    split <;> rfl
  new i hi := by
    have haddr : d'.addrs[d.addrs.length]? = some i.addr := by
      rw [length_addrs]
      exact getElem?_addrs_eq_some hi
    rw [addrs_step hr hs, List.getElem?_append_right (Nat.le_refl _), Nat.sub_self] at haddr
    split at haddr
    · exact (Option.some.inj haddr).symm
    · cases haddr
  kept id i hi hw := by
    refine getElem?_step hs hi ?_
    rintro op rfl
    exact hw.resolve_left (by rw [(wraps?_of_reads hr op).mpr rfl]; simp)
  wrapped op hop := by
    obtain rfl := (wraps?_of_reads hr op).mp hop
    exact wrapped_step h hs
  enough := by
    refine ⟨folds_of_reads hr ▸ operands_le hs, fun ht => ?_⟩
    obtain rfl := (takesResult_of_reads hr).mp ht
    cases hs with
    | takeResult hc => rw [lastCall?_eq, hc]; rfl
  absorbed id hid := mem_order_of_absorbed h hid
  order := order_step h hr hs
  standing id i hid hi ha hc :=
    List.mem_reverse.mpr (Standing.step ⟨List.mem_reverse.mp hid, hi, hc, ha⟩ h hs).live
  stack := stack_step hr hs

/-- Every line that can be carried out leaves the instructions alone but for what its frame says. An instruction that
is no longer pending never becomes pending again and never changes. Ending a draft changes no instruction, and only live
ones get the mark of a jump. -/
theorem run_framed {lines : List String} (h : ({} : Draft).run lines = .ok d) :
    (∀ line d', d.stepLine line = .ok d' → d.Frame (codeWords line) d') ∧
      (∀ more d', d.run more = .ok d' → ∀ id i, d.emitted[id]? = some i → id ∉ d.pending →
        d'.emitted[id]? = some i ∧ id ∉ d'.pending) ∧
      ∀ s, d.finish = .ok s → s.emitted = d.emitted ∧ s.live = d.order ∧
        ∀ id, s.landings.contains id = true → id ∈ d.order := by
  have hw := run_wellFormed h
  refine ⟨fun line d' hl => ?_, fun more d' hr id i hi hp => ?_, fun s hs => ?_⟩
  · obtain ⟨c, d₁, hr, hs, rfl⟩ := stepLine_eq_ok hl
    exact (frame_step hw hr hs).advance
  · have hfixed := Fixed.run ⟨hi, hp⟩ hr
    exact ⟨hfixed.instr, hfixed.not_pending⟩
  · obtain ⟨labels, _, rfl⟩ := finish_eq_ok hs
    exact ⟨rfl, rfl, fun id hid => (Script.mem_landings.mp hid).1⟩

theorem run_framed_folded :
    ∃ d, ({} : Draft).run ["PUSH 1", "PUSH 2", "ADD", "PUSH 3"] = .ok d ∧
      (∃ d', d.stepLine "ADD" = .ok d' ∧ d.Frame ["ADD"] d' ∧ d'.order = [4]) ∧
      (∃ d', d.run ["UNARY 0", "STACKRWD 2"] = .ok d' ∧
        d'.emitted[0]? = some ⟨0, .assign (.literal 1)⟩ ∧ 0 ∉ d'.pending) ∧
      ∃ s, d.finish = .ok s ∧ s.emitted = d.emitted ∧ s.live = d.order := by
  obtain ⟨d, hd, hview⟩ : ∃ d, ({} : Draft).run ["PUSH 1", "PUSH 2", "ADD", "PUSH 3"] = .ok d ∧
      ((d.emitted[0]?, d.pending), (d.stepLine "ADD").toOption.map order,
          (d.run ["UNARY 0", "STACKRWD 2"]).toOption.map pending, d.finish.toOption.map Script.live) =
        ((some ⟨0, .assign (.literal 1)⟩, [3, 2]), some [4], some [], some [2, 3]) := exists_ok (by decide +kernel)
  obtain ⟨hzero, hview⟩ := Prod.mk.inj hview
  obtain ⟨hinstr, hpending⟩ := Prod.mk.inj hzero
  obtain ⟨hadd, hview⟩ := Prod.mk.inj hview
  obtain ⟨hmore, hend⟩ := Prod.mk.inj hview
  obtain ⟨d₁, h₁, horder⟩ := exists_ok hadd
  obtain ⟨d₂, h₂, _⟩ := exists_ok hmore
  obtain ⟨s, hs, _⟩ := exists_ok hend
  obtain ⟨hframe, hfixed, hfinish⟩ := run_framed hd
  obtain ⟨hemitted, hlive, _⟩ := hfinish s hs
  exact ⟨d, hd, ⟨d₁, h₁, hframe "ADD" d₁ h₁, horder⟩,
    ⟨d₂, h₂, hfixed _ d₂ h₂ 0 _ hinstr (by simp [hpending])⟩, s, hs, hemitted, hlive⟩

end Draft

end Unstack
