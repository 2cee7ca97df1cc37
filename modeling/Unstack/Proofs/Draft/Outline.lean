import Unstack.Proofs.Draft.Tally

/-!
# What the words of a line do to the outline of a draft

The addresses of a draft, its calls and those whose results were not taken follow from the words of the lines
alone: they do not depend on the expressions that were lifted.
-/

namespace Unstack.Draft

open Command (Reads emits takesResult)

variable {d d' : Draft}

/-- A line adds its address if it emits an instruction. -/
theorem addrs_step {ws : List String} {c : Command} (hr : Reads ws c) (hs : Step d c d') :
    d'.addrs = d.addrs ++ if emits ws then [d.offset] else [] := by
  cases hr with
  | blank | dropNone | forward _ | label _ _ | drop _ =>
      cases hs
      exact (List.append_nil _).symm
  | saveAddress hv | loadAddress hv =>
      cases hs
      simp [emits, hv]
  | push _ | pushArgument _ _ | pushLocal _ _ => cases hs; exact addrs_push d _
  | unary _ _ =>
      cases hs
      rw [addrs_applyUnary]
      exact (List.append_nil _).symm
  | call => cases hs; exact addrs_emit d _
  | jump _ _ => cases hs; exact addrs_jump d _ _
  | branch _ _ => cases hs; exact addrs_jump _ _ _
  | takeResult hv =>
      cases hs
      simp only [emits, hv, decide_true, ↓reduceIte]
      exact addrs_push _ _
  | ret hv =>
      cases hs
      simp only [emits, hv, decide_true, ↓reduceIte]
      exact addrs_emit d _
  | binary hm =>
      cases hs
      rw [Command.emits_of_not_mem_keywords (Command.not_mem_keywords hm)]
      exact addrs_push _ _
  | unknown hk _ =>
      cases hs
      rw [Command.emits_of_not_mem_keywords hk]
      exact addrs_emit d _

theorem getElem?_addrs_step_of_lt {ws : List String} {c : Command} {id : Nat} (hr : Reads ws c) (hs : Step d c d')
    (hid : id < d.emitted.size) : d'.addrs[id]? = d.addrs[id]? := by
  rw [addrs_step hr hs, List.getElem?_append_left (by rwa [length_addrs])]

theorem getElem?_addrs_step_size {ws : List String} {c : Command} (hr : Reads ws c) (hs : Step d c d')
    (he : emits ws = true) : d'.addrs[d.emitted.size]? = some d.offset := by
  rw [addrs_step hr hs, if_pos he, ← length_addrs, List.getElem?_concat_length]

/-- A call waits for its result to be taken, and the latest one that waits is taken first. -/
theorem liveCalls_step {ws : List String} {c : Command} (h : d.WellFormed) (hr : Reads ws c)
    (hs : Step d c d') :
    d'.liveCalls =
      if ws.head? = some "CALL" then d.emitted.size :: d.liveCalls
      else if takesResult ws then d.liveCalls.tail
      else d.liveCalls := by
  have hemit : ∀ action : Action, action.isCall = false → (d.emit action).liveCalls = d.liveCalls := by
    intro action ha
    rw [h.liveCalls_emit, ha]
    rfl
  cases hr with
  | blank | dropNone | forward _ | label _ _ | drop _ | loadAddress _ => cases hs; rfl
  | saveAddress hv => cases hs; simp [takesResult, hv]
  | push _ | pushArgument _ _ | pushLocal _ _ =>
      cases hs
      exact h.liveCalls_push _
  | unary _ _ =>
      cases hs with
      | unary hp => exact h.liveCalls_applyUnary (by simp [hp])
  | call =>
      cases hs
      rw [h.liveCalls_emit]
      rfl
  | @jump _ _ target _ _ => cases hs; exact hemit _ rfl
  | @branch _ _ target _ _ =>
      cases hs with
      | @branch _ id rest hp =>
          have he := (h.consume id).liveCalls_emit (.branch target (d.valueOf id))
          exact he.trans (h.liveCalls_consume (by simp [hp]))
  | takeResult hv =>
      cases hs with
      | @takeResult id hc =>
          rw [h.absorb_eq_consume (mem_live_of_latestCall? hc).2, (h.consume id).liveCalls_push,
            WellFormed.liveCalls_takeResult hc]
          simp [takesResult, hv]
  | ret _ => cases hs; exact hemit _ rfl
  | binary hm =>
      have hk := Command.not_mem_keywords hm
      rw [if_neg (Command.head?_ne_of_not_mem_keywords hk (by decide)),
        Command.takesResult_of_not_mem_keywords hk]
      cases hs with
      | @binary _ right left rest hp =>
          have hl : left ∈ (d.consume right).pending := by simp [pending_consume hp]
          rw [((h.consume right).consume left).liveCalls_push, (h.consume right).liveCalls_consume hl,
            h.liveCalls_consume (by simp [hp])]
          rfl
  | unknown hk _ =>
      rw [if_neg (Command.head?_ne_of_not_mem_keywords hk (by decide)),
        Command.takesResult_of_not_mem_keywords hk]
      cases hs
      exact hemit _ rfl

theorem allCalls_step {ws : List String} {c : Command} (h : d.WellFormed) (hr : Reads ws c)
    (hs : Step d c d') :
    d'.allCalls = d.allCalls ++ if ws.head? = some "CALL" then [d.emitted.size] else [] := by
  have hnone : ∀ {d' : Draft}, d'.allCalls = d.allCalls → d'.allCalls = d.allCalls ++ [] :=
    fun he => he.trans (List.append_nil _).symm
  cases hr with
  | blank | saveAddress _ | loadAddress _ | dropNone | forward _ | label _ _ | drop _ => cases hs; exact hnone rfl
  | push _ | pushArgument _ _ | pushLocal _ _ =>
      cases hs
      exact hnone (allCalls_emit_of_not_isCall d rfl)
  | unary _ _ =>
      cases hs with
      | unary hp => exact hnone (allCalls_applyUnary h (by simp [hp]))
  | call => cases hs; exact allCalls_emit d _
  | jump _ _ | ret _ => cases hs; exact hnone (allCalls_emit_of_not_isCall d rfl)
  | branch _ _ => cases hs; exact hnone (allCalls_emit_of_not_isCall (d.consume _) rfl)
  | takeResult _ => cases hs; exact hnone (allCalls_emit_of_not_isCall (d.absorb _) rfl)
  | binary hm =>
      rw [if_neg (Command.head?_ne_of_not_mem_keywords (Command.not_mem_keywords hm) (by decide))]
      cases hs
      exact hnone (allCalls_emit_of_not_isCall ((d.consume _).consume _) rfl)
  | unknown hk _ =>
      rw [if_neg (Command.head?_ne_of_not_mem_keywords hk (by decide))]
      cases hs
      exact hnone (allCalls_emit_of_not_isCall d rfl)

end Unstack.Draft
