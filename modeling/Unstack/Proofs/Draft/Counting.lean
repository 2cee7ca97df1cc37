import Unstack.Proofs.Command.Checks
import Unstack.Proofs.Draft.Outline
import Unstack.Proofs.Table

/-!
# Drafts in numbers

`Counts` is what the checks of a line look at of the lines before it: a few numbers, and no expression. A draft
that agrees with its counts fails on a line exactly when they refuse it (`Counted.raised_step`), and they keep
agreeing (`Counted.step`).
-/

namespace Unstack

open Command (Reads codeWords number? keywords emits takesResult)

variable {d d' : Draft}

/-! ## Counting -/

/-- What the lines read so far come to. -/
structure Counts where
  pending : Nat := 0
  /-- How many calls there are whose results were not taken. -/
  calls : Nat := 0
  /-- The labels, each with the address after its line, the latest first. -/
  labels : List (Nat × Nat) := []
  /-- The address of the last line that emits an instruction. -/
  lastEmit : Option Nat := none
  lines : Nat := 0
deriving DecidableEq

namespace Counts

/-- How many values are pending after a line with these words. -/
def pendingAfter (pending : Nat) : List String → Nat
  | [] => pending
  | mnemonic :: params =>
    match mnemonic with
    | "PUSH" | "PUSHARG" | "PUSHVAR" => pending + 1
    | "PUSHRC" => if number? params = some 0 then pending + 1 else pending
    | "IFNOTGO" => pending - 1
    | "STACKRWD" => pending - ((number? params).getD 0).toNat
    | _ => if (BinaryOp.ofMnemonic? mnemonic).isSome then pending - 1 else pending

def next (k : Counts) (ws : List String) : Counts where
  pending := pendingAfter k.pending ws
  calls :=
    if ws.head? = some "CALL" then k.calls + 1
    else if takesResult ws then k.calls - 1
    else k.calls
  labels :=
    if ws.head? = some "LABEL" then (((number? ws.tail).getD 0).toNat, k.lines + 1) :: k.labels
    else k.labels
  lastEmit := if emits ws then some k.lines else k.lastEmit
  lines := k.lines + 1

/-- What a line with these words has to meet besides the checks of its operands. -/
def checks (k : Counts) : List String → List Check
  | [] => []
  | mnemonic :: params =>
    let v := (number? params).getD 0
    match mnemonic with
    | "LABEL" => [⟨v.toNat ∉ k.labels.map (·.1), .labelRedefined v.toNat⟩]
    | "UNARY" | "IFNOTGO" => [⟨1 ≤ k.pending, .stackUnderflow mnemonic 1 k.pending⟩]
    | "PUSHRC" => [⟨v = 0 → 1 ≤ k.calls, .missingCall⟩]
    | _ =>
      if (BinaryOp.ofMnemonic? mnemonic).isSome then
        [⟨2 ≤ k.pending, .stackUnderflow mnemonic 2 k.pending⟩]
      else []

theorem pendingAfter_of_not_mem_keywords {pending : Nat} {m : String} {ps : List String}
    (h : m ∉ keywords) :
    pendingAfter pending (m :: ps) =
      if (BinaryOp.ofMnemonic? m).isSome then pending - 1 else pending := by
  simp only [pendingAfter]
  split <;> first | rfl | exact absurd (by decide) h

theorem checks_of_not_mem_keywords {k : Counts} {m : String} {ps : List String} (h : m ∉ keywords) :
    k.checks (m :: ps) =
      if (BinaryOp.ofMnemonic? m).isSome then [⟨2 ≤ k.pending, .stackUnderflow m 2 k.pending⟩] else [] := by
  simp only [checks]
  split <;> first | rfl | exact absurd (by decide) h

end Counts

namespace Draft

structure Counted (d : Draft) (k : Counts) : Prop where
  pending : d.pending.length = k.pending
  calls : d.liveCalls.length = k.calls
  labels : ∀ e, e ∈ d.labels.entries ↔ e ∈ k.labels
  /-- The latest live instruction is that of the last line that emits one. -/
  lastEmit : d.live.head?.bind (d.addrs[·]?) = k.lastEmit
  offset : d.offset = k.lines

namespace Counted

variable {k : Counts}

/-! ## Failing steps -/

theorem contains_label {id : Nat} (hd : d.Counted k) :
    d.labels.contains id = decide (id ∈ k.labels.map (·.1)) := by
  rw [Bool.eq_iff_iff, Table.contains_iff, decide_eq_true_iff, List.mem_map]
  constructor
  · rintro ⟨addr, he⟩
    exact ⟨_, (hd.labels _).mp he, rfl⟩
  · rintro ⟨e, he, rfl⟩
    exact ⟨_, (hd.labels e).mpr he⟩

/-- A step fails with the fault of the first check that the line fails. -/
theorem raised_step {ws : List String} {c : Command} (hd : d.Counted k) (hr : Reads ws c) :
    raised (d.step c) = firstFault (k.checks ws) := by
  have hpending := hd.pending
  have hcalls := hd.calls
  cases hr with
  | label hv hid =>
      rw [Command.eq_toNat_of_index? hid]
      simp only [step, Counts.checks, hv, Option.getD_some, firstFault, hd.contains_label, decide_not]
      cases decide (_ ∈ k.labels.map (·.1)) <;> rfl
  | unary _ _ | branch _ _ =>
      cases hp : d.pending with
      | nil =>
          rw [hp] at hpending
          simp [step, Counts.checks, firstFault, raised, hp, ← hpending]
      | cons id rest =>
          rw [hp] at hpending
          simp [step, Counts.checks, firstFault, raised, hp, ← hpending]
  | takeResult hv =>
      cases hc : d.liveCalls with
      | nil =>
          rw [hc] at hcalls
          simp [step, Counts.checks, firstFault, raised, latestCall?_eq, hv, hc, ← hcalls]
      | cons id rest =>
          rw [hc] at hcalls
          simp [step, Counts.checks, firstFault, raised, latestCall?_eq, hv, hc, ← hcalls]
  | saveAddress hv => simp [step, Counts.checks, firstFault, raised, hv]
  | @binary m _ op hm =>
      have hk := Command.not_mem_keywords hm
      rw [Counts.checks_of_not_mem_keywords hk, hm, Command.ofMnemonic?_eq_some.mp hm]
      rcases hp : d.pending with _ | ⟨right, _ | ⟨left, rest⟩⟩
      all_goals
        rw [hp] at hpending
        simp [step, firstFault, raised, hp, ← hpending]
  | unknown hk hm =>
      rw [Counts.checks_of_not_mem_keywords hk, hm]
      rfl
  | _ => rfl

end Counted

/-! ## Steps -/

theorem length_pending_step {ws : List String} {c : Command} (hr : Reads ws c) (hs : Step d c d') :
    d'.pending.length = Counts.pendingAfter d.pending.length ws := by
  cases hr with
  | blank | label _ _ | call | jump _ _ | loadAddress _ | ret _ | forward _ => cases hs; rfl
  | push _ | pushArgument _ _ | pushLocal _ _ => cases hs; rfl
  | unary _ _ => cases hs; rfl
  | branch _ _ =>
      cases hs with
      | @branch _ id rest hp =>
          show (d.consume id).pending.length = _
          rw [pending_consume hp, hp]
          rfl
  | takeResult hv =>
      cases hs
      simp [Counts.pendingAfter, hv, push, absorb]
  | saveAddress hv =>
      cases hs
      simp [Counts.pendingAfter, hv]
  | dropNone => cases hs; rfl
  | drop hv =>
      cases hs
      simp [Counts.pendingAfter, hv]
  | binary hm =>
      rw [Counts.pendingAfter_of_not_mem_keywords (Command.not_mem_keywords hm), hm]
      cases hs with
      | @binary _ right left rest hp =>
          show (_ :: ((d.consume right).consume left).pending).length = _
          rw [pending_consume (pending_consume hp), hp]
          rfl
  | unknown hk hm =>
      rw [Counts.pendingAfter_of_not_mem_keywords hk, hm]
      cases hs
      rfl

/-- A line that emits an instruction leaves it live, as the latest. -/
theorem head_live_step {ws : List String} {c : Command} (hr : Reads ws c) (hs : Step d c d') :
    d'.live.head? = if emits ws then some d.emitted.size else d.live.head? := by
  cases hr with
  | saveAddress hv | loadAddress hv =>
      cases hs
      simp [emits, hv]
  | takeResult hv | ret hv =>
      cases hs
      simp [emits, hv, push, emit, absorb]
  | binary hm =>
      rw [Command.emits_of_not_mem_keywords (Command.not_mem_keywords hm)]
      cases hs
      rfl
  | unknown hk _ =>
      rw [Command.emits_of_not_mem_keywords hk]
      cases hs
      rfl
  | _ => cases hs; rfl

/-- A line that defines a label adds its entry. -/
theorem labels_step {ws : List String} {c : Command} (hr : Reads ws c) (hs : Step d c d') :
    d'.labels.entries.Perm ((if ws.head? = some "LABEL" then [(((number? ws.tail).getD 0).toNat, d.offset + 1)]
      else []) ++ d.labels.entries) := by
  cases hr with
  | @label _ _ id hv hid =>
      cases hs with
      | label hn =>
          rw [List.head?_cons, if_pos rfl, List.tail_cons, hv, Option.getD_some, ← Command.eq_toNat_of_index? hid]
          exact Table.insert_perm hn
  | binary hm =>
      rw [if_neg (Command.head?_ne_of_not_mem_keywords (Command.not_mem_keywords hm) (by decide))]
      cases hs
      exact .refl _
  | unknown hk _ =>
      rw [if_neg (Command.head?_ne_of_not_mem_keywords hk (by decide))]
      cases hs
      exact .refl _
  | _ => cases hs; exact .refl _

theorem mem_labels_step {ws : List String} {c : Command} (hr : Reads ws c) (hs : Step d c d')
    (e : Nat × Nat) :
    e ∈ d'.labels.entries ↔
      (ws.head? = some "LABEL" ∧ e = (((number? ws.tail).getD 0).toNat, d.offset + 1)) ∨
        e ∈ d.labels.entries := by
  rw [(labels_step hr hs).mem_iff, List.mem_append]
  split <;> simp [*]

namespace Counted

variable {k : Counts}

theorem step {ws : List String} {c : Command} (hd : d.Counted k) (h : d.WellFormed) (hr : Reads ws c)
    (hs : Step d c d') : d'.advance.Counted (k.next ws) where
  pending := by
    show d'.pending.length = _
    rw [Counts.next, ← hd.pending]
    exact length_pending_step hr hs
  calls := by
    show d'.liveCalls.length = _
    rw [liveCalls_step h hr hs, Counts.next, ← hd.calls]
    split
    · rfl
    · split
      · exact List.length_tail
      · rfl
  labels := by
    intro e
    show e ∈ d'.labels.entries ↔ _
    rw [mem_labels_step hr hs, hd.labels, hd.offset, Counts.next]
    by_cases hl : ws.head? = some "LABEL"
    · rw [if_pos hl, List.mem_cons, and_iff_right hl]
    · rw [if_neg hl, or_iff_right fun hn => hl hn.1]
  lastEmit := by
    show d'.live.head?.bind (d'.addrs[·]?) = _
    rw [head_live_step hr hs, addrs_step hr hs, Counts.next, hd.offset]
    split
    · rw [Option.bind_some, ← length_addrs, List.getElem?_concat_length]
    · rw [List.append_nil, hd.lastEmit]
  offset := by
    show d'.offset + 1 = _
    rw [hs.offset_eq, hd.offset]
    rfl

end Counted

end Draft

end Unstack
