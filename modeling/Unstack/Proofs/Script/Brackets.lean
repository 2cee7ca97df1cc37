import Unstack.Proofs.Draft.Frame
import Unstack.Proofs.Script.Conservation

/-!
# Calls and results match like brackets

A line that calls is an opening bracket, and a line that takes a result is a closing one. The draft takes the result of
the latest live call, which may stand far below other live instructions. That these are the calls of the brackets not
yet closed (`Draft.Bracketed`) makes it last in, first out: a result is that of the call whose line matches
(`ofLines_bracketed`).
-/

namespace Unstack

open Command (Reads codeWords takesResult)

namespace Brackets

def opens (line : String) : Bool :=
  (codeWords line).head? = some "CALL"

def closes (line : String) : Bool :=
  takesResult (codeWords line)

/-- No beginning of these lines closes more than it opens. -/
def Guarded (lines : List String) : Prop :=
  ∀ k, (lines.take k).countP closes ≤ (lines.take k).countP opens

structure Balanced (lines : List String) : Prop where
  guarded : Guarded lines
  even : lines.countP opens = lines.countP closes

/-- The line `i` is there and has the property. -/
def LineAt (p : String → Bool) (lines : List String) (i : Nat) : Prop :=
  ∃ line, lines[i]? = some line ∧ p line = true

/-- The line `i` opens what the line `j` closes. -/
structure Matches (lines : List String) (i j : Nat) : Prop where
  opens : LineAt opens lines i
  closes : LineAt closes lines j
  lt : i < j
  between : Balanced ((lines.take j).drop (i + 1))

/-- The lines that open and are not closed, the latest first. -/
def unclosed (lines : List String) : List Nat :=
  lines.zipIdx.foldl (fun l p => if opens p.1 then p.2 :: l else if closes p.1 then l.tail else l) []

variable {p : String → Bool} {lines : List String} {line : String} {i j : Nat}

theorem not_opens_of_closes (h : closes line = true) : ¬ opens line = true := by
  have hm : (codeWords line).head? = some "PUSHRC" := (of_decide_eq_true h).1
  simp [opens, hm]

theorem unclosed_append (lines : List String) (line : String) :
    unclosed (lines ++ [line]) =
      if opens line then lines.length :: unclosed lines
      else if closes line then (unclosed lines).tail
      else unclosed lines := by
  rw [unclosed, List.zipIdx_append, List.foldl_append, Nat.zero_add]
  rfl

/-! ## Guarded lines -/

theorem countP_concat (p : String → Bool) (lines : List String) (line : String) :
    (lines ++ [line]).countP p = lines.countP p + if p line then 1 else 0 := by
  rw [List.countP_append, List.countP_singleton]

theorem Guarded.counts (h : Guarded lines) : lines.countP closes ≤ lines.countP opens := by
  have hall := h lines.length
  rwa [List.take_length] at hall

theorem guarded_append :
    Guarded (lines ++ [line]) ↔
      Guarded lines ∧ (lines ++ [line]).countP closes ≤ (lines ++ [line]).countP opens := by
  constructor
  · refine fun h => ⟨fun k => ?_, h.counts⟩
    have hk := h (min k lines.length)
    rwa [List.take_append_of_le_length (Nat.min_le_right _ _), ← List.take_eq_take_min] at hk
  · rintro ⟨h, hall⟩ k
    rcases Nat.lt_or_ge lines.length k with hk | hk
    · rwa [List.take_of_length_le (by rw [List.length_append]; exact hk)]
    · rw [List.take_append_of_le_length hk]
      exact h k

/-- Lines are guarded if none of them closes right behind what is balanced. -/
theorem guarded_iff : Guarded lines ↔ ∀ k, LineAt closes lines k → ¬ Balanced (lines.take k) := by
  constructor
  · rintro h k ⟨line, hl, hc⟩ hb
    have hk := h (k + 1)
    rw [List.take_add_one, hl, Option.toList_some, countP_concat, countP_concat, if_pos hc,
      if_neg (not_opens_of_closes hc), hb.even] at hk
    exact Nat.not_succ_le_self _ hk
  · intro h
    induction lines using List.reverseRecOn with
    | nil => exact fun k => by simp
    | append_singleton lines line ih =>
        have hlines : Guarded lines := by
          refine ih fun k ⟨l, hl, hc⟩ => ?_
          have hlt := (List.getElem?_eq_some_iff.mp hl).1
          have hk := h k ⟨l, (List.getElem?_append_left hlt).trans hl, hc⟩
          rwa [List.take_append_of_le_length (Nat.le_of_lt hlt)] at hk
        have hcounts := hlines.counts
        refine guarded_append.mpr ⟨hlines, ?_⟩
        rw [countP_concat, countP_concat]
        by_cases hc : closes line = true
        · have hne := h lines.length ⟨line, List.getElem?_concat_length, hc⟩
          rw [List.take_left] at hne
          have hlt : lines.countP opens ≠ lines.countP closes := fun he => hne ⟨hlines, he⟩
          rw [if_pos hc]
          omega
        · rw [if_neg hc]
          omega

/-! ## Lines that are not closed -/

theorem LineAt.lt_length (h : LineAt p lines i) : i < lines.length := by
  obtain ⟨_, hl, _⟩ := h
  exact (List.getElem?_eq_some_iff.mp hl).1

theorem lineAt_append : LineAt p (lines ++ [line]) i ↔ LineAt p lines i ∨ i = lines.length ∧ p line = true := by
  simp only [LineAt, Draft.getElem?_concat_eq_some, or_and_right, exists_or]
  refine or_congr_right ?_
  simp only [and_assoc, exists_and_left, exists_eq_left']

/-- The line `i` opens, what follows it is guarded, and `n` more of these lines open than close. -/
def StaysOpen (lines : List String) (i n : Nat) : Prop :=
  LineAt opens lines i ∧ Guarded (lines.drop (i + 1)) ∧
    (lines.drop (i + 1)).countP opens = (lines.drop (i + 1)).countP closes + n

theorem staysOpen_append_of_lt {n : Nat} (hi : i < lines.length) :
    StaysOpen (lines ++ [line]) i n ↔
      if opens line then 0 < n ∧ StaysOpen lines i (n - 1)
      else if closes line then StaysOpen lines i (n + 1)
      else StaysOpen lines i n := by
  have hline : LineAt opens (lines ++ [line]) i ↔ LineAt opens lines i :=
    lineAt_append.trans (or_iff_left fun h => Nat.ne_of_lt hi h.1)
  have hle : i + 1 ≤ lines.length := hi
  rw [StaysOpen, hline, List.drop_append_of_le_length hle, guarded_append, countP_concat, countP_concat, and_assoc]
  by_cases ho : opens line = true
  · rw [if_pos ho, if_pos ho, if_neg fun hc => not_opens_of_closes hc ho]
    constructor
    · rintro ⟨hl, hg, -, he⟩
      have hcounts := hg.counts
      exact ⟨by omega, hl, hg, by omega⟩
    · rintro ⟨hn, hl, hg, he⟩
      exact ⟨hl, hg, by omega, by omega⟩
  · rw [if_neg ho, if_neg ho]
    by_cases hc : closes line = true
    · rw [if_pos hc, if_pos hc]
      exact and_congr_right fun _ => and_congr_right fun _ => by omega
    · rw [if_neg hc, if_neg hc]
      exact and_congr_right fun _ => and_congr_right fun _ => by omega

theorem staysOpen_append_of_le {n : Nat} (hi : lines.length ≤ i) :
    StaysOpen (lines ++ [line]) i n ↔ i = lines.length ∧ opens line = true ∧ n = 0 := by
  have hline : LineAt opens (lines ++ [line]) i ↔ i = lines.length ∧ opens line = true :=
    lineAt_append.trans (or_iff_right fun h => Nat.not_lt.mpr hi h.lt_length)
  have hdrop : (lines ++ [line]).drop (i + 1) = [] :=
    List.drop_of_length_le (by rw [List.length_append]; exact Nat.succ_le_succ hi)
  have hguarded : Guarded [] := fun k => by simp
  rw [StaysOpen, hline, hdrop, and_iff_right hguarded, and_assoc, List.countP_nil, List.countP_nil, Nat.zero_add]
  exact and_congr_right fun _ => and_congr_right fun _ => eq_comm

/-- As many lines that are not closed follow one of them as more lines open than close behind it. -/
theorem getElem?_unclosed (n : Nat) : (unclosed lines)[n]? = some i ↔ StaysOpen lines i n := by
  induction lines using List.reverseRecOn generalizing n with
  | nil => simp [unclosed, StaysOpen, LineAt]
  | append_singleton lines line ih =>
      rw [unclosed_append]
      rcases Nat.lt_or_ge i lines.length with hi | hi
      · rw [staysOpen_append_of_lt hi]
        split
        · cases n with
          | zero => simp [Nat.ne_of_gt hi]
          | succ n => rw [List.getElem?_cons_succ, ih, and_iff_right n.succ_pos, Nat.add_sub_cancel]
        · split
          · rw [List.getElem?_tail, ih]
          · exact ih n
      · have hold : ∀ n : Nat, (unclosed lines)[n]? ≠ some i := fun n hn =>
          Nat.not_lt.mpr hi ((ih n).mp hn).1.lt_length
        rw [staysOpen_append_of_le hi]
        by_cases ho : opens line = true
        · rw [if_pos ho]
          cases n with
          | zero => simp [ho, eq_comm]
          | succ n => exact iff_of_false (hold n) fun h => Nat.succ_ne_zero n h.2.2
        · rw [if_neg ho]
          refine iff_of_false ?_ fun h => ho h.2.1
          split
          · rw [List.getElem?_tail]
            exact hold _
          · exact hold n

/-! ## Matching lines -/

theorem lineAt_take (hij : i < j) : LineAt p (lines.take j) i ↔ LineAt p lines i := by
  simp only [LineAt, List.getElem?_take_of_lt hij]

/-- A line closes the latest line that opens and is not closed before it. -/
theorem matches_iff : Matches lines i j ↔ LineAt closes lines j ∧ (unclosed (lines.take j)).head? = some i := by
  rw [List.head?_eq_getElem?, getElem?_unclosed]
  constructor
  · rintro ⟨ho, hc, hij, hb⟩
    exact ⟨hc, (lineAt_take hij).mpr ho, hb.guarded, hb.even⟩
  · rintro ⟨hc, ho, hg, he⟩
    have hij : i < j := Nat.lt_of_lt_of_le ho.lt_length (List.length_take_le _ _)
    exact ⟨(lineAt_take hij).mp ho, hc, hij, hg, he⟩

theorem lineAt_drop (k : Nat) : LineAt p (lines.drop i) k ↔ LineAt p lines (i + k) := by
  simp only [LineAt, List.getElem?_drop]

theorem mem_unclosed (h : LineAt opens lines i) : i ∈ unclosed lines ↔ ∀ j, ¬ Matches lines i j := by
  have hguarded : i ∈ unclosed lines ↔ Guarded (lines.drop (i + 1)) := by
    rw [List.mem_iff_getElem?]
    constructor
    · rintro ⟨n, hn⟩
      exact ((getElem?_unclosed n).mp hn).2.1
    · intro hg
      have hcounts := hg.counts
      exact ⟨_, (getElem?_unclosed _).mpr ⟨h, hg, (Nat.add_sub_of_le hcounts).symm⟩⟩
  rw [hguarded, guarded_iff]
  constructor
  · rintro hk j ⟨-, hc, hij, hb⟩
    obtain ⟨k, rfl⟩ := Nat.exists_eq_add_of_le hij
    rw [← List.take_drop] at hb
    exact hk k ((lineAt_drop k).mpr hc) hb
  · intro hj k hc hb
    rw [List.take_drop] at hb
    exact hj (i + 1 + k) ⟨h, (lineAt_drop k).mp hc, by omega, hb⟩

theorem Matches.not_lt {j' : Nat} (h : Matches lines i j) (h' : Matches lines i j') : ¬ j < j' := by
  intro hlt
  obtain ⟨k, rfl⟩ := Nat.exists_eq_add_of_le h.lt
  refine guarded_iff.mp h'.between.guarded k ?_ ?_
  · exact (lineAt_drop k).mpr ((lineAt_take hlt).mpr h.closes)
  · rw [List.take_drop, List.take_take, Nat.min_eq_left (Nat.le_of_lt hlt)]
    exact h.between

/-- A line that opens is closed only once. -/
theorem Matches.unique {j' : Nat} (h : Matches lines i j) (h' : Matches lines i j') : j = j' :=
  Nat.le_antisymm (Nat.le_of_not_lt (h'.not_lt h)) (Nat.le_of_not_lt (h.not_lt h'))

end Brackets

/-! ## Drafts -/

namespace Draft

open Brackets

variable {d d' : Draft} {lines : List String}

/-- The live calls are those of the lines that are not closed, and a result that was taken is that of the line that was
closed with it. -/
structure Bracketed (d : Draft) (lines : List String) : Prop where
  waiting : d.liveCalls.map (d.addrs[·]?) = (unclosed lines).map some
  taken : ∀ j, LineAt closes lines j → ∃ (id : Nat) (value : Expr) (c i : Nat),
    d.emitted[id]? = some ⟨j, .assign value⟩ ∧ value.calls = [c] ∧ d.addrs[c]? = some i ∧
    (unclosed (lines.take j)).head? = some i

/-- A value keeps the results that it uses. -/
theorem calls_assign_step {id addr : Nat} {value : Expr} {c : Command} (h : d.WellFormed) (hs : Step d c d')
    (hi : d.emitted[id]? = some ⟨addr, .assign value⟩) :
    ∃ value', d'.emitted[id]? = some ⟨addr, .assign value'⟩ ∧ value'.calls = value.calls := by
  by_cases hw : ∃ op, c = .unary op ∧ d.pending.head? = some id
  · obtain ⟨op, rfl, hid⟩ := hw
    obtain ⟨top, _, _, htop, hold, hnew⟩ := wrapped_step h hs
    obtain rfl := Option.some.inj (htop.symm.trans hid)
    cases hold.symm.trans hi
    exact ⟨_, hnew, rfl⟩
  · exact ⟨value, getElem?_step hs hi fun op hc hid => hw ⟨op, hc, hid⟩, rfl⟩

theorem Bracketed.step {line : String} {c : Command} (hb : d.Bracketed lines) (h : d.WellFormed)
    (ho : d.offset = lines.length) (hr : Reads (codeWords line) c) (hs : Step d c d') :
    d'.advance.Bracketed (lines ++ [line]) where
  waiting := by
    have hold : d.liveCalls.map (d'.addrs[·]?) = (unclosed lines).map some := by
      rw [← hb.waiting]
      exact List.map_congr_left fun id hid =>
        getElem?_addrs_step_of_lt hr hs (h.live_lt id (mem_liveCalls.mp hid).1)
    show d'.liveCalls.map (d'.addrs[·]?) = _
    rw [liveCalls_step h hr hs, unclosed_append]
    by_cases hc : opens line = true
    · have hcall : (codeWords line).head? = some "CALL" := of_decide_eq_true hc
      have hnew := getElem?_addrs_step_size hr hs (Command.emits_of_call hcall)
      rw [if_pos hcall, if_pos hc, List.map_cons, List.map_cons, hold, hnew, ho]
    · rw [if_neg fun hcall => hc (decide_eq_true hcall), if_neg hc, closes]
      split
      · rw [List.map_tail, List.map_tail, hold]
      · exact hold
  taken := by
    have haddrs : ∀ {id addr : Nat}, d.addrs[id]? = some addr → d'.advance.addrs[id]? = some addr := fun ha =>
      (getElem?_addrs_step_of_lt hr hs (by
        rw [← length_addrs]
        exact (List.getElem?_eq_some_iff.mp ha).1)).trans ha
    intro j hj
    rcases lineAt_append.mp hj with hj | ⟨rfl, hc⟩
    · obtain ⟨id, value, c, i, hi, hcalls, haddr, hhead⟩ := hb.taken j hj
      obtain ⟨value', hi', hcalls'⟩ := calls_assign_step h hs hi
      refine ⟨id, value', c, i, hi', hcalls'.trans hcalls, haddrs haddr, ?_⟩
      rwa [List.take_append_of_le_length (Nat.le_of_lt hj.lt_length)]
    · obtain rfl := (takesResult_of_reads hr).mp hc
      obtain ⟨id, hid⟩ : ∃ id, d.latestCall? = some id := by
        cases hs with
        | takeResult hid => exact ⟨_, hid⟩
      have hhead := congrArg List.head? hb.waiting
      rw [List.head?_map, ← latestCall?_eq, hid, List.head?_map, Option.map_some] at hhead
      obtain ⟨i, hhead, haddr⟩ := Option.map_eq_some_iff.mp hhead.symm
      refine ⟨d.emitted.size, .result id, id, i, ?_, rfl, haddrs haddr.symm, ?_⟩
      · cases hs with
        | takeResult hid' =>
            obtain rfl := Option.some.inj (hid'.symm.trans hid)
            rw [← ho]
            exact getElem?_emit_size (d.absorb _) _
      · rw [List.take_left, hhead]

theorem run_bracketed (h : ({} : Draft).run lines = .ok d) : d.Bracketed lines := by
  refine step_induction (motive := fun lines d => d.Bracketed lines) ⟨rfl, fun j hj => ?_⟩ ?_ h
  · exact absurd hj.lt_length (Nat.not_lt_zero j)
  · intro lines d line c d' hw ho ih hr hs
    exact ih.step hw ho hr hs

/-- A value uses the result of a call if their lines match. -/
theorem Bracketed.calls_iff (hb : d.Bracketed lines) (hw : d.WellFormed) {i j c id : Nat} {name : String}
    {value : Expr} (hj : LineAt closes lines j) (hc : d.emitted[c]? = some ⟨i, .call name⟩)
    (hid : d.emitted[id]? = some ⟨j, .assign value⟩) : c ∈ value.calls ↔ Matches lines i j := by
  obtain ⟨id', value', c', i', hid', hcalls, hc', hhead⟩ := hb.taken j hj
  obtain rfl := hw.id_eq_of_addr (a := j) (getElem?_addrs_eq_some hid) (getElem?_addrs_eq_some hid')
  cases hid.symm.trans hid'
  rw [hcalls, List.mem_singleton, matches_iff, and_iff_right hj, hhead, Option.some.injEq]
  constructor
  · rintro rfl
    exact Option.some.inj (hc'.symm.trans (getElem?_addrs_eq_some hc))
  · rintro rfl
    exact hw.id_eq_of_addr (getElem?_addrs_eq_some hc) hc'

/-- A call is live as long as no line matches its own. -/
theorem Bracketed.live_iff (hb : d.Bracketed lines) (hw : d.WellFormed) {i c : Nat} {name : String}
    (hi : LineAt opens lines i) (hc : d.emitted[c]? = some ⟨i, .call name⟩) :
    c ∈ d.live ↔ ∀ j, ¬ Matches lines i j := by
  have hcall : d.IsCall c := ⟨name, congrArg (Option.map Instr.action) hc⟩
  have hwaiting : i ∈ unclosed lines ↔ ∃ c' ∈ d.liveCalls, d.addrs[c']? = some i := by
    rw [← List.mem_map, hb.waiting]
    simp
  rw [← mem_unclosed hi, hwaiting]
  constructor
  · exact fun hlive => ⟨c, mem_liveCalls.mpr ⟨hlive, hcall⟩, getElem?_addrs_eq_some hc⟩
  · rintro ⟨c', hc', hi'⟩
    obtain rfl := hw.id_eq_of_addr hi' (getElem?_addrs_eq_some hc)
    exact (mem_liveCalls.mp hc').1

theorem Bracketed.existsUnique {j : Nat} (hb : d.Bracketed lines) (hj : LineAt closes lines j) :
    ∃! i, Matches lines i j := by
  obtain ⟨_, _, _, i, _, _, _, hhead⟩ := hb.taken j hj
  refine ⟨i, matches_iff.mpr ⟨hj, hhead⟩, fun i' hi' => ?_⟩
  exact Option.some.inj ((matches_iff.mp hi').2.symm.trans hhead)

theorem call_of_lineAt (h : ({} : Draft).run lines = .ok d) {i : Nat} (hi : LineAt opens lines i) :
    ∃ (c : Nat) (name : String), d.emitted[c]? = some ⟨i, .call name⟩ := by
  obtain ⟨line, hl, ho⟩ := hi
  have hmem : some i ∈ (callLines lines).map some := by
    refine List.mem_map_of_mem (List.mem_map.mpr ⟨(line, i), List.mem_filter.mpr ⟨?_, ho⟩, rfl⟩)
    exact List.mem_zipIdx_iff_getElem?.mpr hl
  rw [← run_allCalls h] at hmem
  obtain ⟨c, hc, haddr⟩ := List.mem_map.mp hmem
  obtain ⟨name, hn⟩ := any_isCall_iff.mp (List.mem_filter.mp hc).2
  obtain ⟨⟨addr, action⟩, he, ha⟩ := Option.map_eq_some_iff.mp hn
  obtain rfl := ha
  obtain rfl := Option.some.inj ((getElem?_addrs_eq_some he).symm.trans haddr)
  exact ⟨c, name, he⟩

end Draft

namespace Script

open Brackets

variable {s : Script} {lines : List String}

/-- Results go to the calls whose lines match. -/
structure Bracketed (s : Script) (lines : List String) : Prop where
  call : ∀ i, LineAt opens lines i → ∃ (c : Nat) (name : String), s.emitted[c]? = some ⟨i, .call name⟩
  taken : ∀ j, LineAt closes lines j → ∃ (id : Nat) (value : Expr), s.emitted[id]? = some ⟨j, .assign value⟩
  refers : ∀ (i j c id : Nat) (name : String) (value : Expr), LineAt opens lines i → LineAt closes lines j →
    s.emitted[c]? = some ⟨i, .call name⟩ → s.emitted[id]? = some ⟨j, .assign value⟩ →
    (c ∈ value.calls ↔ Matches lines i j)
  live : ∀ (i c : Nat) (name : String), LineAt opens lines i → s.emitted[c]? = some ⟨i, .call name⟩ →
    (c ∈ s.live ↔ ∀ j, ¬ Matches lines i j)
  /-- Every line that closes matches one line that opens, and every line that opens at most one that closes. -/
  closed : ∀ j, LineAt closes lines j → ∃! i, Matches lines i j
  unique : ∀ i j j', Matches lines i j → Matches lines i j' → j = j'

theorem ofLines_bracketed (h : ofLines lines = .ok s) : s.Bracketed lines := by
  obtain ⟨d, hd, hf⟩ := ofLines_eq_ok h
  obtain ⟨labels, _, rfl⟩ := Draft.finish_eq_ok hf
  have hw := Draft.run_wellFormed hd
  have hb := Draft.run_bracketed hd
  exact
    { call := fun i => Draft.call_of_lineAt hd
      taken := fun j hj => by
        obtain ⟨id, value, _, _, hid, _⟩ := hb.taken j hj
        exact ⟨id, value, hid⟩
      refers := fun _ _ _ _ _ _ _ hj hc hid => hb.calls_iff hw hj hc hid
      live := fun _ _ _ hi hc => List.mem_reverse.trans (hb.live_iff hw hi hc)
      closed := fun _ => hb.existsUnique
      unique := fun _ _ _ => Matches.unique }

theorem ofLines_bracketed_nested :
    ∃ s, ofLines ["CALL f", "PUSH 1", "CALL g", "PUSHRC 0", "ADD", "PUSHRC 0", "CALL h"] = .ok s ∧
      s.Bracketed ["CALL f", "PUSH 1", "CALL g", "PUSHRC 0", "ADD", "PUSHRC 0", "CALL h"] ∧
      s.emitted[5]? = some ⟨5, .assign (.result 0)⟩ ∧ s.live = [4, 5, 6] := by
  obtain ⟨s, hs, hview⟩ : ∃ s,
      ofLines ["CALL f", "PUSH 1", "CALL g", "PUSHRC 0", "ADD", "PUSHRC 0", "CALL h"] = .ok s ∧
        (s.emitted[5]?, s.live) = (some ⟨5, .assign (.result 0)⟩, [4, 5, 6]) := exists_ok (by decide +kernel)
  obtain ⟨hresult, hlive⟩ := Prod.mk.inj hview
  exact ⟨s, hs, ofLines_bracketed hs, hresult, hlive⟩

end Script

end Unstack
