import Unstack.Builtin.Standard
import Unstack.Proofs.Draft.Dropped
import Unstack.Proofs.Pseudocode.Blocks
import Unstack.Proofs.Pseudocode.Naming

/-!
# The arguments of a call

Values that are pushed right before a call and dropped right behind it are its arguments. They keep their slots, one
right after the other, and get their names from whatever the slots behind them call, the nearest slot first
(`ofLines_arguments`). That is the call itself if its own slot comes next, but not if its result is used in a slot
further on (`ofLines_argument_unnamed`).
-/

namespace Unstack

/-! ## Sorted lists -/

theorem filter_lt_append_cons_filter {α : Type} {f : α → Nat} {l : List α}
    (h : l.Pairwise fun a b => f a < f b) {a : α} (ha : a ∈ l) :
    l = l.filter (f · < f a) ++ a :: l.filter (f a + 1 ≤ f ·) ∧
      l.filter (f a ≤ f ·) = a :: l.filter (f a + 1 ≤ f ·) := by
  induction l with
  | nil => cases ha
  | cons b l ih =>
      obtain ⟨hb, hl⟩ := List.pairwise_cons.mp h
      rcases List.mem_cons.mp ha with rfl | ha
      · have hlt : l.filter (f · < f a) = [] :=
          List.filter_eq_nil_iff.mpr fun c hc => by simpa using Nat.le_of_lt (hb c hc)
        have hle : l.filter (f a ≤ f ·) = l :=
          List.filter_eq_self.mpr fun c hc => by simpa using Nat.le_of_lt (hb c hc)
        have hgt : l.filter (f a + 1 ≤ f ·) = l :=
          List.filter_eq_self.mpr fun c hc => decide_eq_true (hb c hc)
        simp only [List.filter_cons, Nat.lt_irrefl, Nat.le_refl, Nat.not_succ_le_self, decide_true, decide_false,
          ↓reduceIte, Bool.false_eq_true, hlt, hle, hgt, List.nil_append, and_self]
      · obtain ⟨hsplit, hfrom⟩ := ih hl ha
        have hba := hb a ha
        have hle : ¬ f a ≤ f b := Nat.not_le.mpr hba
        have hgt : ¬ f a + 1 ≤ f b := fun hc => hle (Nat.le_of_succ_le hc)
        simp only [List.filter_cons, hba, hle, hgt, decide_true, decide_false, ↓reduceIte, Bool.false_eq_true,
          List.cons_append]
        exact ⟨congrArg (b :: ·) hsplit, hfrom⟩

namespace Script

variable {s : Script} {reg : Registry}

/-! ## Slots by address -/

def slotsBefore (s : Script) (addr : Nat) : List Slot :=
  s.slots.filter (·.instr.addr < addr)

def slotsFrom (s : Script) (addr : Nat) : List Slot :=
  s.slots.filter (addr ≤ ·.instr.addr)

variable (hs : s.instructions.Pairwise fun p q => p.1 < q.1 ∧ p.2.addr < q.2.addr)

include hs in
theorem slots_eq {slot : Slot} (h : slot ∈ s.slots) :
    s.slots = s.slotsBefore slot.instr.addr ++ slot :: s.slotsFrom (slot.instr.addr + 1) :=
  (filter_lt_append_cons_filter ((slots_sorted hs).imp And.right) h).1

include hs in
theorem slotsFrom_eq {slot : Slot} (h : slot ∈ s.slots) :
    s.slotsFrom slot.instr.addr = slot :: s.slotsFrom (slot.instr.addr + 1) :=
  (filter_lt_append_cons_filter ((slots_sorted hs).imp And.right) h).2

/-! ## The name that an assignment shows -/

/-- The assignment at the address shows under the name. -/
def ShowsNamed (s : Script) (reg : Registry) (addr : Nat) (name : String) : Prop :=
  ∃ p ∈ s.instructions, ∃ b ∈ s.blocks reg, ∃ value, p.2 = ⟨addr, .assign value⟩ ∧ b.addr = addr ∧
    b.phrase = some ⟨name ++ " := " ++ value.render (s.resultText reg), none⟩

/-- The name that slots leave to a value that is slot number `number` and stands so many slots in front of them. -/
def nameLeft (s : Script) (reg : Registry) (number distance : Nat) (l : List Slot) : String :=
  (Binding.namesGiven s reg distance l).getLast?.getD s!"var_{number}"

theorem length_slotsBefore (addr : Nat) :
    ((s.instructions.filter (·.2.addr < addr)).filter fun p => !p.2.action.isUnknown).length =
      (s.slotsBefore addr).length := by
  rw [slotsBefore, slots, List.filter_map, List.length_map, List.filter_comm]
  rfl

include hs in
theorem showsNamed_iff (reg : Registry) {slot : Slot} {value : Expr} (h : slot ∈ s.slots)
    (ha : slot.instr.action = .assign value) (name : String) :
    s.ShowsNamed reg slot.instr.addr name ↔
      name = s.nameLeft reg (s.slotsBefore slot.instr.addr).length 0 (s.slotsFrom (slot.instr.addr + 1)) := by
  obtain ⟨hp, _⟩ := mem_slots.mp h
  have hassign : slot.instr.action.isAssign = true := by rw [ha]; rfl
  have haddrs := hs.imp And.right
  obtain ⟨b, hb, haddr, hphrase⟩ :=
    s.exists_block_of_append reg (filter_lt_append_cons_filter (f := fun p => p.2.addr) haddrs hp).1
  rw [length_slotsBefore, bindings_get? (slots_eq hs h) (nodup_slots hs) hassign, ha] at hphrase
  have hinstr : slot.instr = ⟨slot.instr.addr, .assign value⟩ := by rw [← ha]
  constructor
  · rintro ⟨q, hq, b', hb', value', hi, haddr', hphrase'⟩
    have hq : q = (slot.id, slot.instr) := eq_of_key_eq (f := fun p => p.2.addr) haddrs hq hp (congrArg Instr.addr hi)
    have hb' : b' = b := eq_of_key_eq (f := Block.addr) (s.blocks_sorted reg hs) hb' hb (haddr'.trans haddr.symm)
    subst hq hb'
    rw [hinstr, Instr.mk.injEq, Action.assign.injEq] at hi
    rw [hphrase', hi.2] at hphrase
    have htext := congrArg Phrase.text (Option.some.inj hphrase)
    exact (String.append_left_inj _).mp ((String.append_left_inj _).mp htext)
  · rintro rfl
    exact ⟨_, hp, b, hb, value, hinstr, haddr, hphrase⟩

/-! ## The values of a call -/

include hs in
/-- Values make no calls, so what is named behind them is named across them. -/
theorem namesGiven_values (reg : Registry) {base count : Nat}
    (h : ∀ j < count, ∃ slot ∈ s.slots, ∃ v, slot.instr = ⟨base + j, .assign (.literal v)⟩) (distance : Nat) {i : Nat}
    (hi : i ≤ count) :
    Binding.namesGiven s reg distance (s.slotsFrom (base + (count - i))) =
      Binding.namesGiven s reg (distance + i) (s.slotsFrom (base + count)) := by
  induction i generalizing distance with
  | zero => rfl
  | succ i ih =>
      obtain ⟨slot, hslot, v, hi'⟩ := h (count - (i + 1)) (by omega)
      have hfrom := slotsFrom_eq hs hslot
      have hnext : base + (count - (i + 1)) + 1 = base + (count - i) := by omega
      rw [hi'] at hfrom
      simp only [hnext] at hfrom
      have hcalls : Binding.knownCalls s reg slot = [] := by
        simp only [Binding.knownCalls, Slot.calls, hi']
        rfl
      rw [hfrom, Binding.namesGiven, hcalls, List.flatMap_nil, List.nil_append,
        ih (distance + 1) (Nat.le_of_succ_le hi)]
      congr 1
      omega

theorem ofLines_values {front pushes back : List String} {call drop name : String}
    (h : ofLines (front ++ pushes ++ call :: drop :: back) = .ok s)
    (hp : ∀ line ∈ pushes, ∃ v, Command.ofLine line = .ok (.push v)) (hc : Command.ofLine call = .ok (.call name))
    (hd : Command.ofLine drop = .ok (.drop pushes.length)) :
    (∀ j < pushes.length, ∃ slot ∈ s.slots, ∃ v, slot.instr = ⟨front.length + j, .assign (.literal v)⟩) ∧
      ∃ c : Nat, s.emitted[c]? = some ⟨front.length + pushes.length, .call name⟩ := by
  obtain ⟨d, hrun, hf⟩ := ofLines_eq_ok h
  obtain ⟨labels, _, rfl⟩ := Draft.finish_eq_ok hf
  have hlines : front ++ pushes ++ call :: drop :: back = front ++ (pushes ++ [call, drop] ++ back) := by simp
  rw [hlines, Draft.run_append] at hrun
  obtain ⟨d₀, hfront, hrun⟩ := bind_eq_ok hrun
  obtain ⟨d₁, hcall, hdropped, hfixed⟩ := Draft.run_call (Draft.run_wellFormed hfront) hp hc hd
  rw [Draft.run_append, hcall] at hrun
  rw [Draft.run_offset hfront] at hdropped hfixed
  refine ⟨fun j hj => ?_, _, (hfixed.run hrun).instr⟩
  obtain ⟨v, hv⟩ := hdropped j hj
  have hv := hv.run hrun
  exact ⟨⟨_, _⟩, mem_slots.mpr ⟨mem_instructions.mpr ⟨List.mem_reverse.mpr hv.live, hv.instr⟩, rfl⟩, v, rfl⟩

theorem getLast?_namesGiven {slot : Slot} {rest : List Slot} {c i : Nat} {name : String} {sig : Signature}
    {param : Param} (hlast : slot.calls.getLast? = some c) (hc : s.callee? c = some name)
    (hsig : reg.lookup name = some sig) (hparam : sig.params[i]? = some param)
    (hrest : Binding.namesGiven s reg (i + 1) rest = []) :
    (Binding.namesGiven s reg i (slot :: rest)).getLast? = some param.name := by
  obtain ⟨calls, hcalls⟩ := List.getLast?_eq_some_iff.mp hlast
  rw [Binding.namesGiven, hrest, List.append_nil, Binding.knownCalls, hcalls, List.filterMap_append,
    List.flatMap_append]
  simp [hc, hsig, hparam]

/-- The values of a call show under the names that the slots behind them leave. These are the names of its parameters
if the call is the last one that the next slot makes and no call further on reaches back. The next slot is the call's
own if its result is not taken. -/
theorem ofLines_arguments {front pushes back : List String} {call drop name : String} {sig : Signature}
    (h : ofLines (front ++ pushes ++ call :: drop :: back) = .ok s)
    (hp : ∀ line ∈ pushes, ∃ v, Command.ofLine line = .ok (.push v)) (hc : Command.ofLine call = .ok (.call name))
    (hd : Command.ofLine drop = .ok (.drop pushes.length)) (hsig : reg.lookup name = some sig)
    (hk : sig.params.length = pushes.length) :
    ∃ c : Nat, s.emitted[c]? = some ⟨front.length + pushes.length, .call name⟩ ∧
      (c ∈ s.live → (s.slotsFrom (front.length + pushes.length)).head?.map Slot.calls = some [c]) ∧
      ∀ i (hi : i < sig.params.length),
        (s.ShowsNamed reg (front.length + pushes.length - (i + 1)) sig.params[i].name ↔
          sig.params[i].name = s.nameLeft reg (s.slotsBefore (front.length + pushes.length - (i + 1))).length i
            (s.slotsFrom (front.length + pushes.length))) ∧
        ∀ slot rest, s.slotsFrom (front.length + pushes.length) = slot :: rest → slot.calls.getLast? = some c →
          Binding.namesGiven s reg (i + 1) rest = [] →
          s.ShowsNamed reg (front.length + pushes.length - (i + 1)) sig.params[i].name := by
  obtain ⟨hvalues, c, hcall⟩ := ofLines_values h hp hc hd
  have hs := ofLines_sorted h
  refine ⟨c, hcall, fun hlive => ?_, fun i hi => ?_⟩
  · have hslot : ⟨c, _⟩ ∈ s.slots := mem_slots.mpr ⟨mem_instructions.mpr ⟨hlive, hcall⟩, rfl⟩
    rw [slotsFrom_eq hs hslot]
    rfl
  obtain ⟨slot, hslot, v, hinstr⟩ := hvalues (pushes.length - (i + 1)) (by omega)
  have hiff := showsNamed_iff hs reg hslot (congrArg Instr.action hinstr) sig.params[i].name
  have haddr : front.length + (pushes.length - (i + 1)) = front.length + pushes.length - (i + 1) := by omega
  have hnext : front.length + pushes.length - (i + 1) + 1 = front.length + (pushes.length - i) := by omega
  have hgiven := namesGiven_values hs reg hvalues 0 (i := i) (by omega)
  rw [Nat.zero_add] at hgiven
  rw [hinstr] at hiff
  simp only [haddr, hnext, nameLeft, hgiven] at hiff
  refine ⟨hiff, fun slot rest hfrom hlast hrest => hiff.mpr ?_⟩
  have hcallee : s.callee? c = some name := by simp only [callee?, hcall, Option.map_some]
  rw [hfrom, getLast?_namesGiven hlast hcallee hsig (List.getElem?_eq_getElem hi) hrest]
  rfl

theorem ofLines_arguments_setGameFlag :
    ∃ s, ofLines ["PUSH 5", "PUSH 7", "CALL setGameFlag", "STACKRWD 2"] = .ok s ∧
      s.ShowsNamed .standard 1 "flag" ∧ s.ShowsNamed .standard 0 "val" := by
  obtain ⟨s, hs, hleft⟩ : ∃ s, ofLines ["PUSH 5", "PUSH 7", "CALL setGameFlag", "STACKRWD 2"] = .ok s ∧
      (s.nameLeft .standard (s.slotsBefore 1).length 0 (s.slotsFrom 2),
        s.nameLeft .standard (s.slotsBefore 0).length 1 (s.slotsFrom 2)) = ("flag", "val") :=
    exists_ok (by decide +kernel)
  obtain ⟨hflag, hval⟩ := Prod.mk.inj hleft
  have hpushes : ∀ line ∈ ["PUSH 5", "PUSH 7"], ∃ v, Command.ofLine line = .ok (.push v) := by
    simp only [List.forall_mem_cons, List.not_mem_nil, false_imp_iff, implies_true, and_true]
    exact ⟨⟨5, by decide⟩, 7, by decide⟩
  have hsig : Registry.standard.lookup "setGameFlag" = some ⟨[⟨"flag", .numeric⟩, ⟨"val", .numeric⟩]⟩ := by
    decide +kernel
  obtain ⟨c, _, _, hnames⟩ := @ofLines_arguments s .standard [] ["PUSH 5", "PUSH 7"] [] "CALL setGameFlag" "STACKRWD 2"
    "setGameFlag" _ hs hpushes (by decide) (by decide) hsig rfl
  exact ⟨s, hs, (hnames 0 (by decide)).1.mpr hflag.symm, (hnames 1 (by decide)).1.mpr hval.symm⟩

/-- The first of two calls whose results are added has its value named by the slots behind the second one's value. -/
theorem ofLines_argument_unnamed :
    ∃ s, ofLines ["PUSH 1", "CALL testGameFlag", "STACKRWD 1", "PUSHRC 0", "PUSH 2", "CALL testGameFlag", "STACKRWD 1",
        "PUSHRC 0", "ADD"] = .ok s ∧
      Registry.standard.lookup "testGameFlag" = some ⟨[⟨"flag", .numeric⟩]⟩ ∧
      ¬ s.ShowsNamed .standard 0 "flag" := by
  obtain ⟨s, hs, hview⟩ : ∃ s, ofLines ["PUSH 1", "CALL testGameFlag", "STACKRWD 1", "PUSHRC 0", "PUSH 2",
      "CALL testGameFlag", "STACKRWD 1", "PUSHRC 0", "ADD"] = .ok s ∧
      (s.slots.head?, s.nameLeft .standard (s.slotsBefore 0).length 0 (s.slotsFrom 1)) =
        (some ⟨0, ⟨0, .assign (.literal 1)⟩⟩, "var_0") :=
    exists_ok (by decide +kernel)
  obtain ⟨hfirst, hleft⟩ := Prod.mk.inj hview
  refine ⟨s, hs, by decide +kernel, fun hnamed => ?_⟩
  have hname := (showsNamed_iff (ofLines_sorted hs) _ (List.mem_of_mem_head? hfirst) rfl "flag").mp hnamed
  rw [hleft] at hname
  exact absurd hname (by decide)

end Script

end Unstack
