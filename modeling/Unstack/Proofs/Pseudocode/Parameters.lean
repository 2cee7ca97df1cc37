import Mathlib.Data.List.Forall2
import Unstack.Builtin.Standard
import Unstack.Proofs.Pseudocode.Naming
import Unstack.Proofs.Pseudocode.Texts

/-!
# The names of slots

Slots count the instructions that show, and so do the texts of pseudocode: the text with the number of a slot is the
slot's own (`forall₂_texts`). A slot that holds a value has its name from the last slot with a call that has parameters
enough to reach back to it, and from the last such call there (`ofLines_named`).
-/

namespace Unstack

namespace Script

variable {s : Script} {reg : Registry} {slot : Slot}

/-! ## Calls that reach back -/

/-- The signature of the function that a call calls, if the registry knows it. -/
def signature? (s : Script) (reg : Registry) (call : Nat) : Option Signature :=
  (s.callee? call).bind reg.lookup

/-- The calls of a slot that have at least so many parameters, in the order in which its text shows them. -/
def callsWith (s : Script) (reg : Registry) (count : Nat) (slot : Slot) : List Nat :=
  slot.calls.filter fun c => (s.signature? reg c).any (count ≤ ·.params.length)

/-- No call behind slot number `q` has parameters enough to reach back to slot number `n`. -/
def Silent (s : Script) (reg : Registry) (n q : Nat) : Prop :=
  ∀ p slot, q < p → s.slots[p]? = some slot → s.callsWith reg (p - n) slot = []

/-- The name of slot number `n` if it holds a value. -/
inductive Named (s : Script) (reg : Registry) (n : Nat) : String → Prop where
  | unnamed (h : s.Silent reg n n) : Named s reg n s!"var_{n}"
  | parameter {q slot c sig param} (hlt : n < q) (hslot : s.slots[q]? = some slot) (hsilent : s.Silent reg n q)
      (hlast : (s.callsWith reg (q - n) slot).getLast? = some c) (hsig : s.signature? reg c = some sig)
      (hparam : sig.params[q - n - 1]? = some param) : Named s reg n param.name

theorem Named.unique {n : Nat} {name name' : String} (h : s.Named reg n name) (h' : s.Named reg n name') :
    name = name' := by
  have hne : ∀ {q slot c}, s.slots[q]? = some slot → (s.callsWith reg (q - n) slot).getLast? = some c →
      ∀ {p}, s.Silent reg n p → q ≤ p := by
    intro q slot c hslot hlast p hsilent
    refine Nat.le_of_not_lt fun hlt => ?_
    rw [hsilent q slot hlt hslot] at hlast
    cases hlast
  cases h with
  | unnamed h =>
      cases h' with
      | unnamed => rfl
      | parameter hlt hslot _ hlast => exact absurd hlt (Nat.not_lt.mpr (hne hslot hlast h))
  | parameter hlt hslot hsilent hlast hsig hparam =>
      cases h' with
      | unnamed h' => exact absurd hlt (Nat.not_lt.mpr (hne hslot hlast h'))
      | parameter _ hslot' hsilent' hlast' hsig' hparam' =>
          obtain rfl := Nat.le_antisymm (hne hslot hlast hsilent') (hne hslot' hlast' hsilent)
          obtain rfl := Option.some.inj (hslot.symm.trans hslot')
          obtain rfl := Option.some.inj (hlast.symm.trans hlast')
          obtain rfl := Option.some.inj (hsig.symm.trans hsig')
          rw [Option.some.inj (hparam.symm.trans hparam')]

/-! ## The last name that is given -/

theorem getLast?_filterMap_eq_some {α β : Type} {f : α → Option β} {l : List α} {b : β}
    (h : (l.filterMap f).getLast? = some b) :
    ∃ a, (l.filter fun a => (f a).isSome).getLast? = some a ∧ f a = some b := by
  rw [List.getLast?_filterMap] at h
  obtain ⟨behind, a, front, hl, ha, hnone⟩ := List.findSome?_eq_some_iff.mp h
  refine ⟨a, ?_, ha⟩
  rw [List.getLast?_filter, List.find?_eq_some_iff_append]
  exact ⟨by rw [ha]; rfl, behind, front, hl, fun x hx => by rw [hnone x hx]; rfl⟩

/-- The parameter of a call that lines up with a value that has so many slots between it and the call. -/
def param? (s : Script) (reg : Registry) (distance call : Nat) : Option Param :=
  (s.signature? reg call).bind (·.params[distance]?)

theorem callsWith_eq (distance : Nat) (slot : Slot) :
    s.callsWith reg (distance + 1) slot = slot.calls.filter fun c => (s.param? reg distance c).isSome := by
  refine List.filter_congr fun c _ => ?_
  rw [param?]
  cases s.signature? reg c with
  | none => rfl
  | some sig =>
      rw [Option.any_some, Option.bind_some]
      grind

theorem names_eq (distance : Nat) (slot : Slot) :
    (Binding.knownCalls s reg slot).flatMap (fun c => (c.2.params[distance]?.map (·.name)).toList) =
      (slot.calls.filterMap (s.param? reg distance)).map (·.name) := by
  rw [← List.filterMap_eq_flatMap_toList, Binding.knownCalls, List.filterMap_filterMap, List.map_filterMap]
  refine List.filterMap_congr fun c _ => ?_
  rw [param?, signature?]
  cases s.callee? c with
  | none => rfl
  | some name =>
      simp only [Option.bind_some]
      cases reg.lookup name <;> rfl

theorem namesGiven_cons (distance : Nat) (slot : Slot) (rest : List Slot) :
    Binding.namesGiven s reg distance (slot :: rest) =
      (slot.calls.filterMap (s.param? reg distance)).map (·.name) ++ Binding.namesGiven s reg (distance + 1) rest := by
  rw [Binding.namesGiven, names_eq]

theorem namesGiven_eq_nil {distance : Nat} {l : List Slot} : Binding.namesGiven s reg distance l = [] ↔
    ∀ (j : Nat) slot, l[j]? = some slot → s.callsWith reg (distance + j + 1) slot = [] := by
  induction l generalizing distance with
  | nil => simp [Binding.namesGiven]
  | cons slot l ih =>
      have hfirst : slot.calls.filterMap (s.param? reg distance) = [] ↔ s.callsWith reg (distance + 1) slot = [] := by
        rw [callsWith_eq, List.filterMap_eq_nil_iff, List.filter_eq_nil_iff]
        simp
      rw [namesGiven_cons, List.append_eq_nil_iff, List.map_eq_nil_iff, hfirst, ih]
      constructor
      · rintro ⟨hslot, hl⟩ j q hq
        cases j with
        | zero =>
            cases hq
            exact hslot
        | succ j =>
            have hnext := hl j q hq
            rwa [Nat.add_right_comm distance 1 j] at hnext
      · intro h
        refine ⟨h 0 slot rfl, fun j q hq => ?_⟩
        rw [Nat.add_right_comm distance 1 j]
        exact h (j + 1) q hq

theorem exists_of_getLast?_namesGiven {distance : Nat} {l : List Slot} {name : String}
    (h : (Binding.namesGiven s reg distance l).getLast? = some name) :
    ∃ (j : Nat) (slot : Slot) (c : Nat) (sig : Signature) (param : Param), l[j]? = some slot ∧
      (s.callsWith reg (distance + j + 1) slot).getLast? = some c ∧ s.signature? reg c = some sig ∧
      sig.params[distance + j]? = some param ∧ name = param.name ∧
      ∀ (p : Nat) slot, j < p → l[p]? = some slot → s.callsWith reg (distance + p + 1) slot = [] := by
  induction l generalizing distance with
  | nil => cases h
  | cons slot l ih =>
      rw [namesGiven_cons, List.getLast?_append] at h
      cases hrest : (Binding.namesGiven s reg (distance + 1) l).getLast? with
      | some name' =>
          rw [hrest] at h
          obtain rfl := Option.some.inj h
          obtain ⟨j, q, c, sig, param, hq, hlast, hsig, hparam, hname, hsilent⟩ := ih hrest
          simp only [Nat.add_right_comm distance 1] at hlast hparam hsilent
          refine ⟨j + 1, q, c, sig, param, hq, hlast, hsig, hparam, hname, fun p q hp hq => ?_⟩
          obtain ⟨p, rfl⟩ := Nat.exists_eq_add_one.mpr (Nat.zero_lt_of_lt hp)
          exact hsilent p q (Nat.lt_of_add_lt_add_right hp) hq
      | none =>
          rw [hrest] at h
          have hsilent := namesGiven_eq_nil.mp (List.getLast?_eq_none_iff.mp hrest)
          obtain ⟨param, hlast, rfl⟩ := Option.map_eq_some_iff.mp (List.getLast?_map.symm.trans h)
          obtain ⟨c, hlast, hparam⟩ := getLast?_filterMap_eq_some hlast
          obtain ⟨sig, hsig, hparam⟩ := Option.bind_eq_some_iff.mp hparam
          rw [← callsWith_eq] at hlast
          refine ⟨0, slot, c, sig, param, rfl, hlast, hsig, hparam, rfl, fun p q hp hq => ?_⟩
          obtain ⟨p, rfl⟩ := Nat.exists_eq_add_one.mpr hp
          have hq := hsilent p q hq
          rwa [Nat.add_right_comm distance 1] at hq

/-! ## Texts by slot -/

theorem isSome_phrase (s : Script) (reg : Registry) (name? : Option String) (n : Nat) (action : Action) :
    (s.phrase reg name? n action).isSome = !action.isUnknown := by
  cases action <;> rfl

/-- The line is the text of the slot with this number. -/
def ShowsSlot (s : Script) (reg : Registry) (p : Slot × Nat) (line : String) : Prop :=
  ∃ text, s.actionText reg ((s.bindings reg).get? p.1.id) p.2 p.1.instr.action = some text ∧ Indents text line

theorem forall₂_showsSlot_blocksFrom (indented : Bool) (n : Nat) (l : List (Nat × Instr)) :
    List.Forall₂ (s.ShowsSlot reg) (((l.filter fun p => !p.2.action.isUnknown).map fun p => ⟨p.1, p.2⟩).zipIdx n)
      ((s.blocksFrom reg (s.bindings reg) s.landings indented n l).filterMap Block.line?) := by
  induction l generalizing indented n with
  | nil => exact .nil
  | cons p l ih =>
      obtain ⟨id, i⟩ := p
      have hshown := s.isSome_phrase reg ((s.bindings reg).get? id) n i.action
      cases hu : i.action.isUnknown with
      | true =>
          rw [hu, Bool.not_true, Option.isSome_eq_false_iff, Option.isNone_iff_eq_none] at hshown
          rw [blocksFrom, List.filterMap_cons_none (by rw [Block.line?, hshown]; rfl),
            List.filter_cons_of_neg (by simp [hu]), hu]
          exact ih _ _
      | false =>
          rw [hu, Bool.not_false, Option.isSome_iff_exists] at hshown
          obtain ⟨phrase, hphrase⟩ := hshown
          obtain ⟨line, hline, hindents⟩ := line?_of_phrase
            (b := ⟨i.addr, s.landings.contains id, indented || s.landings.contains id,
              s.phrase reg ((s.bindings reg).get? id) n i.action, s.labelsAt i.addr⟩) hphrase
          rw [blocksFrom, List.filterMap_cons_some hline, List.filter_cons_of_pos (by simp [hu]), List.map_cons,
            List.zipIdx_cons, hu]
          refine .cons ⟨phrase.line, ?_, hindents⟩ (ih _ _)
          rw [actionText_eq, hphrase]
          rfl

/-- The texts of pseudocode are those of the slots, in their order. -/
theorem forall₂_showsSlot (s : Script) (reg : Registry) :
    List.Forall₂ (s.ShowsSlot reg) s.slots.zipIdx ((s.pseudocode reg).filter (¬ IsMarker ·)) := by
  rw [filter_isMarker_pseudocode]
  exact forall₂_showsSlot_blocksFrom false 0 s.instructions

/-! ## The name that a slot shows -/

theorem named_bindings (h : s.instructions.Pairwise fun p q => p.1 < q.1 ∧ p.2.addr < q.2.addr) (reg : Registry)
    {n : Nat} (hslot : s.slots[n]? = some slot) (ha : slot.instr.action.isAssign = true) :
    s.Named reg n (((s.bindings reg).get? slot.id).getD s!"var_{n}") := by
  obtain ⟨hn, rfl⟩ := List.getElem?_eq_some_iff.mp hslot
  have hsplit : s.slots = s.slots.take n ++ s.slots[n] :: s.slots.drop (n + 1) := by
    rw [List.getElem_cons_drop, List.take_append_drop]
  have hbehind : ∀ j, (s.slots.drop (n + 1))[j]? = s.slots[n + j + 1]? := by
    intro j
    rw [List.getElem?_drop, Nat.add_right_comm]
  have hdistance : ∀ j, n + j + 1 - n = 0 + j + 1 := by omega
  -- a slot behind this one is `n + j + 1` for the slot at `j` there
  have hsilent : ∀ {q}, (∀ j slot, q < n + j + 1 → (s.slots.drop (n + 1))[j]? = some slot →
      s.callsWith reg (0 + j + 1) slot = []) → n ≤ q → s.Silent reg n q := by
    intro q h hq p slot hp hslot
    obtain ⟨j, rfl⟩ := Nat.exists_eq_add_of_lt (Nat.lt_of_le_of_lt hq hp)
    rw [hdistance]
    exact h j slot hp ((hbehind j).trans hslot)
  rw [bindings_get? hsplit (nodup_slots h) ha]
  cases hlast : (Binding.namesGiven s reg 0 (s.slots.drop (n + 1))).getLast? with
  | none =>
      exact .unnamed (hsilent (fun j slot _ => namesGiven_eq_nil.mp (List.getLast?_eq_none_iff.mp hlast) j slot)
        (Nat.le_refl n))
  | some name =>
      obtain ⟨j, slot, c, sig, param, hj, hlast, hsig, hparam, rfl, hbehind'⟩ := exists_of_getLast?_namesGiven hlast
      refine .parameter (q := n + j + 1) (by omega) ((hbehind j).symm.trans hj)
        (hsilent (fun p slot hp => hbehind' p slot (by omega)) (by omega)) ?_ hsig ?_
      · rwa [hdistance]
      · rwa [hdistance]

/-- The texts of pseudocode are those of the slots, one for each, and a value shows under the name of its slot. -/
theorem ofLines_named {lines : List String} (h : ofLines lines = .ok s) (reg : Registry) :
    ((s.pseudocode reg).filter (¬ IsMarker ·)).length = s.slots.length ∧
      ∀ (n : Nat) slot value, s.slots[n]? = some slot → slot.instr.action = .assign value →
        ∃ name line, (∀ name', s.Named reg n name' ↔ name' = name) ∧
          ((s.pseudocode reg).filter (¬ IsMarker ·))[n]? = some line ∧
          Indents (name ++ " := " ++ value.render (s.resultText reg)) line := by
  have htexts := s.forall₂_showsSlot reg
  refine ⟨htexts.length_eq.symm.trans List.length_zipIdx, fun n slot value hslot hvalue => ?_⟩
  have hnamed := named_bindings (ofLines_sorted h) reg hslot (by rw [hvalue]; rfl)
  have hnumbered : s.slots.zipIdx[n]? = some (slot, n) := by
    rw [List.getElem?_zipIdx, hslot]
    simp
  obtain ⟨hn, hnumbered⟩ := List.getElem?_eq_some_iff.mp hnumbered
  have hline := htexts.length_eq ▸ hn
  obtain ⟨text, htext, hindents⟩ := htexts.get hn hline
  rw [List.get_eq_getElem, hnumbered, hvalue] at htext
  obtain rfl := Option.some.inj htext
  exact ⟨_, _, fun name' => ⟨fun h' => h'.unique hnamed, fun he => he ▸ hnamed⟩, List.getElem?_eq_getElem hline,
    hindents⟩

/-- A name that starts with no space is not indented. -/
theorem eq_of_indents {name shown text : String} (h : Indents (name ++ text) (shown ++ text))
    (hshown : ∃ c l, shown.toList = c :: l ∧ c ≠ ' ') : name = shown := by
  rcases h with h | h
  · exact ((String.append_left_inj _).mp h).symm
  · obtain ⟨c, l, hl, hc⟩ := hshown
    have hhead := congrArg (fun line => line.toList.head?) h
    simp only [String.toList_append, hl, List.cons_append, List.head?_cons] at hhead
    exact absurd (Option.some.inj hhead) hc

/-- A call whose result goes into the slot behind its value names the value, and one whose result goes further on does
not. -/
theorem ofLines_named_testGameFlag :
    ∃ s, ofLines ["PUSH 1", "CALL testGameFlag", "STACKRWD 1", "PUSHRC 0", "PUSH 2", "CALL testGameFlag", "STACKRWD 1",
        "PUSHRC 0", "ADD"] = .ok s ∧
      s.Named .standard 0 "var_0" ∧ s.Named .standard 1 "flag" := by
  obtain ⟨s, hs, hview⟩ : ∃ s, ofLines ["PUSH 1", "CALL testGameFlag", "STACKRWD 1", "PUSHRC 0", "PUSH 2",
      "CALL testGameFlag", "STACKRWD 1", "PUSHRC 0", "ADD"] = .ok s ∧
      (s.slots[0]?, s.slots[1]?, (s.pseudocode .standard).filter (¬ IsMarker ·)) =
        (some ⟨0, ⟨0, .assign (.literal 1)⟩⟩, some ⟨3, ⟨4, .assign (.literal 2)⟩⟩,
          ["var_0" ++ " := 0x1", "flag" ++ " := 0x2", "var_2 := testGameFlag(flag) + testGameFlag(flag)"]) :=
    exists_ok (by decide +kernel)
  obtain ⟨hfirst, hview⟩ := Prod.mk.inj hview
  obtain ⟨hsecond, htexts⟩ := Prod.mk.inj hview
  have hnamed : ∀ (n : Nat) slot v shown, s.slots[n]? = some slot → slot.instr.action = .assign (.literal v) →
      ((s.pseudocode .standard).filter (¬ IsMarker ·))[n]? = some (shown ++ (" := " ++ Hex.signed v)) →
      (∃ c l, shown.toList = c :: l ∧ c ≠ ' ') → s.Named .standard n shown := by
    intro n slot v shown hslot hvalue htext hshown
    obtain ⟨name, line, hname, hline, hindents⟩ := (ofLines_named hs .standard).2 n slot _ hslot hvalue
    obtain rfl := Option.some.inj (htext.symm.trans hline)
    rw [String.append_assoc] at hindents
    exact (hname _).mpr (eq_of_indents hindents hshown).symm
  refine ⟨s, hs, hnamed 0 _ 1 _ hfirst rfl ?_ ⟨_, _, rfl, by decide⟩, ?_⟩
  · rw [htexts]
    decide
  · refine hnamed 1 _ 2 _ hsecond rfl ?_ ⟨_, _, rfl, by decide⟩
    rw [htexts]
    decide

end Script

end Unstack
