import Mathlib.Data.List.Forall2
import Unstack.Data.Shape
import Unstack.Proofs.Table

/-!
# Spellings

A value can be written as data in several ways: its structures by name or by position, with unknown fields among the
others, and without the fields that are what they would be by default. Each of them reads back as the value
(`Data.readsBack`).
-/

namespace Unstack

variable {format : Format} {α β : Type}

namespace Data

/-! ## Tags -/

/-- A tag as a string, or as the one field of an object with no content. -/
inductive IsTag (format : Format) (tag : String) : Data → Prop where
  | string : IsTag format tag (.string tag)
  | object {content} (h : format.isNothing content = true) : IsTag format tag (.object [(tag, content)])

theorem IsTag.tag?_eq {tag : String} {d : Data} (h : IsTag format tag d) : d.tag? format = some tag := by
  cases h with
  | string => rfl
  | object h => rw [tag?, if_pos h]

/-! ## Structures -/

/-- The field is there, and this is what it may be. -/
inductive Required (P : Data → Prop) : Option Data → Prop where
  | given {d} (h : P d) : Required P (some d)

/-- If the field stands for the default, then it need not be there. -/
inductive Defaulted (P : Data → Prop) (isDefault : Prop) : Option Data → Prop where
  | given {d} (h : P d) : Defaulted P isDefault (some d)
  | absent (h : isDefault) : Defaulted P isDefault none

/-- The items of a structure that is written by position, and what its fields may be. -/
inductive InOrder (format : Format) : List (Option Data → Prop) → List Data → Prop where
  | absent {slots} (h : ∀ slot ∈ slots, slot none) : InOrder format slots []
  | surplus {items} (h : format.allowsSurplus = true) : InOrder format [] items
  | given {slot slots item items} (hitem : slot (some item)) (h : InOrder format slots items) :
      InOrder format (slot :: slots) (item :: items)

/-- A structure with these fields, written by name, in any order and among others, or by position. -/
inductive IsRecord (format : Format) (fields : List (String × (Option Data → Prop))) : Data → Prop where
  | byName {given : List (String × Data)} (hdistinct : (given.map (·.1)).Nodup)
      (hgiven : ∀ f ∈ fields, ∀ d, (f.1, d) ∈ given → f.2 (some d))
      (habsent : ∀ f ∈ fields, f.1 ∉ given.map (·.1) → f.2 none) : IsRecord format fields (.object given)
  | byPosition {items : List Data} (h : InOrder format (fields.map (·.2)) items) : IsRecord format fields (.array items)

section

variable {fields : List (String × (Option Data → Prop))} {slots : List (Option Data → Prop)} {items : List Data}
  {slot : Option Data → Prop} {d : Data}

theorem orDefault_of_defaulted {P : Data → Prop} {read : Data → Option α} {absent a : α} {content : Option Data}
    (h : Defaulted P (a = absent) content) (hread : ∀ d, P d → read d = some a) :
    orDefault read absent content = some a := by
  cases h with
  | given h => exact hread _ h
  | absent h => rw [orDefault, h]

theorem InOrder.length_le (h : InOrder format slots items) :
    (format.allowsSurplus || items.length ≤ slots.length) = true := by
  induction h with
  | absent _ => simp
  | surplus h => simp [h]
  | given _ _ ih => simpa using ih

theorem InOrder.holds (h : InOrder format slots items) (i : Nat) (hi : i < slots.length) : slots[i] items[i]? := by
  induction h generalizing i with
  | absent h => exact h _ (List.getElem_mem hi)
  | surplus _ => exact absurd hi (Nat.not_lt_zero i)
  | given hitem _ ih =>
      cases i with
      | zero => exact hitem
      | succ i => exact ih i (Nat.lt_of_succ_lt_succ hi)

theorem field?_holds {given : List (String × Data)} {name : String} (hgiven : ∀ d, (name, d) ∈ given → slot (some d))
    (habsent : name ∉ given.map (·.1) → slot none) : slot (field? name given) := by
  cases h : field? name given with
  | none =>
      refine habsent fun hmem => ?_
      obtain ⟨f, hf, hname⟩ := List.mem_map.mp hmem
      have hne := List.lookup_eq_none_iff.mp h f hf
      exact absurd hname.symm (bne_iff_ne.mp hne)
  | some d =>
      obtain ⟨before, behind, rfl, _⟩ := List.lookup_eq_some_iff.mp h
      exact hgiven d (List.mem_append_right _ List.mem_cons_self)

/-- The fields of a structure are found, however it is written. -/
theorem IsRecord.exists_record? (h : IsRecord format fields d) :
    ∃ contents, d.record? format (fields.map (·.1)) = some contents ∧
      List.Forall₂ (fun f content => f.2 content) fields contents := by
  cases h with
  | byName _ hgiven habsent =>
      refine ⟨_, rfl, ?_⟩
      rw [List.map_map, List.forall₂_map_right_iff, List.forall₂_same]
      exact fun f hf => field?_holds (hgiven f hf) (habsent f hf)
  | @byPosition items h =>
      have hlength := h.length_le
      rw [List.length_map] at hlength
      refine ⟨_, by rw [record?, List.length_map, if_pos hlength], ?_⟩
      refine List.forall₂_of_length_eq_of_get (by simp) fun i hi _ => ?_
      have hholds := h.holds i (by simpa using hi)
      rw [List.getElem_map] at hholds
      simpa using hholds

theorem IsRecord.exists_one {name : String} (h : IsRecord format [(name, slot)] d) :
    ∃ content, slot content ∧ d.record? format [name] = some [content] := by
  obtain ⟨_, hrecord, _ | ⟨hslot, ⟨⟩⟩⟩ := h.exists_record?
  exact ⟨_, hslot, hrecord⟩

theorem IsRecord.exists_two {name name' : String} {slot' : Option Data → Prop}
    (h : IsRecord format [(name, slot), (name', slot')] d) :
    ∃ content content', slot content ∧ slot' content' ∧ d.record? format [name, name'] = some [content, content'] := by
  obtain ⟨_, hrecord, _ | ⟨hslot, _ | ⟨hslot', ⟨⟩⟩⟩⟩ := h.exists_record?
  exact ⟨_, _, hslot, hslot', hrecord⟩

end

/-! ## Lists and tables -/

/-- The values of a list one after the other. -/
inductive IsArray (P : α → Data → Prop) (l : List α) : Data → Prop where
  | items {items} (h : List.Forall₂ P l items) : IsArray P l (.array items)

/-- The entries of a table as fields, in any order. -/
inductive IsTable (P : β → Data → Prop) (t : Table String β) : Data → Prop where
  | fields {entries fields} (hentries : entries.Perm t.entries)
      (h : List.Forall₂ (fun e f => e.1 = f.1 ∧ P e.2 f.2) entries fields) : IsTable P t (.object fields)

theorem mapM_of_forall₂ {read : β → Option α} {R : α → β → Prop} {l : List α} {items : List β}
    (h : List.Forall₂ R l items) (hread : ∀ a d, R a d → read d = some a) : items.mapM read = some l := by
  induction h with
  | nil => rfl
  | cons ha _ ih =>
      rw [List.mapM_cons, hread _ _ ha, ih]
      rfl

theorem IsArray.bind_mapM {P : α → Data → Prop} {read : Data → Option α} {l : List α} {d : Data} (h : IsArray P l d)
    (hread : ∀ a d, P a d → read d = some a) : d.array?.bind (·.mapM read) = some l := by
  obtain ⟨hitems⟩ := h
  exact mapM_of_forall₂ hitems hread

theorem ofList_of_perm {t : Table String β} {l : List (String × β)} (h : l.Perm t.entries) : Table.ofList l = t := by
  refine Table.ext_get? fun k => ?_
  rw [Table.ofList, Table.get?_insertAll_of_perm h]
  exact Option.or_none

end Data

/-! ## Spellings of the types -/

variable (format) in
def Param.Spelled (p : Param) : Data → Prop :=
  Data.IsRecord format
    [("name", Data.Required (· = .string p.name)), ("kind", Data.Required (Data.IsTag format p.kind.tag))]

variable (format) in
def Signature.Spelled (sig : Signature) : Data → Prop :=
  Data.IsRecord format
    [("params", Data.Defaulted (Data.IsArray (Param.Spelled format) sig.params) (sig.params = []))]

variable (format) in
def Registry.Spelled (reg : Registry) : Data → Prop :=
  Data.IsRecord format
    [("functions", Data.Defaulted (Data.IsTable (Signature.Spelled format) reg) (reg = .empty))]

/-- A table of strings is written as an array, none as null. -/
inductive Options.SpelledStrings : Option (List String) → Data → Prop where
  | none : SpelledStrings none .null
  | some {l d} (h : Data.IsArray (fun s d => d = .string s) l d) : SpelledStrings (some l) d

variable (format) in
def Options.Spelled (o : Options) : Data → Prop :=
  Data.IsRecord format
    [("mode", Data.Required (Data.IsTag format o.mode.tag)),
      ("strings", Data.Defaulted (SpelledStrings o.strings) (o.strings = none))]

/-! ## What is written is a spelling -/

theorem Param.spelled_toData (p : Param) : p.Spelled format p.toData := by
  have hname : Data.Required (· = .string p.name) (some (.string p.name)) := .given rfl
  have hkind : Data.Required (Data.IsTag format p.kind.tag) (some p.kind.toData) := .given .string
  exact .byName (by simp) (by simp [hname, hkind]) (by simp)

theorem Signature.spelled_toData (sig : Signature) : sig.Spelled format sig.toData := by
  have hparams : Data.IsArray (Param.Spelled format) sig.params (.array (sig.params.map Param.toData)) := by
    refine .items ?_
    rw [List.forall₂_map_right_iff, List.forall₂_same]
    exact fun p _ => p.spelled_toData
  exact .byName (by simp) (by simpa using .given hparams) (by simp)

theorem Registry.spelled_toData (reg : Registry) : Registry.Spelled format reg reg.toData := by
  have hfunctions : Data.IsTable (Signature.Spelled format) reg
      (.object (reg.entries.map fun e => (e.1, e.2.toData))) := by
    refine .fields (.refl _) ?_
    rw [List.forall₂_map_right_iff, List.forall₂_same]
    exact fun e _ => ⟨rfl, e.2.spelled_toData⟩
  exact .byName (by simp) (by simpa using .given hfunctions) (by simp)

theorem Options.spelled_toData (o : Options) : o.Spelled format o.toData := by
  have hmode : Data.Required (Data.IsTag format o.mode.tag) (some o.mode.toData) := .given .string
  have hstrings : SpelledStrings o.strings ((o.strings.map fun l => .array (l.map .string)).getD .null) := by
    cases o.strings with
    | none => exact .none
    | some l => exact .some (.items (by simp [List.forall₂_map_right_iff, List.forall₂_same]))
  exact .byName (by simp) (by simpa using ⟨hmode, .given hstrings⟩) (by simp)

/-! ## Every spelling is read -/

section

variable {d : Data}

theorem ParamKind.ofData?_of_isTag {kind : ParamKind} (h : Data.IsTag format kind.tag d) :
    ofData? format d = some kind := by
  rw [ofData?, h.tag?_eq, Option.bind_some, ofTag?_tag]

theorem Mode.ofData?_of_isTag {mode : Mode} (h : Data.IsTag format mode.tag d) : ofData? format d = some mode := by
  rw [ofData?, h.tag?_eq, Option.bind_some, ofTag?_tag]

theorem Param.ofData?_of_spelled {p : Param} (h : p.Spelled format d) : ofData? format d = some p := by
  obtain ⟨_, _, ⟨rfl⟩, ⟨hkind⟩, hrecord⟩ := h.exists_two
  simp only [ofData?, hrecord, Data.string?, Option.bind_some, ParamKind.ofData?_of_isTag hkind, Option.map_some]

theorem Signature.ofData?_of_spelled {sig : Signature} (h : sig.Spelled format d) : ofData? format d = some sig := by
  obtain ⟨_, hparams, hrecord⟩ := h.exists_one
  have hparams := Data.orDefault_of_defaulted hparams fun d hd => hd.bind_mapM fun p d => Param.ofData?_of_spelled
  simp only [ofData?, hrecord, hparams, Option.map_some]

theorem Registry.ofData?_of_spelled {reg : Registry} (h : Registry.Spelled format reg d) :
    ofData? format d = some reg := by
  obtain ⟨_, hfunctions, hrecord⟩ := h.exists_one
  simp only [ofData?, hrecord]
  refine Data.orDefault_of_defaulted hfunctions fun d hd => ?_
  obtain ⟨hentries, hfields⟩ := hd
  rw [functions?, Data.mapM_of_forall₂ hfields, Option.map_some, Data.ofList_of_perm hentries]
  rintro ⟨name, sig⟩ ⟨_, d⟩ ⟨rfl, hsig⟩
  rw [Signature.ofData?_of_spelled hsig, Option.map_some]

theorem Options.strings?_of_spelled {strings : Option (List String)} (h : SpelledStrings strings d) :
    strings? d = some strings := by
  cases h with
  | none => rfl
  | @some l _ h =>
      have hread : d.array?.bind (·.mapM Data.string?) = some l := h.bind_mapM fun s d hd => by rw [hd, Data.string?]
      obtain ⟨_⟩ := h
      exact congrArg (Option.map some) hread

theorem Options.ofData?_of_spelled {o : Options} (h : o.Spelled format d) : ofData? format d = some o := by
  obtain ⟨_, _, ⟨hmode⟩, hstrings, hrecord⟩ := h.exists_two
  have hstrings := Data.orDefault_of_defaulted hstrings fun d => strings?_of_spelled
  simp only [ofData?, hrecord, Mode.ofData?_of_isTag hmode, hstrings, Option.bind_some, Option.map_some]

end

namespace Data

/-! ## Reading back -/

/-- The values of a type are read back from whatever they may be written as. -/
structure ReadsBack (toData : α → Data) (ofData? : Data → Option α) (Spelled : α → Data → Prop) : Prop where
  /-- A value is written in one of the ways that it may be written. -/
  spelled_toData : ∀ a, Spelled a (toData a)
  ofData?_of_spelled : ∀ {a d}, Spelled a d → ofData? d = some a
  ofData?_toData : ∀ a, ofData? (toData a) = some a
  /-- What has been read is written so that reading and writing it once more changes nothing. -/
  normal : ∀ {d d'}, (ofData? d).map toData = some d' → (ofData? d').map toData = some d'

theorem ReadsBack.of_spelled {toData : α → Data} {ofData? : Data → Option α} {Spelled : α → Data → Prop}
    (hwritten : ∀ a, Spelled a (toData a)) (hread : ∀ {a d}, Spelled a d → ofData? d = some a) :
    ReadsBack toData ofData? Spelled where
  spelled_toData := hwritten
  ofData?_of_spelled := hread
  ofData?_toData a := hread (hwritten a)
  normal := by
    intro d d' h
    obtain ⟨a, _, rfl⟩ := Option.map_eq_some_iff.mp h
    rw [hread (hwritten a), Option.map_some]

/-- Parameters, signatures, registries and options are read back, in every format. -/
theorem readsBack (format : Format) :
    ReadsBack Param.toData (Param.ofData? format) (Param.Spelled format) ∧
    ReadsBack Signature.toData (Signature.ofData? format) (Signature.Spelled format) ∧
    ReadsBack Registry.toData (Registry.ofData? format) (Registry.Spelled format) ∧
    ReadsBack Options.toData (Options.ofData? format) (Options.Spelled format) :=
  ⟨.of_spelled Param.spelled_toData Param.ofData?_of_spelled,
    .of_spelled Signature.spelled_toData Signature.ofData?_of_spelled,
    .of_spelled Registry.spelled_toData Registry.ofData?_of_spelled,
    .of_spelled Options.spelled_toData Options.ofData?_of_spelled⟩

/-- A registry by position, a signature by name with a field too many, and a parameter of each kind. -/
theorem readsBack_mixed :
    Registry.ofData? .json
        (.array [.object [
          ("b", .object [("since", .number "2"), ("params", .array [.array [.string "p", .string "numeric"],
            .object [("kind", .object [("raw_string", .null)]), ("name", .string "q")]])]),
          ("a", .array [])]]) =
      some (.ofList [("a", ⟨[]⟩), ("b", ⟨[⟨"p", .numeric⟩, ⟨"q", .rawString⟩]⟩)]) := by
  have hp : Param.Spelled .json ⟨"p", .numeric⟩ (.array [.string "p", .string "numeric"]) :=
    .byPosition (.given (.given rfl) (.given (.given .string) (.absent (by simp))))
  have hq : Param.Spelled .json ⟨"q", .rawString⟩
      (.object [("kind", .object [("raw_string", .null)]), ("name", .string "q")]) := by
    have hname : Required (· = .string "q") (some (.string "q")) := .given rfl
    have hkind : Required (IsTag .json "raw_string") (some (.object [("raw_string", .null)])) := .given (.object rfl)
    exact .byName (by decide) (by simpa using ⟨hname, hkind⟩) (by simp)
  have hparams : IsArray (Param.Spelled .json) [⟨"p", .numeric⟩, ⟨"q", .rawString⟩] _ :=
    .items (.cons hp (.cons hq .nil))
  have hentries : [("b", ⟨[⟨"p", .numeric⟩, ⟨"q", .rawString⟩]⟩), ("a", ⟨[]⟩)].Perm
      (Table.ofList [("a", ⟨[]⟩), ("b", ⟨[⟨"p", .numeric⟩, ⟨"q", .rawString⟩]⟩)] : Registry).entries := by
    decide +kernel
  refine (readsBack .json).2.2.1.ofData?_of_spelled (.byPosition (.given (.given ?_) (.absent (by simp))))
  refine .fields hentries (.cons ⟨rfl, ?_⟩ (.cons ⟨rfl, ?_⟩ .nil))
  · exact .byName (by decide) (by simpa using .given hparams) (by simp)
  · exact .byPosition (.absent (by simpa using .absent trivial))

end Data

end Unstack
