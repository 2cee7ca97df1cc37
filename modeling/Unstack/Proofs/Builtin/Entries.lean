import Unstack.Proofs.Builtin.Written
import Unstack.Proofs.Text.Lines

/-!
# Entries of the generated table

The names in a table entry stand between quotes as they are, whatever characters they have. Reading takes the commas
for itself, though, so there is none in a name, and from that the names and with them all of a table can be found again
in its entries (`entries_eq_iff`).
-/

namespace Unstack.Definition

open Text (IsWord splitOn trim)

/-! ## What is read can be written -/

theorem isWord_of_param {text : List Char} {p : Param} (h : param text = .ok p) :
    IsWord p.name.toList ∧ p.name.toList ⊆ text := by
  simp only [param] at h
  split at h
  · rename_i kind name hwords
    have hname : name ∈ Text.words text := by simp [hwords]
    split at h <;> cases h
    rw [String.toList_ofList]
    exact ⟨Text.isWord_of_mem_words hname, Text.forall_mem_words (fun c hc _ => hc) name hname⟩
  · cases h

theorem isWord_of_mapM_param {pieces : List (List Char)} {params : List Param} (h : pieces.mapM param = .ok params)
    (hc : ∀ s ∈ pieces, ',' ∉ s) : ∀ p ∈ params, IsWord p.name.toList ∧ ',' ∉ p.name.toList := by
  induction pieces generalizing params with
  | nil =>
      cases h
      exact fun _ hp => absurd hp List.not_mem_nil
  | cons s pieces ih =>
      obtain ⟨hs, hc⟩ := List.forall_mem_cons.mp hc
      rw [List.mapM_cons] at h
      obtain ⟨p, hp, h⟩ := bind_eq_ok h
      obtain ⟨ps, hps, h⟩ := bind_eq_ok h
      cases h
      obtain ⟨hw, hsub⟩ := isWord_of_param hp
      exact List.forall_mem_cons.mpr ⟨⟨hw, fun hm => hs (hsub hm)⟩, ih hps hc⟩

variable {seen : List Definition} {d : Definition}

theorem writable_of_ofParts {parts : List (List Char)} (hcomma : ∀ s ∈ parts, ',' ∉ s) (hbreak : ∀ s ∈ parts, '\n' ∉ s)
    (hsolid : ∀ s ∈ parts, Text.Solid s) (h : ofParts seen parts = .ok d) : Writable d := by
  cases parts with
  | nil => cases h
  | cons s parts =>
      obtain ⟨name, rfl⟩ : ∃ name : String, s = name.toList := ⟨String.ofList s, String.toList_ofList.symm⟩
      rw [List.forall_mem_cons] at hcomma hbreak hsolid
      have hne : name.toList ≠ [] := by
        intro hnil
        simp [ofParts, hnil] at h
      rw [ofParts_cons hne] at h
      split at h
      · cases h
      · obtain ⟨params, hparams, rfl⟩ := map_eq_ok h
        exact ⟨hne, hsolid.1, hcomma.1, hbreak.1, isWord_of_mapM_param hparams hcomma.2⟩

theorem untilClose?_subset {s inner : List Char} (h : untilClose? s = some inner) : inner ⊆ s := by
  simp only [untilClose?] at h
  split at h
  · cases h
  · rename_i c r hr
    cases h
    intro c' hc'
    have hmem : c' ∈ s.reverse.dropWhile (· ≠ ')') := hr ▸ List.mem_cons_of_mem c (List.mem_reverse.mp hc')
    exact List.mem_reverse.mp ((List.dropWhile_sublist _).subset hmem)

theorem writable_of_ofLine {line : List Char} (hl : '\n' ∉ line) (h : ofLine seen line = .ok d) : Writable d := by
  simp only [ofLine] at h
  split at h
  · cases h
  · rename_i rest hrest
    split at h
    · cases h
    · rename_i inner hinner
      have hdrop : rest ⊆ line := by
        rw [afterOpen?] at hrest
        split at hrest <;> cases hrest
        exact List.drop_subset 4 line
      have hsub : trim inner ⊆ line := fun c hc =>
        hdrop (Text.trim_subset rest (untilClose?_subset hinner (Text.trim_subset inner hc)))
      refine writable_of_ofParts ?_ ?_ ?_ h <;> rw [List.forall_mem_map] <;> intro p hp
      · exact fun hm => Text.not_mem_of_mem_splitOn hp (Text.trim_subset p hm)
      · exact fun hm => hl (hsub (Text.forall_mem_splitOn (fun c hc _ => hc) p hp _ (Text.trim_subset p hm)))
      · exact Text.solid_trim p

theorem writable_of_ofLines {n : Nat} {lines : List (List Char)} {defs : List Definition}
    (hseen : ∀ d ∈ seen, Writable d) (hl : ∀ line ∈ lines, '\n' ∉ line) (h : ofLines seen n lines = .ok defs) :
    ∀ d ∈ defs, Writable d := by
  induction lines generalizing seen n with
  | nil =>
      cases h
      exact hseen
  | cons line lines ih =>
      obtain ⟨hline, hl⟩ := List.forall_mem_cons.mp hl
      rw [ofLines] at h
      split at h
      · exact ih hseen hl h
      · split at h
        · rename_i d hd
          have hd : Writable d := writable_of_ofLine (fun hm => hline (Text.trim_subset line hm)) hd
          exact ih (List.forall_mem_append.mpr ⟨hseen, List.forall_mem_singleton.mpr hd⟩) hl h
        · cases h

theorem writable_of_read {source : String} {defs : List Definition} (h : read source = .ok defs) :
    ∀ d ∈ defs, Writable d :=
  writable_of_ofLines (fun _ hd => absurd hd List.not_mem_nil) (fun _ hline => Text.not_mem_of_mem_lines hline) h

/-! ## What an entry says -/

theorem quoted_append_inj {s s' : String} {r r' : List Char} (hs : ',' ∉ s.toList) (hs' : ',' ∉ s'.toList)
    (h : s.toList ++ '"' :: ',' :: r = s'.toList ++ '"' :: ',' :: r') : s = s' ∧ r = r' := by
  have hquoted : (s.toList ++ ['"']) ++ ',' :: r = (s'.toList ++ ['"']) ++ ',' :: r' := by simpa using h
  obtain ⟨hfirst, hrest⟩ := Text.append_cons_inj (by simpa using hs) (by simpa using hs') hquoted
  exact ⟨String.toList_inj.mp (List.append_cancel_right hfirst), hrest⟩

/-- A parameter in an entry. -/
def pair (p : Param) : String :=
  s!"(\"{p.name}\", {kindEntry p.kind})"

theorem toList_pair (p : Param) :
    (pair p).toList =
      '(' :: '"' :: (p.name.toList ++ '"' :: ',' :: (' ' :: ((kindEntry p.kind).toList ++ [')']))) := by
  show ("(\"" ++ p.name ++ "\", " ++ kindEntry p.kind ++ ")").toList = _
  simp

theorem kindEntry_append_inj {kind kind' : ParamKind} {r r' : List Char}
    (h : (kindEntry kind).toList ++ ')' :: r = (kindEntry kind').toList ++ ')' :: r') : kind = kind' ∧ r = r' := by
  cases kind <;> cases kind' <;> simp_all [kindEntry]

/-- A parameter can be told from what follows. -/
theorem pair_append_inj {p p' : Param} {r r' : List Char} (hp : ',' ∉ p.name.toList) (hp' : ',' ∉ p'.name.toList)
    (h : (pair p).toList ++ r = (pair p').toList ++ r') : p = p' ∧ r = r' := by
  have h' : p.name.toList ++ '"' :: ',' :: (' ' :: ((kindEntry p.kind).toList ++ ')' :: r)) =
      p'.name.toList ++ '"' :: ',' :: (' ' :: ((kindEntry p'.kind).toList ++ ')' :: r')) := by
    simpa [toList_pair] using h
  obtain ⟨hname, hrest⟩ := quoted_append_inj hp hp' h'
  obtain ⟨hkind, hr⟩ := kindEntry_append_inj (List.cons.inj hrest).2
  cases p
  cases p'
  exact ⟨by simp_all, hr⟩

/-- The parameters behind the first one. -/
def morePairs (params : List Param) : List Char :=
  params.flatMap fun p => ", ".toList ++ (pair p).toList

theorem morePairs_cons (p : Param) (params : List Param) :
    morePairs (p :: params) = ", ".toList ++ ((pair p).toList ++ morePairs params) := by
  rw [morePairs, List.flatMap_cons, List.append_assoc, morePairs]

theorem morePairs_inj {params params' : List Param} (hp : ∀ p ∈ params, ',' ∉ p.name.toList)
    (hp' : ∀ p ∈ params', ',' ∉ p.name.toList) (h : morePairs params = morePairs params') : params = params' := by
  induction params generalizing params' with
  | nil =>
      cases params' with
      | nil => rfl
      | cons p' params' => simp [morePairs] at h
  | cons p params ih =>
      cases params' with
      | nil => simp [morePairs] at h
      | cons p' params' =>
          obtain ⟨hp, hparams⟩ := List.forall_mem_cons.mp hp
          obtain ⟨hp', hparams'⟩ := List.forall_mem_cons.mp hp'
          rw [morePairs_cons, morePairs_cons, List.append_cancel_left_eq] at h
          obtain ⟨rfl, hrest⟩ := pair_append_inj hp hp' h
          rw [ih hparams hparams' hrest]

theorem toList_intercalate_cons (p : Param) (params : List Param) :
    (", ".intercalate ((p :: params).map pair)).toList = (pair p).toList ++ morePairs params := by
  induction params generalizing p with
  | nil => simp [morePairs]
  | cons q params ih =>
      rw [List.map_cons, List.map_cons, String.intercalate_cons_cons, ← List.map_cons, String.toList_append,
        String.toList_append, ih, List.append_assoc, morePairs_cons]

theorem pairs_inj {params params' : List Param} (hp : ∀ p ∈ params, ',' ∉ p.name.toList)
    (hp' : ∀ p ∈ params', ',' ∉ p.name.toList)
    (h : ", ".intercalate (params.map pair) = ", ".intercalate (params'.map pair)) : params = params' := by
  rw [← String.toList_inj] at h
  cases params with
  | nil =>
      cases params' with
      | nil => rfl
      | cons p' params' => simp [toList_pair] at h
  | cons p params =>
      cases params' with
      | nil => simp [toList_pair] at h
      | cons p' params' =>
          have hmore : morePairs (p :: params) = morePairs (p' :: params') := by
            rw [morePairs_cons, morePairs_cons, ← toList_intercalate_cons, ← toList_intercalate_cons, h]
          exact morePairs_inj hp hp' hmore

theorem toList_entry (d : Definition) :
    (entry d).toList = "BuiltinDef \x7b name: \"".toList ++ (d.name.toList ++ '"' :: ',' ::
      (" params: &[".toList ++ ((", ".intercalate (d.params.map pair)).toList ++ "] \x7d,".toList))) := by
  show ("BuiltinDef \x7b name: \"" ++ d.name ++ "\", params: &[" ++ ", ".intercalate (d.params.map pair) ++
    "] \x7d,").toList = _
  simp only [String.toList_append, List.append_assoc]
  rfl

theorem Writable.entry_inj {d d' : Definition} (hd : Writable d) (hd' : Writable d') (h : entry d = entry d') :
    d = d' := by
  rw [← String.toList_inj, toList_entry, toList_entry, List.append_cancel_left_eq] at h
  obtain ⟨hname, hrest⟩ := quoted_append_inj hd.no_comma hd'.no_comma h
  rw [List.append_cancel_left_eq, List.append_cancel_right_eq, String.toList_inj] at hrest
  have hparams := pairs_inj (fun p hp => (hd.params p hp).2) (fun p hp => (hd'.params p hp).2) hrest
  cases d
  cases d'
  simp_all

/-! ## Tables -/

/-- The lines of the generated table that stand for definitions. -/
def tableText (defs : List Definition) : String :=
  String.join (defs.map fun d => "    " ++ entry d ++ "\n")

theorem Writable.newline_not_mem_entry {d : Definition} (hd : Writable d) : '\n' ∉ (entry d).toList := by
  have hpair : ∀ p ∈ d.params, '\n' ∉ (pair p).toList := by
    intro p hp
    have hname : '\n' ∉ p.name.toList := fun hm => absurd ((hd.params p hp).1.not_blank _ hm) (by decide)
    have hkind : '\n' ∉ (kindEntry p.kind).toList := by
      cases p.kind <;> decide
    simp [toList_pair, hname, hkind]
  have hpairs : '\n' ∉ (", ".intercalate (d.params.map pair)).toList := by
    cases hparams : d.params with
    | nil => simp
    | cons p params =>
        rw [hparams] at hpair
        rw [toList_intercalate_cons]
        simpa [morePairs] using hpair
  simp [toList_entry, -String.toList_intercalate, hd.unbroken, hpairs]

theorem entries_inj {defs defs' : List Definition} (hd : ∀ d ∈ defs, Writable d) (hd' : ∀ d ∈ defs', Writable d)
    (h : defs.map entry = defs'.map entry) : defs = defs' := by
  induction defs generalizing defs' with
  | nil => exact (List.map_eq_nil_iff.mp h.symm).symm
  | cons d defs ih =>
      obtain ⟨d', defs', rfl, he, h⟩ := List.map_eq_cons_iff.mp h.symm
      obtain ⟨hd, hdefs⟩ := List.forall_mem_cons.mp hd
      obtain ⟨hd', hdefs'⟩ := List.forall_mem_cons.mp hd'
      rw [hd.entry_inj hd' he.symm, ih hdefs hdefs' h.symm]

theorem tableText_inj {defs defs' : List Definition} (hd : ∀ d ∈ defs, Writable d) (hd' : ∀ d ∈ defs', Writable d)
    (h : tableText defs = tableText defs') : defs = defs' := by
  have hlines : ∀ defs : List Definition,
      tableText defs = String.join (((defs.map entry).map ("    " ++ ·)).map (· ++ "\n")) := by
    intro defs
    rw [tableText, List.map_map, List.map_map]
    rfl
  have hbreak : ∀ {defs : List Definition}, (∀ d ∈ defs, Writable d) →
      ∀ line ∈ (defs.map entry).map ("    " ++ ·), '\n' ∉ line.toList := by
    intro defs hd
    rw [List.forall_mem_map, List.forall_mem_map]
    intro d hm
    simp [(hd d hm).newline_not_mem_entry]
  rw [hlines, hlines] at h
  have hindented := eq_of_join_eq (hbreak hd) (hbreak hd') h
  exact entries_inj hd hd' ((List.map_inj_right fun _ _ => (String.append_right_inj "    ").mp).mp hindented)

/-- Two definition files have the same entries only if they define the same functions with the same parameters in the
same order, whatever the names look like. -/
theorem entries_eq_iff {source source' : String} {defs defs' : List Definition} (h : read source = .ok defs)
    (h' : read source' = .ok defs') :
    (defs.map entry = defs'.map entry ↔ defs = defs') ∧ (tableText defs = tableText defs' ↔ defs = defs') := by
  have hd := writable_of_read h
  have hd' := writable_of_read h'
  exact ⟨⟨entries_inj hd hd', fun he => he ▸ rfl⟩, ⟨tableText_inj hd hd', fun he => he ▸ rfl⟩⟩

/-- One parameter whose name looks like the end of one and the start of another, and two parameters. -/
theorem entries_eq_iff_lookalike :
    read "DEF(f\\] \x7d, NUM x\")(\"y)" = .ok [⟨"f\\] \x7d", [⟨"x\")(\"y", .numeric⟩]⟩] ∧
      read "DEF(f\\] \x7d, NUM x, NUM y)" = .ok [⟨"f\\] \x7d", [⟨"x", .numeric⟩, ⟨"y", .numeric⟩]⟩] ∧
      tableText [⟨"f\\] \x7d", [⟨"x\")(\"y", .numeric⟩]⟩] ≠
        tableText [⟨"f\\] \x7d", [⟨"x", .numeric⟩, ⟨"y", .numeric⟩]⟩] := by
  have one : read "DEF(f\\] \x7d, NUM x\")(\"y)" = .ok [⟨"f\\] \x7d", [⟨"x\")(\"y", .numeric⟩]⟩] := by rfl
  have two : read "DEF(f\\] \x7d, NUM x, NUM y)" = .ok [⟨"f\\] \x7d", [⟨"x", .numeric⟩, ⟨"y", .numeric⟩]⟩] := by rfl
  refine ⟨one, two, fun h => ?_⟩
  have hdefs := (entries_eq_iff one two).2.mp h
  simp at hdefs

end Unstack.Definition
