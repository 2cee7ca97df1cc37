import Mathlib.Data.List.Forall2
import Mathlib.Data.List.ReduceOption
import Unstack.Builtin.Definition
import Unstack.Proofs.Command.Reading
import Unstack.Proofs.Text.Trim

/-!
# Written definition files read back

A definition may be written with blanks around its parts and with a remark behind it, and there may be blank lines and
comments between definitions. Reading finds the definitions again, unless a name is given twice; then it is refused at
the first line that repeats one, and what stands behind the name there makes no difference (`read_written`).
-/

namespace Unstack.Definition

open Text (Blank IsWord Solid splitOn trim trimEnd trimStart)

/-! ## Written forms -/

/-- Blanks on a line. -/
structure Pad (s : List Char) : Prop where
  blank : Blank s
  unbroken : '\n' ∉ s

instance (s : List Char) : Decidable (Pad s) :=
  decidable_of_iff (Blank s ∧ '\n' ∉ s) ⟨fun h => ⟨h.1, h.2⟩, fun h => ⟨h.1, h.2⟩⟩

/-- The text with any padding around it. -/
inductive Padded (s : List Char) : List Char → Prop where
  | mk {l r} (hl : Pad l) (hr : Pad r) : Padded s (l ++ s ++ r)

/-- The word that a kind is written as. -/
def kindWord : ParamKind → List Char
  | .numeric => "NUM".toList
  | .rawString => "STR".toList
  | .languageString => "STRID".toList

/-- A definition that can be written: no name has a part that would be read as something else. -/
structure Writable (d : Definition) : Prop where
  ne_nil : d.name.toList ≠ []
  solid : Solid d.name.toList
  no_comma : ',' ∉ d.name.toList
  unbroken : '\n' ∉ d.name.toList
  params : ∀ p ∈ d.params, IsWord p.name.toList ∧ ',' ∉ p.name.toList

/-- A parameter as it is written: kind and name with blanks between them. -/
inductive WrittenParam (p : Param) : List Char → Prop where
  | mk {gap s} (hg : Pad gap) (hne : gap ≠ []) (hs : Padded (kindWord p.kind ++ gap ++ p.name.toList) s) :
      WrittenParam p s

/-- A line of a definition file with what it defines. -/
inductive WrittenLine : Option Definition → List Char → Prop where
  | blank {s} (hs : Pad s) : WrittenLine none s
  | comment {l s} (hl : Pad l) (hs : '\n' ∉ s) : WrittenLine none (l ++ '#' :: s)
  | definition {d l head pieces r} (hd : Writable d) (hl : Pad l) (hh : Padded d.name.toList head)
      (hp : List.Forall₂ WrittenParam d.params pieces) (hr : ')' ∉ r) (hn : '\n' ∉ r) :
      WrittenLine (some d) (l ++ ("DEF(".toList ++ (head ++ pieces.flatMap (',' :: ·) ++ ')' :: r)))

/-- A line that defines something of this name, if anything. -/
inductive Heads (name : String) : List Char → Prop where
  | mk {l head more r} (hl : Pad l) (hh : Padded name.toList head) (hm : more = [] ∨ more.head? = some ',')
      (hu : '\n' ∉ more) (hr : ')' ∉ r) (hn : '\n' ∉ r) :
      Heads name (l ++ ("DEF(".toList ++ (head ++ more ++ ')' :: r)))

/-- The text of lines that all end in a newline. -/
def unlines (lines : List (List Char)) : List Char :=
  lines.flatMap (· ++ ['\n'])

/-- The lines make up the text, with or without a newline at its end. -/
def MakesUp (lines : List (List Char)) (text : List Char) : Prop :=
  text = unlines lines ∨ text ++ ['\n'] = unlines lines

/-! ## Lines -/

theorem untilClose?_append {r : List Char} (hr : ')' ∉ r) (s : List Char) : untilClose? (s ++ ')' :: r) = some s := by
  have hskip : (s ++ ')' :: r).reverse.dropWhile (· ≠ ')') = ')' :: s.reverse := by
    rw [List.reverse_append, List.reverse_cons, List.append_assoc, List.dropWhile_append_of_pos]
    · rfl
    · intro c hc
      exact decide_eq_true fun he => hr (he ▸ List.mem_reverse.mp hc)
  simp only [untilClose?, hskip, List.reverse_reverse]

theorem trim_parenthesized {l : List Char} (hl : Blank l) (s r : List Char) :
    trim (l ++ ("DEF(".toList ++ (s ++ ')' :: r))) = "DEF(".toList ++ (s ++ ')' :: trimEnd r) := by
  show trim (l ++ 'D' :: ("EF(".toList ++ (s ++ ')' :: r))) = _
  rw [Text.trim_append_cons (by decide), Text.trimStart_of_blank hl, ← List.append_assoc,
    Text.trimEnd_append_cons (by decide)]
  rfl

/-- What stands between the parentheses of a line is cut at the commas. -/
theorem ofLine_parenthesized (seen : List Definition) {l r : List Char} (hl : Blank l) (hr : ')' ∉ r) (s : List Char) :
    ofLine seen (trim (l ++ ("DEF(".toList ++ (s ++ ')' :: r)))) = ofParts seen ((splitOn ',' s).map trim) := by
  have hopen : afterOpen? ("DEF(".toList ++ (s ++ ')' :: trimEnd r)) = some (s ++ ')' :: trimEnd r) := rfl
  have hclose : untilClose? (trim (s ++ ')' :: trimEnd r)) = some (trimStart s) := by
    rw [Text.trim_append_cons (by decide)]
    exact untilClose?_append (Text.not_mem_trimEnd (Text.not_mem_trimEnd hr)) _
  rw [trim_parenthesized hl, ofLine, hopen]
  simp only [hclose, Text.trim_trimStart]
  rw [Text.map_trim_splitOn_trim (by decide)]

theorem isFiller_parenthesized {l : List Char} (hl : Blank l) (s r : List Char) :
    isFiller (trim (l ++ ("DEF(".toList ++ (s ++ ')' :: r)))) = false := by
  rw [trim_parenthesized hl]
  rfl

theorem WrittenLine.isFiller {s : List Char} (h : WrittenLine none s) : isFiller (trim s) = true := by
  cases h with
  | blank hs =>
      rw [trim, Text.trimStart_of_blank hs.blank]
      rfl
  | comment hl hs =>
      rw [Text.trim_append_cons (by decide), Text.trimStart_of_blank hl.blank]
      rfl

theorem Padded.trim_eq {s t : List Char} (h : Padded s t) (hs : Solid s) : trim t = s := by
  obtain ⟨hl, hr⟩ := h
  rw [Text.trim_padded hl.blank hr.blank, Text.trim_of_solid hs]

/-- A character that is in no padding. -/
def Unpadded (c : Char) : Prop :=
  ∀ l, Pad l → c ∉ l

theorem unpadded_comma : Unpadded ',' :=
  fun _ hl hm => absurd (hl.blank _ hm) (by decide)

theorem unpadded_newline : Unpadded '\n' :=
  fun _ hl => hl.unbroken

theorem Padded.not_mem {c : Char} {s t : List Char} (h : Padded s t) (hc : Unpadded c) (hs : c ∉ s) : c ∉ t := by
  obtain ⟨hl, hr⟩ := h
  simp [hc _ hl, hc _ hr, hs]

/-! ## Parameters -/

theorem kind?_kindWord (kind : ParamKind) : kind? (kindWord kind) = some kind := by
  cases kind <;> decide

theorem isWord_kindWord (kind : ParamKind) : IsWord (kindWord kind) := by
  cases kind <;> decide

theorem WrittenParam.param_trim {p : Param} {s : List Char} (h : WrittenParam p s) (hp : IsWord p.name.toList) :
    param (trim s) = .ok p := by
  obtain ⟨hg, hne, hs⟩ := h
  rename_i gap
  have hkind := isWord_kindWord p.kind
  have hgap : Text.endsWord (gap ++ p.name.toList) = true := by
    obtain ⟨c, gap, rfl⟩ := List.exists_cons_of_ne_nil hne
    exact hg.blank c List.mem_cons_self
  have hwords : Text.words (trim s) = [kindWord p.kind, p.name.toList] := by
    rw [hs.trim_eq (hkind.solid_append hp gap), List.append_assoc, Text.words_append hkind hgap,
      Text.words_append_of_blank hg.blank, Text.words_of_isWord hp]
  simp only [param, hwords, kind?_kindWord, String.ofList_toList]

theorem mapM_param {params : List Param} {pieces : List (List Char)} (h : List.Forall₂ WrittenParam params pieces)
    (hp : ∀ p ∈ params, IsWord p.name.toList) : (pieces.map trim).mapM param = .ok params := by
  induction h with
  | nil => rfl
  | @cons p s params pieces hs _ ih =>
      obtain ⟨hw, hp⟩ := List.forall_mem_cons.mp hp
      rw [List.map_cons, List.mapM_cons, hs.param_trim hw, ih hp]
      rfl

theorem not_mem_pieces {c : Char} {params : List Param} {pieces : List (List Char)}
    (h : List.Forall₂ WrittenParam params pieces) (hc : Unpadded c) (hkind : ∀ kind, c ∉ kindWord kind)
    (hp : ∀ p ∈ params, c ∉ p.name.toList) : ∀ s ∈ pieces, c ∉ s := by
  induction h with
  | nil => exact fun _ hs => absurd hs List.not_mem_nil
  | cons hs _ ih =>
      obtain ⟨hname, hp⟩ := List.forall_mem_cons.mp hp
      obtain ⟨hg, _, hs⟩ := hs
      exact List.forall_mem_cons.mpr ⟨hs.not_mem hc (by simp [hkind, hc _ hg, hname]), ih hp⟩

/-! ## Definitions -/

variable {seen : List Definition} {name : String}

theorem ofParts_cons (hne : name.toList ≠ []) (parts : List (List Char)) :
    ofParts seen (name.toList :: parts) =
      if name ∈ seen.map (·.name) then .error (.duplicate name)
      else (parts.mapM param).map fun params => ⟨name, params⟩ := by
  have hseen : seen.any (·.name == name) = decide (name ∈ seen.map (·.name)) := by
    rw [Bool.eq_iff_iff]
    simp
  simp only [ofParts, List.isEmpty_eq_false_iff.mpr hne, Bool.false_eq_true, ↓reduceIte, String.ofList_toList, hseen,
    decide_eq_true_eq]

variable {n : Nat} {line piece : List Char} {rest : List (List Char)}

theorem ofLines_filler (h : WrittenLine none line) (hp : trim piece = trim line) :
    ofLines seen n (piece :: rest) = ofLines seen (n + 1) rest := by
  rw [ofLines, hp, if_pos h.isFiller]

theorem ofLines_definition {d : Definition} (h : WrittenLine (some d) line) (hp : trim piece = trim line)
    (hnew : d.name ∉ seen.map (·.name)) : ofLines seen n (piece :: rest) = ofLines (seen ++ [d]) (n + 1) rest := by
  cases h with
  | @definition _ l head pieces r hd hl hh hps hr hn =>
      have hcommas : ∀ s ∈ head :: pieces, ',' ∉ s :=
        List.forall_mem_cons.mpr ⟨hh.not_mem unpadded_comma hd.no_comma,
          not_mem_pieces hps unpadded_comma (by rintro ⟨⟩ <;> decide) fun p hp => (hd.params p hp).2⟩
      have hline : ofLine seen (trim piece) = .ok d := by
        rw [hp, ofLine_parenthesized seen hl.blank hr, Text.splitOn_flatMap hcommas, List.map_cons,
          hh.trim_eq hd.solid, ofParts_cons hd.ne_nil, if_neg hnew, mapM_param hps fun p hp => (hd.params p hp).1]
        rfl
      simp only [ofLines, hline]
      rw [hp, isFiller_parenthesized hl.blank, if_neg Bool.false_ne_true]

theorem ofLines_repeated (h : Heads name line) (hne : name.toList ≠ []) (hs : Solid name.toList)
    (hc : ',' ∉ name.toList) (hp : trim piece = trim line) (hold : name ∈ seen.map (·.name)) :
    ofLines seen n (piece :: rest) = .error ⟨n, .duplicate name⟩ := by
  cases h with
  | @mk l head more r hl hh hm hu hr hn =>
      have hhead : ',' ∉ head := hh.not_mem unpadded_comma hc
      obtain ⟨parts, hparts⟩ : ∃ parts, splitOn ',' (head ++ more) = head :: parts := by
        rcases hm with rfl | hm
        · exact ⟨[], by rw [List.append_nil, Text.splitOn_of_not_mem hhead]⟩
        · obtain ⟨more, rfl⟩ := List.head?_eq_some_iff.mp hm
          exact ⟨_, by rw [Text.splitOn_append, Text.splitOn_of_not_mem hhead, List.singleton_append]⟩
      have hline : ofLine seen (trim piece) = .error (.duplicate name) := by
        rw [hp, ofLine_parenthesized seen hl.blank hr, hparts, List.map_cons, hh.trim_eq hs, ofParts_cons hne,
          if_pos hold]
      simp only [ofLines, hline]
      rw [hp, isFiller_parenthesized hl.blank, if_neg Bool.false_ne_true]

/-! ## Files -/

theorem Heads.unbroken (h : Heads name line) (hu : '\n' ∉ name.toList) : '\n' ∉ line := by
  obtain ⟨hl, hh, _, hmore, _, hn⟩ := h
  simp [hl.unbroken, hh.not_mem unpadded_newline hu, hmore, hn]

theorem WrittenLine.writable {d : Definition} (h : WrittenLine (some d) line) : Writable d := by
  cases h with
  | definition hd => exact hd

theorem WrittenLine.heads {d : Definition} (h : WrittenLine (some d) line) : Heads d.name line := by
  cases h with
  | @definition _ l head pieces r hd hl hh hps hr hn =>
      refine .mk hl hh ?_ ?_ hr hn
      · cases pieces with
        | nil => exact Or.inl rfl
        | cons s pieces => exact Or.inr rfl
      · have hp : ∀ p ∈ d.params, '\n' ∉ p.name.toList := fun p hp hm =>
          absurd ((hd.params p hp).1.not_blank _ hm) (by decide)
        have hs := not_mem_pieces hps unpadded_newline (by rintro ⟨⟩ <;> decide) hp
        simpa using hs

theorem WrittenLine.unbroken {d? : Option Definition} (h : WrittenLine d? line) : '\n' ∉ line := by
  cases d? with
  | none =>
      cases h with
      | blank hs => exact hs.unbroken
      | comment hl hs => simp [hl.unbroken, hs]
  | some d => exact h.heads.unbroken h.writable.unbroken

theorem exists_piece {text : List Char} (hl : '\n' ∉ line) (ht : text = [] ∧ line ≠ [] ∨ text.head? = some '\n') :
    ∃ piece, Text.lines (line ++ text) = piece :: Text.lines text.tail ∧ trim piece = trim line := by
  rcases ht with ⟨rfl, hne⟩ | ht
  · exact ⟨line, by rw [List.append_nil, Text.lines_last hne hl]; rfl, rfl⟩
  · obtain ⟨text, rfl⟩ := List.head?_eq_some_iff.mp ht
    obtain ⟨piece, hp, hs⟩ := Text.exists_line hl
    refine ⟨piece, by rw [Text.lines_append, hp]; rfl, ?_⟩
    rcases hs with rfl | rfl
    · rfl
    · exact (Text.trim_padded .nil (by decide) piece).symm

variable {d? : Option Definition} {items : List (Option Definition)} {lines : List (List Char)}

/-- One line of a file: what it defines is found, unless its name has been given before. -/
theorem ofLines_line {text : List Char} (h : WrittenLine d? line)
    (ht : text = [] ∧ line ≠ [] ∨ text.head? = some '\n') (hnew : ∀ d, d? = some d → d.name ∉ seen.map (·.name)) :
    ofLines seen n (Text.lines (line ++ text)) = ofLines (seen ++ d?.toList) (n + 1) (Text.lines text.tail) := by
  obtain ⟨piece, hlines, hp⟩ := exists_piece h.unbroken ht
  rw [hlines]
  cases d? with
  | none => rw [ofLines_filler h hp, Option.toList_none, List.append_nil]
  | some d => rw [ofLines_definition h hp (hnew d rfl), Option.toList_some]

/-- Whole lines with distinct names, in front of anything. -/
theorem ofLines_unlines (h : List.Forall₂ WrittenLine items lines)
    (hd : (seen.map (·.name) ++ items.reduceOption.map (·.name)).Nodup) (text : List Char) :
    ofLines seen n (Text.lines (unlines lines ++ text)) =
      ofLines (seen ++ items.reduceOption) (n + lines.length) (Text.lines text) := by
  induction h generalizing seen n with
  | nil => simp [unlines]
  | @cons d? line items lines hl _ ih =>
      have hsplit : unlines (line :: lines) ++ text = line ++ '\n' :: (unlines lines ++ text) := by
        simp [unlines]
      have hnew : ∀ d, d? = some d → d.name ∉ seen.map (·.name) := by
        rintro d rfl hm
        rw [List.reduceOption_cons_of_some, List.map_cons] at hd
        exact (List.nodup_append.mp hd).2.2 _ hm _ List.mem_cons_self rfl
      have hrest : ((seen ++ d?.toList).map (·.name) ++ items.reduceOption.map (·.name)).Nodup := by
        cases d? with
        | none => simpa using hd
        | some d => simpa using hd
      rw [hsplit, ofLines_line hl (Or.inr rfl) hnew, List.tail_cons, ih hrest]
      cases d? <;> simp [Nat.add_assoc, Nat.add_comm 1]

theorem read_unlines (h : List.Forall₂ WrittenLine items lines) (hd : (items.reduceOption.map (·.name)).Nodup)
    {text : List Char} {source : String} (hs : source.toList = unlines lines ++ text) :
    read source = ofLines items.reduceOption (lines.length + 1) (Text.lines text) := by
  have hd' : (([] : List Definition).map (·.name) ++ items.reduceOption.map (·.name)).Nodup := hd
  rw [read, hs, ofLines_unlines h hd', List.nil_append, Nat.add_comm]

/-! ## The end of a file -/

theorem newline_cons_unlines (back : List (List Char)) :
    ∃ rest, '\n' :: unlines back = rest ++ ['\n'] ∧ (rest = [] ∨ rest.head? = some '\n') ∧ (back = [] → rest = []) := by
  rcases List.eq_nil_or_concat' back with rfl | ⟨init, last, rfl⟩
  · exact ⟨[], rfl, Or.inl rfl, fun _ => rfl⟩
  · exact ⟨'\n' :: (unlines init ++ last), by simp [unlines], Or.inr rfl, by simp⟩

theorem MakesUp.split {front back : List (List Char)} {text : List Char} (h : MakesUp (front ++ line :: back) text) :
    ∃ rest, text = unlines front ++ (line ++ rest) ∧ (rest = [] ∨ rest.head? = some '\n') ∧
      (back = [] → rest.tail = []) := by
  have hsplit : unlines (front ++ line :: back) = unlines front ++ (line ++ '\n' :: unlines back) := by
    simp [unlines]
  rw [MakesUp, hsplit] at h
  rcases h with rfl | h
  · refine ⟨_, rfl, Or.inr rfl, ?_⟩
    rintro rfl
    rfl
  · obtain ⟨rest, hrest, hhead, hback⟩ := newline_cons_unlines back
    rw [hrest, ← List.append_assoc line, ← List.append_assoc, List.append_cancel_right_eq] at h
    exact ⟨rest, h, hhead, fun hb => by rw [hback hb, List.tail_nil]⟩

theorem split_lines {front back : List (Option Definition)}
    (h : List.Forall₂ WrittenLine (front ++ d? :: back) lines) :
    ∃ line rest, lines = lines.take front.length ++ line :: rest ∧ rest.length = back.length ∧ WrittenLine d? line ∧
      List.Forall₂ WrittenLine front (lines.take front.length) := by
  have hfront := List.forall₂_take front.length h
  have hback := List.forall₂_drop front.length h
  rw [List.take_left] at hfront
  rw [List.drop_left] at hback
  obtain ⟨line, rest, hline, hrest, hdrop⟩ := List.forall₂_cons_left_iff.mp hback
  exact ⟨line, rest, by rw [← hdrop, List.take_append_drop], hrest.length_eq.symm, hline, hfront⟩

theorem ofLines_last {text : List Char} (h : WrittenLine d? line) (ht : text = [] ∨ text.head? = some '\n')
    (htail : text.tail = []) (hnew : ∀ d, d? = some d → d.name ∉ seen.map (·.name)) :
    ofLines seen n (Text.lines (line ++ text)) = .ok (seen ++ d?.toList) := by
  by_cases hnil : text = [] ∧ line = []
  · obtain ⟨rfl, rfl⟩ := hnil
    cases d? with
    | none => simp [Text.lines, ofLines]
    | some d =>
        generalize hline : ([] : List Char) = line at h
        cases h.heads
        simp at hline
  · have ht' : text = [] ∧ line ≠ [] ∨ text.head? = some '\n' := ht.imp_left fun ht => ⟨ht, fun hl => hnil ⟨ht, hl⟩⟩
    rw [ofLines_line h ht' hnew, htail]
    rfl

theorem read_of_nodup (h : List.Forall₂ WrittenLine items lines) (hd : (items.reduceOption.map (·.name)).Nodup)
    {source : String} (hm : MakesUp lines source.toList) : read source = .ok items.reduceOption := by
  rcases List.eq_nil_or_concat' items with rfl | ⟨front, d?, rfl⟩
  · cases h
    obtain hm | hm : source.toList = [] ∨ source.toList ++ ['\n'] = [] := hm
    · rw [read, hm]
      rfl
    · simp at hm
  · obtain ⟨line, rest, hlines, hrest, hline, hfront⟩ := split_lines h
    obtain rfl := List.length_eq_zero_iff.mp hrest
    rw [hlines] at hm
    obtain ⟨text, htext, hhead, htail⟩ := hm.split
    rw [List.reduceOption_append, List.map_append, List.nodup_append] at hd
    have hnew : ∀ d, d? = some d → d.name ∉ front.reduceOption.map (·.name) := by
      rintro d rfl hm
      exact hd.2.2 _ hm _ List.mem_cons_self rfl
    rw [read_unlines hfront hd.1 htext, ofLines_last hline hhead (htail rfl) hnew, List.reduceOption_append]
    cases d? <;> rfl

theorem read_of_repeated {front : List (Option Definition)} {front' : List (List Char)}
    (h : List.Forall₂ WrittenLine front front') (hd : (front.reduceOption.map (·.name)).Nodup)
    (hline : Heads name line) (hne : name.toList ≠ []) (hs : Solid name.toList)
    (hc : ',' ∉ name.toList) (hu : '\n' ∉ name.toList) (hold : name ∈ front.reduceOption.map (·.name)) {text : List Char}
    (ht : text = [] ∨ text.head? = some '\n') {source : String}
    (hsource : source.toList = unlines front' ++ (line ++ text)) :
    read source = .error ⟨front.length + 1, .duplicate name⟩ := by
  have hne' : line ≠ [] := by
    cases hline
    simp
  obtain ⟨piece, hlines, hp⟩ := exists_piece (hline.unbroken hu) (ht.imp_left fun ht => ⟨ht, hne'⟩)
  rw [read_unlines h hd hsource, hlines, ofLines_repeated hline hne hs hc hp hold, h.length_eq]

/-- Where a list has something twice, there is a first place at which something is there again. -/
theorem exists_repeated (h : ¬ (items.reduceOption.map (·.name)).Nodup) :
    ∃ front d back, items = front ++ some d :: back ∧ (front.reduceOption.map (·.name)).Nodup ∧
      d.name ∈ front.reduceOption.map (·.name) := by
  induction items using List.reverseRecOn with
  | nil => exact absurd List.nodup_nil h
  | append_singleton items d? ih =>
      by_cases hd : (items.reduceOption.map (·.name)).Nodup
      · rw [List.reduceOption_append, List.map_append, List.nodup_append] at h
        cases d? with
        | none => simp [hd] at h
        | some d =>
            refine ⟨items, d, [], rfl, hd, ?_⟩
            by_contra hm
            exact h ⟨hd, by simp, by simpa using hm⟩
      · obtain ⟨front, d, back, rfl, hfront, hm⟩ := ih hd
        exact ⟨front, d, back ++ [d?], by simp, hfront, hm⟩

/-- Reading finds what has been written, in the same order. If a name is repeated, the first line that does so is
named, whatever follows the name. -/
theorem read_written {items : List (Option Definition)} {lines : List (List Char)}
    (h : List.Forall₂ WrittenLine items lines) :
    ((items.reduceOption.map (·.name)).Nodup →
        ∀ source : String, MakesUp lines source.toList → read source = .ok items.reduceOption) ∧
      (¬ (items.reduceOption.map (·.name)).Nodup → ∃ front d back, items = front ++ some d :: back ∧
        (front.reduceOption.map (·.name)).Nodup ∧ d.name ∈ front.reduceOption.map (·.name) ∧
        ∀ source : String, (MakesUp lines source.toList ∨ ∃ line text, Heads d.name line ∧
            (text = [] ∨ text.head? = some '\n') ∧
            source.toList = unlines (lines.take front.length) ++ (line ++ text)) →
          (read source).mapError DefinitionError.message =
            .error s!"builtins.def:{front.length + 1}: `{d.name}` defined twice") := by
  refine ⟨fun hd source hm => read_of_nodup h hd hm, fun hd => ?_⟩
  obtain ⟨front, d, back, rfl, hfront, hm⟩ := exists_repeated hd
  refine ⟨front, d, back, rfl, hfront, hm, fun source hsource => ?_⟩
  obtain ⟨line, rest, hlines, _, hline, htake⟩ := split_lines h
  have hw := hline.writable
  obtain ⟨line', text, hheads, ht, htext⟩ : ∃ line text, Heads d.name line ∧ (text = [] ∨ text.head? = some '\n') ∧
      source.toList = unlines (lines.take front.length) ++ (line ++ text) := by
    rcases hsource with hsource | hsource
    · rw [hlines] at hsource
      obtain ⟨text, htext, ht, _⟩ := hsource.split
      exact ⟨line, text, hline.heads, ht, htext⟩
    · exact hsource
  rw [read_of_repeated htake hfront hheads hw.ne_nil hw.solid hw.no_comma hw.unbroken hm ht htext]
  rfl

/-- Two functions between a comment and a blank line, the first with a name of two words and a remark behind it. Where
the last line names the first one again, it is refused. -/
theorem read_written_padded :
    read " # names\n\tDEF( f (x)\t,NUM\ta , STRID  \"b\" ) see g\r\n\nDEF(g)" =
        .ok [⟨"f (x)", [⟨"a", .numeric⟩, ⟨"\"b\"", .languageString⟩]⟩, ⟨"g", []⟩] ∧
      (read " # names\n\tDEF( f (x)\t,NUM\ta , STRID  \"b\" ) see g\r\n\nDEF(f (x) , OTHER)\nno more").mapError
          DefinitionError.message = .error "builtins.def:4: `f (x)` defined twice" := by
  have bare : Pad [] := by decide
  have blank : Pad [' '] := by decide
  have blanks : Pad [' ', ' '] := by decide
  have tab : Pad ['\t'] := by decide
  have comment : WrittenLine none " # names".toList := .comment blank (by decide)
  have a : WrittenParam ⟨"a", .numeric⟩ "NUM\ta ".toList := .mk tab (by decide) (.mk bare blank)
  have b : WrittenParam ⟨"\"b\"", .languageString⟩ " STRID  \"b\" ".toList := .mk blanks (by decide) (.mk blank blank)
  have hf : Writable ⟨"f (x)", [⟨"a", .numeric⟩, ⟨"\"b\"", .languageString⟩]⟩ := by constructor <;> decide
  have f : WrittenLine _ "\tDEF( f (x)\t,NUM\ta , STRID  \"b\" ) see g\r".toList :=
    .definition (r := " see g\r".toList) hf tab (.mk blank tab) (.cons a (.cons b .nil)) (by decide) (by decide)
  have hg : Writable ⟨"g", []⟩ := by constructor <;> decide
  have g : WrittenLine _ "DEF(g)".toList :=
    .definition (r := []) hg bare (.mk bare bare) .nil (by decide) (by decide)
  have again : Heads "f (x)" "DEF(f (x) , OTHER)".toList :=
    @Heads.mk _ [] "f (x) ".toList ", OTHER".toList [] bare (.mk bare blank) (Or.inr rfl) (by decide) (by decide)
      (by decide)
  refine ⟨(read_written (.cons comment (.cons f (.cons (.blank bare) (.cons g .nil))))).1 (by decide) _
    (Or.inr (by decide +kernel)), ?_⟩
  -- the fourth line is the only one that can name a function again
  obtain ⟨front, d, back, hitems, -, hd, hread⟩ :=
    (read_written (.cons comment (.cons f (.cons (.blank bare) (.cons f .nil))))).2 (by decide)
  rcases front with _ | ⟨x, _ | ⟨y, _ | ⟨z, _ | ⟨w, front⟩⟩⟩⟩ <;> simp at hitems
  · simp [← hitems.1] at hd
  · obtain ⟨rfl, rfl, rfl, rfl, rfl⟩ := hitems
    exact hread _ (Or.inr ⟨_, "\nno more".toList, again, Or.inr rfl, by decide +kernel⟩)

end Unstack.Definition
