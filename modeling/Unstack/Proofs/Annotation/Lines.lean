import Unstack.Decompile
import Unstack.Proofs.Annotation
import Unstack.Proofs.Script.Listing
import Unstack.Proofs.Text.Trim

/-!
# Annotations line by line

Every line is annotated by itself: nothing but the blanks at its end is lost, and a call looks at no more lines above it
than it has arguments. The value of an argument is the number that its line has lifting emit, from whatever draft.
-/

namespace Unstack

open Command (Calls Pushes Reads codeWords)

/-! ## Lines that emit a number -/

theorem Command.pushes_of_reads {line : String} {v : Int} (h : Reads (codeWords line) (.push v)) : Pushes line v := by
  have hw := codeWords_eq line
  generalize hws : codeWords line = ws at h
  cases h with
  | @push ps _ hv =>
      cases ps with
      | nil => cases hv
      | cons operand rest =>
          rcases hw with hw | hw
          · exact ⟨operand, rest, hw.symm.trans hws, hv⟩
          · cases hw.symm.trans hws

namespace Draft

variable {d : Draft} {line : String}

/-- The line can be lifted, and what it emits is one instruction with this action. -/
def Emits (d : Draft) (line : String) (action : Action) : Prop :=
  ∃ d', d.stepLine line = .ok d' ∧ d'.emitted = d.emitted.push ⟨d.offset, action⟩

/-- Lines that push a number, and no others, emit it as a literal; the draft has no say in it. -/
theorem emits_literal_iff {v : Int} : d.Emits line (.assign (.literal v)) ↔ Pushes line v := by
  constructor
  · rintro ⟨d', hl, he⟩
    obtain ⟨c, d₁, hr, hs, rfl⟩ := stepLine_eq_ok hl
    have hnew : d₁.emitted[d.emitted.size]? = some ⟨d.offset, .assign (.literal v)⟩ := by
      show (d₁.advance).emitted[_]? = _
      rw [he, Array.getElem?_push_size]
    cases hs with
    | push =>
        rw [push, getElem?_emit_size] at hnew
        cases hnew
        exact Command.pushes_of_reads hr
    | skip | label | drop | unary => simp [applyUnary] at hnew
    | pushArgument | pushLocal | binary | call | jump | branch | takeResult | ret | unknown =>
        cases (getElem?_emit_size _ _).symm.trans hnew
  · intro h
    exact ⟨_, stepLine_of_step h.ofLine .push, rfl⟩

end Draft

namespace Annotation

variable {reg : Registry} {strings : Option (List String)} {line name : String} {sig : Signature} {lines : List String}

theorem pushed?_eq_some {v : Int} : pushed? line = some v ↔ Pushes line v := by
  refine ⟨fun h => ?_, pushed?_of_pushes⟩
  simp only [pushed?] at h
  split at h
  · rename_i operand rest hw
    exact ⟨operand, rest, hw, h⟩
  · cases h

theorem annotated?_eq_some :
    annotated? reg line = some (name, sig) ↔ Calls line name ∧ reg.lookup name = some sig ∧ sig.params ≠ [] := by
  refine ⟨fun h => ?_, fun h => annotated?_of_calls h.1 h.2.1 h.2.2⟩
  simp only [annotated?] at h
  split at h
  · rename_i name' rest hw
    obtain ⟨sig', hsig, he⟩ := Option.map_eq_some_iff.mp h
    cases he
    obtain ⟨hsig, hne⟩ := Option.filter_eq_some_iff.mp hsig
    exact ⟨⟨rest, hw⟩, hsig, by simpa using hne⟩
  · cases h

/-! ## What stands in the place of a line -/

/-- The value of argument number `i` of a call in line `j`: the number that the line `i + 1` lines above it emits. -/
def ValueAt (lines : List String) (j i : Nat) (value? : Option Int) : Prop :=
  ∀ (d : Draft) v, value? = some v ↔
    i + 1 ≤ j ∧ ∃ line, lines[j - (i + 1)]? = some line ∧ d.Emits line (.assign (.literal v))

/-- The text shows the value of an argument, which is a question mark if there is none. -/
inductive Shown (strings : Option (List String)) (kind : ParamKind) : Option Int → String → Prop where
  | value {v text} (h : Rendered strings kind v text) : Shown strings kind (some v) text
  | unknown : Shown strings kind none "?"

/-- The text stands in the place of line `j`, which is `front` but for the blanks at its end. It is made from the line
and from `k` lines above it. -/
inductive Annotated (reg : Registry) (strings : Option (List String)) (lines : List String) (j : Nat)
    (line front : String) : Nat → String → Prop where
  | bare (h : ∀ name sig, Calls line name → reg.lookup name = some sig → sig.params = []) :
      Annotated reg strings lines j line front 0 front
  | call {name : String} {sig : Signature} {entries : List String} (hc : Calls line name)
      (hsig : reg.lookup name = some sig) (hne : sig.params ≠ []) (hlen : entries.length = sig.params.length)
      (he : ∀ i p, sig.params[i]? = some p → ∃ value? text, ValueAt lines j i value? ∧ Shown strings p.kind value? text ∧
        entries[i]? = some s!" {i}({p.name}):{text}") :
      Annotated reg strings lines j line front sig.params.length (front ++ " args:" ++ String.join entries)

theorem getElem?_annotateAfter (above lines : List String) (j : Nat) :
    (annotateAfter strings reg above lines)[j]? =
      lines[j]?.map (lineText strings reg ((lines.take j).reverse ++ above)) := by
  induction lines generalizing above j with
  | nil => rfl
  | cons line lines ih =>
      cases j with
      | zero => rfl
      | succ j => simp [annotateAfter, ih]

theorem getElem?_annotate (lines : List String) (j : Nat) :
    (annotate reg strings lines)[j]? = lines[j]?.map (lineText strings reg (lines.take j).reverse) := by
  rw [annotate, getElem?_annotateAfter, List.append_nil]

theorem length_annotateAfter (above lines : List String) :
    (annotateAfter strings reg above lines).length = lines.length := by
  induction lines generalizing above with
  | nil => rfl
  | cons line lines ih => exact congrArg (· + 1) (ih (line :: above))

theorem getElem?_above {j : Nat} (hj : j ≤ lines.length) (i : Nat) :
    (lines.take j).reverse[i]? = if i + 1 ≤ j then lines[j - (i + 1)]? else none := by
  split
  · rename_i hi
    have hlen : i < (lines.take j).length := by
      rw [List.length_take]
      omega
    rw [List.getElem?_reverse hlen, List.length_take, Nat.min_eq_left hj, List.getElem?_take_of_lt (by omega)]
    congr 1
    omega
  · rename_i hi
    rw [List.getElem?_eq_none_iff, List.length_reverse, List.length_take]
    omega

theorem valueAt_above {j : Nat} (hj : j ≤ lines.length) (i : Nat) :
    ValueAt lines j i ((lines.take j).reverse[i]?.bind pushed?) := by
  intro d v
  rw [getElem?_above hj, Option.bind_eq_some_iff]
  split
  · rename_i hi
    simp only [pushed?_eq_some, Draft.emits_literal_iff, hi, true_and]
  · rename_i hi
    simp [hi]

theorem exists_shown (strings : Option (List String)) (i : Nat) (p : Param) (value? : Option Int) :
    ∃ text, Shown strings p.kind value? text ∧ argumentText strings i p value? = s!" {i}({p.name}):{text}" := by
  cases value? with
  | none => exact ⟨"?", .unknown, rfl⟩
  | some v => exact ⟨valueText strings v p.kind, .value (rendered_valueText strings p.kind v), rfl⟩

/-- A line's annotation is the same below lines that are the same as far up as it looks. -/
theorem annotated_lineText (reg : Registry) (strings : Option (List String)) (line : String) {j : Nat}
    (hj : j ≤ lines.length) :
    ∃ k, Annotated reg strings lines j line (trimmed line) k (lineText strings reg (lines.take j).reverse line) ∧
      ∀ above, (∀ i < k, above[i]? = (lines.take j).reverse[i]?) →
        lineText strings reg above line = lineText strings reg (lines.take j).reverse line := by
  cases ha : annotated? reg line with
  | none =>
      refine ⟨0, ?_, fun above _ => by simp only [lineText, ha]⟩
      simp only [lineText, ha]
      refine .bare fun name sig hc hsig => ?_
      by_contra hne
      rw [annotated?_of_calls hc hsig hne] at ha
      cases ha
  | some call =>
      obtain ⟨name, sig⟩ := call
      obtain ⟨hc, hsig, hne⟩ := annotated?_eq_some.mp ha
      refine ⟨sig.params.length, ?_, fun above habove => ?_⟩
      · simp only [lineText, ha]
        refine .call hc hsig hne (by simp [arguments]) fun i p hp => ?_
        obtain ⟨text, hshown, htext⟩ := exists_shown strings i p ((lines.take j).reverse[i]?.bind pushed?)
        exact ⟨_, text, valueAt_above hj i, hshown, by simp [arguments, hp, htext]⟩
      · simp only [lineText, ha]
        congr 3
        refine List.map_congr_left fun q hq => ?_
        have hi : q.2 < sig.params.length := List.snd_lt_of_mem_zipIdx hq
        show (q.2, q.1, above[q.2]?.bind pushed?) = _
        rw [habove _ hi]

/-! ## Newlines -/

theorem newline_not_mem_repr (v : Int) : '\n' ∉ v.repr.toList := by
  have hnat : ∀ n : Nat, '\n' ∉ n.repr.toList := by
    intro n
    rw [Nat.repr_eq_ofList_toDigits, String.toList_ofList]
    exact Decimal.newline_not_mem_toDigits n
  cases v with
  | ofNat n => exact hnat n
  | negSucc n =>
      show '\n' ∉ ("-" ++ (n + 1).repr).toList
      rw [String.toList_append, List.mem_append, not_or]
      exact ⟨by decide, hnat (n + 1)⟩

theorem Rendered.newline_not_mem {kind : ParamKind} {v : Int} {text : String} (h : Rendered strings kind v text)
    (hs : ∀ table, strings = some table → ∀ s ∈ table, '\n' ∉ s.toList) : '\n' ∉ text.toList := by
  cases h with
  | number => exact newline_not_mem_repr v
  | string ht hi => exact hs _ ht _ (List.mem_of_getElem? hi)
  | missing | language =>
      simp only [String.toList_append, List.mem_append, not_or]
      exact ⟨⟨by decide, newline_not_mem_repr v⟩, by decide⟩

theorem newline_not_mem_argumentText (hs : ∀ table, strings = some table → ∀ s ∈ table, '\n' ∉ s.toList) (i : Nat)
    {p : Param} (hp : '\n' ∉ p.name.toList) (value? : Option Int) :
    '\n' ∉ (argumentText strings i p value?).toList := by
  obtain ⟨text, hshown, htext⟩ := exists_shown strings i p value?
  have hn : '\n' ∉ text.toList := by
    cases hshown with
    | value h => exact h.newline_not_mem hs
    | unknown => decide
  rw [htext]
  simp only [String.toList_append, List.mem_append, not_or]
  exact ⟨⟨⟨⟨⟨by decide, newline_not_mem_repr i⟩, by decide⟩, hp⟩, by decide⟩, hn⟩

theorem newline_not_mem_join {l : List String} (h : ∀ text ∈ l, '\n' ∉ text.toList) : '\n' ∉ (String.join l).toList := by
  simpa [String.toList_join] using h

theorem newline_not_mem_lineText (hreg : ∀ e ∈ reg.entries, ∀ p ∈ e.2.params, '\n' ∉ p.name.toList)
    (hs : ∀ table, strings = some table → ∀ s ∈ table, '\n' ∉ s.toList) (hl : '\n' ∉ line.toList)
    (above : List String) : '\n' ∉ (lineText strings reg above line).toList := by
  have hfront : '\n' ∉ (trimmed line).toList := by
    rw [trimmed, String.toList_ofList]
    exact Text.not_mem_trimEnd hl
  cases ha : annotated? reg line with
  | none => simpa only [lineText, ha] using hfront
  | some call =>
      obtain ⟨name, sig⟩ := call
      have hsig := (annotated?_eq_some.mp ha).2.1
      have hparams := hreg _ (Table.get?_eq_some.mp hsig)
      simp only [lineText, ha, String.toList_append, List.mem_append, not_or]
      refine ⟨⟨hfront, by decide⟩, newline_not_mem_join fun text htext => ?_⟩
      obtain ⟨q, hq, rfl⟩ := List.mem_map.mp htext
      obtain ⟨r, hr, rfl⟩ := List.mem_map.mp hq
      exact newline_not_mem_argumentText hs _ (hparams _ (List.fst_mem_of_mem_zipIdx hr)) _

end Annotation

open Annotation

/-- There is an annotation for each line, made from the line and from as many lines above it as the line's call has
arguments; and annotating a source never fails and keeps the number of its lines. -/
theorem annotate_conservative (reg : Registry) (strings : Option (List String)) (lines : List String) :
    (annotate reg strings lines).length = lines.length ∧
      (∀ j line, lines[j]? = some line → ∃ front blanks k text,
        line.toList = front.toList ++ blanks ∧ Text.Blank blanks ∧ Text.EndsSolid front.toList ∧
          (annotate reg strings lines)[j]? = some text ∧ Annotated reg strings lines j line front k text ∧
          ∀ lines', (∀ i ≤ j, j ≤ i + k → lines'[i]? = lines[i]?) → (annotate reg strings lines')[j]? = some text) ∧
      ∀ source, ∃ text, decompile reg ⟨.annotate, strings⟩ source = .ok text ∧
        text = String.join ((annotate reg strings (Script.sourceLines source)).map (· ++ "\n")) ∧
        ((∀ e ∈ reg.entries, ∀ p ∈ e.2.params, '\n' ∉ p.name.toList) →
          (∀ table, strings = some table → ∀ s ∈ table, '\n' ∉ s.toList) →
            (Script.sourceLines text).length = (Script.sourceLines source).length) := by
  refine ⟨length_annotateAfter [] lines, fun j line hline => ?_, fun source => ⟨_, rfl, rfl, fun hreg hs => ?_⟩⟩
  · have hj : j < lines.length := (List.getElem?_eq_some_iff.mp hline).1
    obtain ⟨blanks, hfront, hblanks, hends⟩ := Text.exists_trimEnd line.toList
    obtain ⟨k, hk, hlocal⟩ := annotated_lineText reg strings line (Nat.le_of_lt hj)
    refine ⟨trimmed line, blanks, k, _, ?_, hblanks, ?_, ?_, hk, fun lines' hlines' => ?_⟩
    · rwa [trimmed, String.toList_ofList]
    · rwa [trimmed, String.toList_ofList]
    · rw [getElem?_annotate, hline, Option.map_some]
    · have hline' : lines'[j]? = some line := by rw [hlines' j (Nat.le_refl j) (Nat.le_add_right j k), hline]
      have hj' : j < lines'.length := (List.getElem?_eq_some_iff.mp hline').1
      rw [getElem?_annotate, hline', Option.map_some, hlocal]
      intro i hi
      rw [getElem?_above (Nat.le_of_lt hj), getElem?_above (Nat.le_of_lt hj')]
      split
      · exact hlines' _ (Nat.sub_le _ _) (by omega)
      · rfl
  · refine (Script.length_sourceLines_join fun text htext => ?_).trans (length_annotateAfter [] _)
    obtain ⟨j, hj⟩ := List.mem_iff_getElem?.mp htext
    rw [getElem?_annotate] at hj
    obtain ⟨line, hline, rfl⟩ := Option.map_eq_some_iff.mp hj
    exact newline_not_mem_lineText hreg hs (Script.newline_not_mem_sourceLines (List.mem_of_getElem? hline)) _

theorem annotate_conservative_gap :
    (∀ lines', (∀ i ≤ 3, lines'[i]? = ["PUSH 0X1", "#PUSH 7", "PUSH\t0x0 #", "CALL loadMonsterShapes  "][i]?) →
      (annotate .standard (some ["KEEP.CPS"]) lines')[3]? =
        some "CALL loadMonsterShapes args: 0(file):KEEP.CPS 1(monsterId):? 2(p2):1") ∧
      ∃ text, decompile .standard ⟨.annotate, some ["KEEP.CPS"]⟩ "PUSH 0X1\r\n\r\nCALL loadMonsterShapes\r" = .ok text ∧
        (Script.sourceLines text).length = 3 := by
  obtain ⟨_, hline, hsource⟩ := annotate_conservative .standard (some ["KEEP.CPS"])
    ["PUSH 0X1", "#PUSH 7", "PUSH\t0x0 #", "CALL loadMonsterShapes  "]
  refine ⟨fun lines' h => ?_, ?_⟩
  · obtain ⟨_, _, _, text, _, _, _, htext, _, hlocal⟩ := hline 3 _ rfl
    rw [hlocal lines' fun i hi _ => h i hi, ← htext]
    decide +kernel
  · obtain ⟨text, htext, _, hcount⟩ := hsource "PUSH 0X1\r\n\r\nCALL loadMonsterShapes\r"
    refine ⟨text, htext, (hcount (by decide +kernel) ?_).trans (by decide)⟩
    rintro _ ⟨⟩
    decide

end Unstack
