import Unstack.Builtin.Standard
import Unstack.Decompile
import Unstack.Proofs.Draft.Relocation
import Unstack.Proofs.Text.Spacing

/-!
# Spacing does not matter

Neither line endings nor blanks behind a line make a difference to what a source text is decompiled to, and blanks in
front of words make none unless the lines themselves are shown (`decompile_spacing`).
-/

namespace Unstack

open Annotation (trimmed)
open Command (wordsOf)

/-! ## Lines with the same words -/

section

variable {lines lines' : List String} {line line' : String}

theorem Draft.stepLine_congr (h : wordsOf line = wordsOf line') (d : Draft) : d.stepLine line = d.stepLine line' := by
  simp only [stepLine, Command.ofLine, h]

theorem Draft.run_congr (h : lines.map wordsOf = lines'.map wordsOf) (d : Draft) : d.run lines = d.run lines' := by
  induction lines generalizing lines' d with
  | nil =>
      rw [List.map_nil, eq_comm, List.map_eq_nil_iff] at h
      rw [h]
  | cons line lines ih =>
      obtain ⟨line', lines', rfl, hline, hlines⟩ := List.map_eq_cons_iff.mp h.symm
      simp only [run, stepLine_congr hline.symm]
      congr 1
      exact funext fun d' => ih hlines.symm d'

theorem Script.ofLines_congr (h : lines.map wordsOf = lines'.map wordsOf) : ofLines lines = ofLines lines' := by
  rw [ofLines, ofLines, Draft.run_congr h]

/-- A line without words at the end is not noticed. -/
theorem Script.ofLines_concat (h : wordsOf line = []) (lines : List String) :
    ofLines (lines ++ [line]) = ofLines lines := by
  have hidle : ∀ l ∈ [line], Command.codeWords l = [] := by
    intro l hl
    rw [List.mem_singleton.mp hl, Command.codeWords, h]
  rw [ofLines, ofLines, Draft.run_append]
  cases ({} : Draft).run lines with
  | error e => rfl
  | ok d =>
      show (d.run [line]).bind Draft.finish = d.finish
      rw [Draft.run_idle hidle]
      rfl

end

/-! ## Lines without the blanks at their ends -/

theorem wordsOf_trimmed (line : String) : wordsOf (trimmed line) = wordsOf line := by
  rw [wordsOf, trimmed, String.toList_ofList, Text.words_trimEnd, wordsOf]

theorem Script.ofLines_trimmed (lines : List String) : ofLines (lines.map trimmed) = ofLines lines :=
  ofLines_congr (by simp only [List.map_map, Function.comp_def, wordsOf_trimmed])

namespace Annotation

variable (strings : Option (List String)) (reg : Registry)

theorem trimmed_trimmed (line : String) : trimmed (trimmed line) = trimmed line := by
  obtain ⟨_, _, _, hends⟩ := Text.exists_trimEnd line.toList
  rw [trimmed, trimmed, String.toList_ofList, Text.trimEnd_of_endsSolid hends]

theorem lineText_trimmed (above : List String) (line : String) :
    lineText strings reg (above.map trimmed) (trimmed line) = lineText strings reg above line := by
  have hpushed : pushed? ∘ trimmed = pushed? := by
    funext l
    simp only [Function.comp_apply, pushed?, wordsOf_trimmed]
  have hvalue : ∀ i : Nat, (above.map trimmed)[i]?.bind pushed? = above[i]?.bind pushed? := by
    intro i
    rw [List.getElem?_map, Option.bind_map, hpushed]
  have hcall : annotated? reg (trimmed line) = annotated? reg line := by simp only [annotated?, wordsOf_trimmed]
  simp only [lineText, arguments, hcall, hvalue, trimmed_trimmed]

theorem annotateAfter_trimmed (above lines : List String) :
    annotateAfter strings reg (above.map trimmed) (lines.map trimmed) = annotateAfter strings reg above lines := by
  induction lines generalizing above with
  | nil => rfl
  | cons line lines ih =>
      have hrest := ih (line :: above)
      rw [List.map_cons] at hrest
      simp only [List.map_cons, annotateAfter, lineText_trimmed, hrest]

end Annotation

/-! ## Source texts -/

section

variable {reg : Registry} {options : Options} {source source' : String}

/-- What a source text is decompiled to can be told from its lines without the blanks at their ends. -/
theorem decompile_of_trimmed
    (h : (Text.lines source.toList).map Text.trimEnd = (Text.lines source'.toList).map Text.trimEnd) :
    decompile reg options source = decompile reg options source' := by
  have htrimmed : ∀ text : String,
      (Script.sourceLines text).map trimmed = ((Text.lines text.toList).map Text.trimEnd).map String.ofList := by
    intro text
    simp only [Script.sourceLines, List.map_map, Function.comp_def, trimmed, String.toList_ofList]
  have hlines : (Script.sourceLines source).map trimmed = (Script.sourceLines source').map trimmed := by
    rw [htrimmed, htrimmed, h]
  have hscript : Script.ofLines (Script.sourceLines source) = Script.ofLines (Script.sourceLines source') := by
    rw [← Script.ofLines_trimmed, hlines, Script.ofLines_trimmed]
  have hannotated : annotate reg options.strings (Script.sourceLines source) =
      annotate reg options.strings (Script.sourceLines source') := by
    have hshown := Annotation.annotateAfter_trimmed options.strings reg []
    rw [annotate, annotate, ← hshown, hlines, hshown]
  simp only [decompile, outputLines, decompileLines, hscript, hannotated]

theorem map_wordsOf_ofList (ps : List (List Char)) :
    (ps.map String.ofList).map wordsOf = (ps.map Text.words).map (List.map String.ofList) := by
  simp only [List.map_map, Function.comp_def, wordsOf, String.toList_ofList]

/-- The pieces between newlines are as good as lines. -/
theorem Script.ofLines_pieces (source : String) :
    ofLines (sourceLines source) = ofLines ((Text.splitOn '\n' source.toList).map String.ofList) := by
  rcases Text.map_words_splitOn source.toList with h | h
  · refine ofLines_congr ?_
    rw [sourceLines, map_wordsOf_ofList, map_wordsOf_ofList, h]
  · have hblank : wordsOf "" = [] := by decide
    rw [← ofLines_concat hblank]
    refine ofLines_congr ?_
    rw [List.map_append, sourceLines, map_wordsOf_ofList, map_wordsOf_ofList, h, List.map_append]
    rfl

theorem decompile_of_respaced (hmode : options.mode ≠ .annotate) (h : Text.Respaced source.toList source'.toList) :
    decompile reg options source = decompile reg options source' := by
  have hscript : Script.ofLines (Script.sourceLines source) = Script.ofLines (Script.sourceLines source') := by
    rw [Script.ofLines_pieces, Script.ofLines_pieces]
    refine Script.ofLines_congr ?_
    rw [map_wordsOf_ofList, map_wordsOf_ofList, Text.respaced_iff.mp h]
  obtain ⟨mode, strings⟩ := options
  cases mode with
  | pseudo => simp only [decompile, outputLines, decompileLines, hscript]
  | listing => simp only [decompile, outputLines, hscript]
  | annotate => exact absurd rfl hmode

end

/-- A source text is decompiled to the same text, or refused for the same reason, with carriage returns in front of its
newlines, with blanks behind its lines and with a newline at its end; and, unless it is annotated, with other blanks
around its words. -/
theorem decompile_spacing (reg : Registry) (options : Options) (source : String) :
    decompile reg options (String.ofList (Text.crlf source.toList)) = decompile reg options source ∧
    (∀ source' : String, Text.Trailed source.toList source'.toList →
      decompile reg options source' = decompile reg options source) ∧
    (source ≠ "" → source.toList.getLast? ≠ some '\n' →
      decompile reg options (source ++ "\n") = decompile reg options source) ∧
    (options.mode ≠ .annotate → ∀ source' : String, Text.Respaced source.toList source'.toList →
      decompile reg options source' = decompile reg options source) := by
  have htrailed : ∀ source' : String, Text.Trailed source.toList source'.toList →
      decompile reg options source' = decompile reg options source :=
    fun _ h => decompile_of_trimmed (Text.map_trimEnd_of_trailed h)
  refine ⟨htrailed _ ?_, htrailed, fun hne hlast => decompile_of_trimmed ?_,
    fun hmode _ h => (decompile_of_respaced hmode h).symm⟩
  · rw [String.toList_ofList]
    exact Text.trailed_crlf source.toList
  · rw [String.toList_append]
    exact Text.map_trimEnd_lines_concat (fun h => hne (String.toList_eq_nil_iff.mp h)) hlast

/-- A tab in front of a carriage return, a carriage return without a newline, and blanks that are not spaces. -/
theorem decompile_spacing_mixed :
    (∀ options, decompile .standard options "PUSH 1\t\r\nCALL testGameFlag\r" =
      decompile .standard options "PUSH 1\r\nCALL testGameFlag") ∧
    (∀ options, decompile .standard options ("PUSH 1\r\nCALL testGameFlag" ++ "\n") =
      decompile .standard options "PUSH 1\r\nCALL testGameFlag") ∧
    decompile .standard {} "\tPUSH\u00a0\u20031\n\u3000CALL  testGameFlag\u2028" =
      decompile .standard {} "PUSH 1\r\nCALL testGameFlag" := by
  have hfrom : "PUSH 1\r\nCALL testGameFlag".toList =
      "PUSH 1".toList ++ ['\r'] ++ '\n' :: "CALL testGameFlag".toList := by
    decide +kernel
  have hto : "PUSH 1\t\r\nCALL testGameFlag\r".toList =
      "PUSH 1".toList ++ ['\t'] ++ ['\r'] ++ '\n' :: ("CALL testGameFlag".toList ++ ['\r']) := by
    decide +kernel
  have htrailed : Text.Trailed "PUSH 1\r\nCALL testGameFlag".toList "PUSH 1\t\r\nCALL testGameFlag\r".toList := by
    rw [hfrom, hto]
    exact .line (by decide +kernel) (by decide) (by decide) (Or.inr rfl)
      (.last (by decide +kernel) (by decide +kernel) Text.blank_return (by decide))
  have hrespaced : Text.Respaced "PUSH 1\r\nCALL testGameFlag".toList
      "\tPUSH\u00a0\u20031\n\u3000CALL  testGameFlag\u2028".toList :=
    Text.respaced_iff.mpr (by decide +kernel)
  refine ⟨fun options => ?_, fun options => ?_, ?_⟩
  · exact (decompile_spacing .standard options "PUSH 1\r\nCALL testGameFlag").2.1 _ htrailed
  · exact (decompile_spacing .standard options "PUSH 1\r\nCALL testGameFlag").2.2.1 (by decide) (by decide +kernel)
  · exact (decompile_spacing .standard {} "PUSH 1\r\nCALL testGameFlag").2.2.2 (by decide) _ hrespaced

end Unstack
