import Unstack.Annotation
import Unstack.Builtin.Standard
import Unstack.Proofs.Pseudocode.LastCall

/-!
# What annotations show

Annotations read the values of a call off the lines above it, pseudocode finds them among the slots in front of it.
Where a call stands right behind the lines that push its values, the two ways lead to the same ones (`lastCall_agrees`).
-/

namespace Unstack

open Command (Pushes Calls)

variable {reg : Registry} {strings : Option (List String)} {name : String} {sig : Signature}

namespace Annotation

/-! ## Values by the kind of their parameter -/

/-- The text shows the value as the kind of its parameter has it. -/
inductive Rendered (strings : Option (List String)) : ParamKind → Int → String → Prop where
  | number {v} : Rendered strings .numeric v (toString v)
  | string {table : List String} {i : Nat} {text} (ht : strings = some table) (hi : table[i]? = some text) :
      Rendered strings .rawString i text
  /-- There is no table, or no string in it has this index. -/
  | missing {v : Int} (h : ∀ table, strings = some table → ∀ i : Nat, v = i → table[i]? = none) :
      Rendered strings .rawString v s!"<str:{v}>"
  | language {v} : Rendered strings .languageString v s!"<strid:{v}>"

theorem rendered_valueText (strings : Option (List String)) (kind : ParamKind) (v : Int) :
    Rendered strings kind v (valueText strings v kind) := by
  cases kind with
  | numeric => exact .number
  | languageString => exact .language
  | rawString =>
      simp only [valueText]
      cases hs : string? strings v with
      | none =>
          refine .missing fun table ht i hi => ?_
          rw [string?, hi, if_neg (by omega), ht] at hs
          exact hs
      | some text =>
          rw [string?] at hs
          split at hs
          · cases hs
          · rename_i hv
            obtain ⟨table, ht, hi⟩ := Option.bind_eq_some_iff.mp hs
            obtain ⟨i, rfl⟩ := Int.eq_ofNat_of_zero_le (Int.not_lt.mp hv)
            exact .string ht hi

/-! ## Lines with their annotations -/

theorem annotateAfter_append (above l₁ l₂ : List String) :
    annotateAfter strings reg above (l₁ ++ l₂) =
      annotateAfter strings reg above l₁ ++ annotateAfter strings reg (l₁.reverse ++ above) l₂ := by
  induction l₁ generalizing above with
  | nil => rfl
  | cons line l₁ ih => simp [annotateAfter, ih]

theorem pushed?_of_pushes {line : String} {v : Int} (h : Pushes line v) : pushed? line = some v := by
  obtain ⟨operand, rest, hw, hv⟩ := h
  simp only [pushed?, hw, hv]

theorem annotated?_of_calls {line : String} (h : Calls line name) (hsig : reg.lookup name = some sig)
    (hne : sig.params ≠ []) : annotated? reg line = some (name, sig) := by
  obtain ⟨rest, hw⟩ := h
  simp [annotated?, hw, hsig, Option.filter, hne]

/-- The lines right above a call show what they push. -/
theorem lineText_of_calls {call : String} {pushes above : List String} {values : List Int} (hc : Calls call name)
    (hsig : reg.lookup name = some sig) (hne : sig.params ≠ []) (hp : List.Forall₂ Pushes pushes values)
    (hlen : values.length = sig.params.length) :
    lineText strings reg (pushes ++ above) call = trimmed call ++ " args:" ++
      String.join ((sig.params.zip ((sig.params.zip values).map fun q => valueText strings q.2 q.1.kind)).mapIdx
        fun i q => s!" {i}({q.1.name}):{q.2}") := by
  rw [lineText, annotated?_of_calls hc hsig hne]
  refine congrArg (fun texts => trimmed call ++ " args:" ++ String.join texts) ?_
  refine List.ext_getElem (by simp [arguments, hlen]) fun i hi _ => ?_
  have hi : i < pushes.length := by simpa [arguments, hp.length_eq, hlen] using hi
  have hv : i < values.length := hp.length_eq ▸ hi
  have hpush := pushed?_of_pushes (hp.get hi hv)
  simp only [List.get_eq_getElem] at hpush
  simp [arguments, argumentText, List.getElem?_append_left hi, List.getElem?_eq_getElem hi, hpush]

end Annotation

open Annotation

/-- A disassembly that ends in a call right behind the lines that push its values can be lifted, and its last
instructions are these values under the names of the parameters, and the call; and the last annotation shows the same
values for the same parameters. -/
theorem lastCall_agrees {d : Draft} {front pushes : List String} {call : String} {values : List Int}
    (hd : ({} : Draft).run front = .ok d) (hp : List.Forall₂ Pushes pushes values.reverse) (hc : Calls call name)
    (hsig : reg.lookup name = some sig) (hne : sig.params ≠ []) (hlen : values.length = sig.params.length) :
    ∃ s, Script.ofLines (front ++ pushes ++ [call]) = .ok s ∧
      (∃ before last, (s.pseudocode reg).filter (¬ IsMarker ·) = before ++ last ∧
        List.Forall₂ Indents
          ((List.zipWith (fun p v => p.name ++ " := " ++ Hex.signed v) sig.params values).reverse ++
            [name ++ "(" ++ ", ".intercalate (sig.params.map (·.name)) ++ ")"]) last) ∧
      ∀ strings, ∃ texts,
        List.Forall₂ (fun q => Rendered strings q.1.kind q.2) (sig.params.zip values) texts ∧
          (annotate reg strings (front ++ pushes ++ [call])).getLast? =
            some (trimmed call ++ " args:" ++
              String.join ((sig.params.zip texts).mapIdx fun i q => s!" {i}({q.1.name}):{q.2}")) := by
  obtain ⟨s, c, hs, hinstr⟩ := Script.ofLines_call hd hp hc
  have hcode := Script.exists_lines_call hs hinstr hsig hlen
  simp only [Script.callText, hsig] at hcode
  refine ⟨s, hs, hcode, fun strings => ?_⟩
  refine ⟨(sig.params.zip values).map fun q => valueText strings q.2 q.1.kind, ?_, ?_⟩
  · rw [List.forall₂_map_right_iff, List.forall₂_same]
    exact fun q _ => rendered_valueText strings q.1.kind q.2
  · have hp : List.Forall₂ Pushes pushes.reverse values := by
      rwa [← List.forall₂_reverse_iff, List.reverse_reverse]
    rw [annotate, annotateAfter_append, List.getLast?_append, List.reverse_append, List.append_nil]
    simp only [annotateAfter, List.getLast?_singleton, Option.some_or,
      lineText_of_calls hc hsig hne hp hlen]

theorem lastCall_agrees_loadBitmap :
    ∃ s, Script.ofLines ["JUMP 4", "LABEL 7", "POPLOCVAR 1", "CALL testGameFlag", "PUSH 0X2", "PUSH 0x1",
        "CALL loadBitmap"] = .ok s ∧
      (∃ before last, (s.pseudocode .standard).filter (¬ IsMarker ·) = before ++ last ∧
        List.Forall₂ Indents ["param := 0x2", "file := 0x1", "loadBitmap(file, param)"] last) ∧
      (annotate .standard (some ["KEEP.CPS", "MAP.CPS"]) ["JUMP 4", "LABEL 7", "POPLOCVAR 1", "CALL testGameFlag",
        "PUSH 0X2", "PUSH 0x1", "CALL loadBitmap"]).getLast? =
          some "CALL loadBitmap args: 0(file):MAP.CPS 1(param):2" := by
  obtain ⟨d, hd, _⟩ : ∃ d, ({} : Draft).run ["JUMP 4", "LABEL 7", "POPLOCVAR 1", "CALL testGameFlag"] = .ok d ∧
      d.live = [2, 1, 0] := exists_ok (by decide +kernel)
  have hp : List.Forall₂ Pushes ["PUSH 0X2", "PUSH 0x1"] [1, 2].reverse :=
    .cons ⟨"0X2", [], by decide, by decide⟩ (.cons ⟨"0x1", [], by decide, by decide⟩ .nil)
  have hsig : Registry.standard.lookup "loadBitmap" = some ⟨[⟨"file", .rawString⟩, ⟨"param", .numeric⟩]⟩ := by
    decide +kernel
  have hc : Calls "CALL loadBitmap" "loadBitmap" := ⟨[], by decide⟩
  obtain ⟨s, hs, hcode, _⟩ := lastCall_agrees hd hp hc hsig (by decide) rfl
  exact ⟨s, hs, hcode, by decide +kernel⟩

end Unstack
