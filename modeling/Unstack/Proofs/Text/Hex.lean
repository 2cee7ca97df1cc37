import Unstack.Text.Hex

/-!
# Numbers read back

The digits that are written for a number have the number as their value, so two numbers are never written alike.
-/

namespace Unstack.Hex

theorem digit?_digitChar : ∀ d < 16, digit? d.digitChar = some d := by
  decide

theorem digits?_append (n : Nat) (s t : List Char) :
    digits? n (s ++ t) = (digits? n s).bind fun m => digits? m t := by
  induction s generalizing n with
  | nil => rfl
  | cons c s ih =>
      simp only [List.cons_append, digits?]
      cases digit? c with
      | none => rfl
      | some d => exact ih (16 * n + d)

theorem digits?_toDigits (n : Nat) : digits? 0 (Nat.toDigits 16 n) = some n := by
  induction n using Nat.strongRecOn with
  | ind n ih =>
      rcases Nat.lt_or_ge n 16 with hlt | hle
      · rw [Nat.toDigits_of_lt_base hlt]
        simp [digits?, digit?_digitChar n hlt]
      · have hdiv : n / 16 < n := Nat.div_lt_self (by omega) (by decide)
        have hmod : n % 16 < 16 := Nat.mod_lt n (by decide)
        rw [Nat.toDigits_of_base_le (by decide) hle, digits?_append, ih _ hdiv]
        simp only [Option.bind_some, digits?, digit?_digitChar _ hmod, Option.some.injEq]
        omega

theorem not_mem_of_digits? {c : Char} {m n : Nat} {s : List Char} (hc : digit? c = none)
    (h : digits? m s = some n) : c ∉ s := by
  induction s generalizing m with
  | nil => exact List.not_mem_nil
  | cons c' s ih =>
      obtain ⟨d, hd, hs⟩ := Option.bind_eq_some_iff.mp h
      rintro (_ | ⟨_, hmem⟩)
      · rw [hc] at hd
        cases hd
      · exact ih hs hmem

theorem not_mem_toDigits {c : Char} (hc : digit? c = none) (n : Nat) : c ∉ Nat.toDigits 16 n :=
  not_mem_of_digits? hc (digits?_toDigits n)

theorem value?_toDigits (n : Nat) : value? (Nat.toDigits 16 n) = some n := by
  have hd := digits?_toDigits n
  cases hs : Nat.toDigits 16 n with
  | nil => exact absurd hs Nat.toDigits_ne_nil
  | cons c s =>
      rw [hs] at hd
      exact hd

theorem toDigits_injective {m n : Nat} (h : Nat.toDigits 16 m = Nat.toDigits 16 n) : m = n := by
  have hv := value?_toDigits m
  rw [h, value?_toDigits] at hv
  exact (Option.some.inj hv).symm

theorem unsigned_injective {m n : Nat} (h : unsigned m = unsigned n) : m = n :=
  toDigits_injective (String.ofList_injective ((String.append_right_inj "0x").mp h))

end Unstack.Hex

namespace Unstack.Decimal

theorem toDigits_injective {m n : Nat} (h : Nat.toDigits 10 m = Nat.toDigits 10 n) : m = n := by
  have hv := congrArg (Nat.ofDigitChars 10 · 0) h
  simpa only [Nat.ofDigitChars_ten_toDigits] using hv

theorem toString_injective {m n : Nat} (h : toString m = toString n) : m = n := by
  rw [Nat.toString_eq_ofList_toDigits, Nat.toString_eq_ofList_toDigits] at h
  exact toDigits_injective (String.ofList_injective h)

end Unstack.Decimal
