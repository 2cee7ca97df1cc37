import Mathlib.Data.List.Forall2
import Mathlib.Data.Nat.Digits.Defs
import Unstack.Operand
import Unstack.Proofs.Text.Hex

/-!
# How operands are spelled

A mark, a sign and digits, each but the digits optional, spell an integer. Every integer is spelled in some way, and
those that fit into 64 bits are read from all their spellings (`read?_spelled`): digits are never dropped, and nothing
wraps around.
-/

namespace Unstack

namespace Hex

/-- The digit with this value, in either letter case. -/
def IsDigit (c : Char) (d : Nat) : Prop :=
  "0123456789abcdef".toList[d]? = some c ∨ "0123456789ABCDEF".toList[d]? = some c

instance (c : Char) (d : Nat) : Decidable (IsDigit c d) :=
  inferInstanceAs (Decidable (_ ∨ _))

theorem isDigit_of_digit? {c : Char} {d : Nat} (h : digit? c = some d) : IsDigit c d := by
  have hle : ∀ a b : Char, a ≤ b ↔ a.toNat ≤ b.toNat := fun _ _ => UInt32.le_iff_toNat_le
  have hbound : c.toNat ≤ 'f'.toNat := by
    by_contra hc
    have habove : ∀ b ≤ 'f', ¬ c ≤ b := fun b hb hcb => hc (le_trans ((hle c b).mp hcb) ((hle b 'f').mp hb))
    simp [digit?, habove] at h
  have hall : ∀ n ≤ 'f'.toNat, ∀ d ∈ digit? (Char.ofNat n), IsDigit (Char.ofNat n) d := by
    decide +kernel
  have hdigit := hall c.toNat hbound d
  rw [Char.ofNat_toNat] at hdigit
  exact hdigit h

theorem IsDigit.digit? {c : Char} {d : Nat} (h : IsDigit c d) : digit? c = some d := by
  have hall : ∀ d < 16, "0123456789abcdef".toList[d]?.bind Hex.digit? = some d ∧
      "0123456789ABCDEF".toList[d]?.bind Hex.digit? = some d := by
    decide +kernel
  rcases h with h | h
  · have hlower := (hall d (List.getElem?_eq_some_iff.mp h).1).1
    rwa [h] at hlower
  · have hupper := (hall d (List.getElem?_eq_some_iff.mp h).1).2
    rwa [h] at hupper

/-- The digits that are read add to those that have been read, which each of them shifts by one place. -/
theorem digits?_eq_some {s : List Char} {n m : Nat} : digits? n s = some m ↔
    ∃ ds, List.Forall₂ IsDigit s ds ∧ m = Nat.ofDigits 16 ds.reverse + 16 ^ s.length * n := by
  induction s generalizing n with
  | nil => simp [digits?, eq_comm]
  | cons c s ih =>
      have hshift : ∀ (d : Nat) {ds : List Nat}, List.Forall₂ IsDigit s ds →
          Nat.ofDigits 16 ds.reverse + 16 ^ s.length * (16 * n + d) =
            Nat.ofDigits 16 (d :: ds).reverse + 16 ^ (c :: s).length * n := by
        intro d ds hds
        rw [List.reverse_cons, Nat.ofDigits_append, Nat.ofDigits_singleton, List.length_reverse, ← hds.length_eq,
          List.length_cons, pow_succ]
        ring
      simp only [digits?, Option.bind_eq_some_iff, ih]
      constructor
      · rintro ⟨d, hd, ds, hds, rfl⟩
        exact ⟨d :: ds, .cons (isDigit_of_digit? hd) hds, hshift d hds⟩
      · rintro ⟨_, _ | ⟨hd, hds⟩, rfl⟩
        exact ⟨_, hd.digit?, _, hds, (hshift _ hds).symm⟩

theorem value?_eq_some {s : List Char} {n : Nat} :
    value? s = some n ↔ s ≠ [] ∧ ∃ ds, List.Forall₂ IsDigit s ds ∧ n = Nat.ofDigits 16 ds.reverse := by
  cases s with
  | nil => simp [value?]
  | cons c s => simp [value?, digits?_eq_some]

end Hex

namespace Operand

/-- A sign in front of digits, with what it makes of one. -/
inductive Sign : List Char → Int → Prop where
  | none : Sign [] 1
  | plus : Sign ['+'] 1
  | minus : Sign ['-'] (-1)

/-- The spellings of an integer. Of its digits, which may start with any number of zeros, the last one weighs least. -/
inductive Spelled : List Char → Int → Prop where
  | intro {mark sign digits : List Char} {unit : Int} {ds : List Nat}
      (hmark : mark ∈ ["".toList, "0x".toList, "0X".toList]) (hsign : Sign sign unit) (hne : digits ≠ [])
      (hdigits : List.Forall₂ Hex.IsDigit digits ds) :
      Spelled (mark ++ sign ++ digits) (unit * (Nat.ofDigits 16 ds.reverse : Nat))

theorem signed?_eq_some {s : List Char} {v : Int} : signed? s = some v ↔
    ∃ sign digits unit n, Sign sign unit ∧ s = sign ++ digits ∧ Hex.value? digits = some n ∧ v = unit * (n : Nat) := by
  constructor
  · intro h
    unfold signed? at h
    split at h
    all_goals
      obtain ⟨_, hbind, rfl⟩ := Option.map_eq_some_iff.mp h
      obtain ⟨n, hn, hcast⟩ := Option.bind_eq_some_iff.mp hbind
      cases hcast
    · exact ⟨_, _, _, n, .plus, rfl, hn, (one_mul _).symm⟩
    · exact ⟨_, _, _, n, .minus, rfl, hn, (neg_one_mul _).symm⟩
    · exact ⟨_, _, _, n, .none, rfl, hn, (one_mul _).symm⟩
  · rintro ⟨sign, digits, unit, n, hsign, rfl, hn, rfl⟩
    cases hsign with
    | plus => simp [signed?, hn]
    | minus => simp [signed?, hn]
    | none =>
        unfold signed?
        split
        · rename_i r hr
          obtain rfl : digits = '+' :: r := hr
          cases hn
        · rename_i r hr
          obtain rfl : digits = '-' :: r := hr
          cases hn
        · rename_i hs
          simp [hn]

/-- The letter of a mark is not a digit. -/
theorem dropMark_of_signed? {s : List Char} {v : Int} (h : signed? s = some v) : dropMark s = s := by
  unfold dropMark
  split
  · cases h
  · cases h
  · rfl

theorem spelled_iff {s : List Char} {v : Int} : Spelled s v ↔ signed? (dropMark s) = some v := by
  constructor
  · rintro ⟨hmark, hsign, hne, hdigits⟩
    have hsigned := signed?_eq_some.mpr ⟨_, _, _, _, hsign, rfl, Hex.value?_eq_some.mpr ⟨hne, _, hdigits, rfl⟩, rfl⟩
    simp only [List.mem_cons, List.not_mem_nil, or_false] at hmark
    rcases hmark with rfl | rfl | rfl
    · rw [List.append_assoc]
      exact (congrArg signed? (dropMark_of_signed? hsigned)).trans hsigned
    · exact hsigned
    · exact hsigned
  · intro h
    obtain ⟨sign, digits, unit, n, hsign, hs, hn, rfl⟩ := signed?_eq_some.mp h
    obtain ⟨hne, ds, hdigits, rfl⟩ := Hex.value?_eq_some.mp hn
    have hspelled : ∀ mark ∈ ["".toList, "0x".toList, "0X".toList],
        Spelled (mark ++ dropMark s) (unit * (Nat.ofDigits 16 ds.reverse : Nat)) := by
      intro mark hmark
      rw [hs, ← List.append_assoc]
      exact .intro hmark hsign hne hdigits
    unfold dropMark at hspelled
    split at hspelled
    · exact hspelled "0x".toList (by decide)
    · exact hspelled "0X".toList (by decide)
    · exact hspelled "".toList (by decide)

theorem read?_eq_some {s : List Char} {v : Int} : read? s = some v ↔ Spelled s v ∧ InRange v := by
  rw [spelled_iff, read?, Option.filter_eq_some_iff, decide_eq_true_iff]

theorem Spelled.unique {s : List Char} {v v' : Int} (h : Spelled s v) (h' : Spelled s v') : v = v' :=
  Option.some.inj ((spelled_iff.mp h).symm.trans (spelled_iff.mp h'))

/-- A number is spelled by a mark and its digits, behind a sign or not. -/
theorem spelled_toDigits {sign : List Char} {unit : Int} (hsign : Sign sign unit) (n : Nat) :
    Spelled ("0x".toList ++ sign ++ Nat.toDigits 16 n) (unit * n) := by
  obtain ⟨hne, ds, hdigits, hn⟩ := Hex.value?_eq_some.mp (Hex.value?_toDigits n)
  conv_rhs => rw [hn]
  exact .intro (by decide) hsign hne hdigits

theorem exists_spelled (v : Int) : ∃ text : String, Spelled text.toList v := by
  suffices hs : ∃ s, Spelled s v by
    obtain ⟨s, hs⟩ := hs
    exact ⟨String.ofList s, by rwa [String.toList_ofList]⟩
  rcases Int.eq_nat_or_neg v with ⟨n, rfl | rfl⟩
  · rw [← one_mul (n : Int)]
    exact ⟨_, spelled_toDigits .none n⟩
  · rw [← neg_one_mul (n : Int)]
    exact ⟨_, spelled_toDigits .minus n⟩

theorem spelled_signed {v : Int} (h : 0 ≤ v) : Spelled (Hex.signed v).toList v := by
  obtain ⟨n, rfl⟩ := Int.eq_ofNat_of_zero_le h
  have hspelled := spelled_toDigits .none n
  rwa [List.append_nil, one_mul, ← String.toList_ofList (l := Nat.toDigits 16 n), ← String.toList_append] at hspelled

/-- What is read is what is spelled, if it is not below -2⁶³ and below 2⁶³. A spelling beyond these limits is refused.
Numbers from zero on are read from how they are shown. -/
theorem read?_spelled :
    (∀ (text : String) (v : Int), read? text.toList = some v ↔
      Spelled text.toList v ∧ -0x8000000000000000 ≤ v ∧ v ≤ 0x7fffffffffffffff) ∧
    (∀ v : Int, ∃ text : String, Spelled text.toList v ∧
      (-0x8000000000000000 ≤ v → v ≤ 0x7fffffffffffffff → read? text.toList = some v)) ∧
    (∀ (text : String) (v : Int), Spelled text.toList v → v < -0x8000000000000000 ∨ 0x7fffffffffffffff < v →
      read? text.toList = none) ∧
    ∀ v : Int, 0 ≤ v → v ≤ 0x7fffffffffffffff → read? (Hex.signed v).toList = some v := by
  have hrange : ∀ v : Int, InRange v ↔ -0x8000000000000000 ≤ v ∧ v ≤ 0x7fffffffffffffff := by
    intro v
    rw [InRange]
    omega
  refine ⟨fun text v => by rw [read?_eq_some, hrange], fun v => ?_, fun text v h hv => ?_, fun v h hv => ?_⟩
  · obtain ⟨text, htext⟩ := exists_spelled v
    exact ⟨text, htext, fun hl hu => read?_eq_some.mpr ⟨htext, (hrange v).mpr ⟨hl, hu⟩⟩⟩
  · refine Option.eq_none_iff_forall_ne_some.mpr fun v' hv' => ?_
    obtain ⟨h', hr⟩ := read?_eq_some.mp hv'
    rw [hrange, h'.unique h] at hr
    omega
  · exact read?_eq_some.mpr ⟨spelled_signed h, (hrange v).mpr ⟨by omega, hv⟩⟩

/-- The limits themselves are read, one of them from a padded spelling, and the next number is not. -/
theorem read?_spelled_limits :
    read? "0X-0008000000000000000".toList = some (-0x8000000000000000) ∧
      read? (Hex.signed 0x7fffffffffffffff).toList = some 0x7fffffffffffffff ∧
      read? "+8000000000000000".toList = none := by
  have hlow : Spelled "0X-0008000000000000000".toList (-0x8000000000000000) := spelled_iff.mpr (by decide)
  have hhigh : Spelled "+8000000000000000".toList 0x8000000000000000 := spelled_iff.mpr (by decide)
  obtain ⟨hread, _, hrefused, hsigned⟩ := read?_spelled
  exact ⟨(hread _ _).mpr ⟨hlow, by decide⟩, hsigned _ (by decide) (by decide), hrefused _ _ hhigh (by decide)⟩

end Operand

end Unstack
