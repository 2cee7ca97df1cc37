import Unstack.Text.Hex

/-!
Operands: signed hexadecimal numbers of 64 bits. A mark `0x` may stand in front, and a sign after
the mark.
-/

namespace Unstack.Operand

/-- The text after the mark `0x` or `0X`, if it has one. -/
def dropMark : List Char → List Char
  | '0' :: 'x' :: r => r
  | '0' :: 'X' :: r => r
  | s => s

/-- The value of a run of digits with at most one sign in front. -/
def signed? : List Char → Option Int
  | '+' :: r => (Hex.value? r).map fun n => (n : Int)
  | '-' :: r => (Hex.value? r).map fun n => -(n : Int)
  | s => (Hex.value? s).map fun n => (n : Int)

/-- Whether an integer fits into 64 bits with a sign. -/
def InRange (v : Int) : Prop :=
  -0x8000000000000000 ≤ v ∧ v < 0x8000000000000000

instance (v : Int) : Decidable (InRange v) :=
  inferInstanceAs (Decidable (_ ∧ _))

/-- The value of an operand: optional mark, optional sign, at least one digit, no overflow. -/
def read? (s : List Char) : Option Int :=
  (signed? (dropMark s)).filter (InRange ·)

example : read? "0x-5".toList = some (-5) := by decide
example : read? "-0x5".toList = none := by decide
example : read? "-8000000000000000".toList = some (-0x8000000000000000) := by decide
example : read? "8000000000000000".toList = none := by decide

/-- An operand that is a label or an index: 32 bits without a sign. -/
def index? (v : Int) : Option Nat :=
  if 0 ≤ v ∧ v < 0x100000000 then some v.toNat else none

/-- An operand that is an address: not negative. -/
def address? (v : Int) : Option Nat :=
  if 0 ≤ v then some v.toNat else none

end Unstack.Operand
