/-!
Hexadecimal numbers as text: the value of a run of digits, and the written forms of naturals, signed
integers and 64-bit words.
-/

namespace Unstack.Hex

/-- The value of a hexadecimal digit, in either letter case. Only ASCII digits count. -/
def digit? (c : Char) : Option Nat :=
  if '0' ≤ c ∧ c ≤ '9' then some (c.toNat - 48)
  else if 'a' ≤ c ∧ c ≤ 'f' then some (c.toNat - 87)
  else if 'A' ≤ c ∧ c ≤ 'F' then some (c.toNat - 55)
  else none

/-- Reads digits after a number `n` that has been read so far. -/
def digits? (n : Nat) : List Char → Option Nat
  | [] => some n
  | c :: r => (digit? c).bind fun d => digits? (16 * n + d) r

/-- The value of a run of at least one digit. -/
def value? : List Char → Option Nat
  | [] => none
  | s => digits? 0 s

example : value? "1aF".toList = some 0x1af := by decide

/-- The digits of a number in lower case, without leading zeros. -/
def digits (n : Nat) : String :=
  String.ofList (Nat.toDigits 16 n)

/-- The digits of a number, filled up with zeros on the left to at least `width`. -/
def paddedDigits (width n : Nat) : String :=
  String.ofList ((Nat.toDigits 16 n).leftpad width '0')

/-- A number with the mark `0x`. -/
def unsigned (n : Nat) : String :=
  "0x" ++ digits n

/-- An integer with the mark `0x` after its sign. -/
def signed (v : Int) : String :=
  if v < 0 then "-" ++ unsigned v.natAbs else unsigned v.natAbs

/-- An integer as a 64-bit word, so negative ones by their two's complement. -/
def word (v : Int) : String :=
  unsigned (v % 0x10000000000000000).toNat

example : signed (-26) = "-0x1a" := by decide
example : word (-1) = "0xffffffffffffffff" := by decide +kernel

end Unstack.Hex
