/-!
Sets of characters as lists of ranges of code points: closed, in increasing order and apart.
-/

namespace Unstack.Text

/-- Ranges of code points, each by its first and its last. -/
abbrev Ranges := List (Nat × Nat)

namespace Ranges

/-- Whether a character lies in one of the ranges. No range after one that starts above the
character is looked at. -/
def has : Ranges → Char → Bool
  | [], _ => false
  | r :: rest, c => decide (r.1 ≤ c.toNat) && (decide (c.toNat ≤ r.2) || has rest c)

/-- Whether the ranges are in increasing order and apart, and none is empty. -/
def apart : Ranges → Bool
  | [] => true
  | [r] => r.1 ≤ r.2
  | r :: s :: rest => r.1 ≤ r.2 && r.2 + 1 < s.1 && apart (s :: rest)

/-- The number of code points in the ranges. -/
def size : Ranges → Nat
  | [] => 0
  | r :: rest => r.2 + 1 - r.1 + size rest

end Ranges

end Unstack.Text
