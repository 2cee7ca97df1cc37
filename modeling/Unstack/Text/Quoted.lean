import Unstack.Text.Extender
import Unstack.Text.Unseen

/-!
Quoted text in messages: double quotes around it, and escapes for what would not show as itself.
-/

namespace Unstack.Text

/-- A character between double quotes. -/
def quoteChar (c : Char) : List Char :=
  if c = '"' ∨ c = '\\' then ['\\', c]
  else if c = '\t' then ['\\', 't']
  else if c = '\n' then ['\\', 'n']
  else if c = '\r' then ['\\', 'r']
  else if c = '\x00' then ['\\', '0']
  else if isUnseen c || isExtender c then
    ['\\', 'u', '\x7b'] ++ Nat.toDigits 16 c.toNat ++ ['\x7d']
  else [c]

/-- A text in double quotes. -/
def quoted (s : String) : String :=
  String.ofList ('"' :: s.toList.flatMap quoteChar ++ ['"'])

example : quoted "na me \"q\"\n" = "\"na me \\\"q\\\"\\n\"" := by decide

example : quoted "e\u0301\u200b" = "\"e\\u\x7b301\x7d\\u\x7b200b\x7d\"" := by decide +kernel

end Unstack.Text
