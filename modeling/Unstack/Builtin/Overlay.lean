import Unstack.Data.Shape
import Unstack.Toml.Document

/-!
Overlays: TOML documents that add builtin functions to a registry or give known ones other
parameters.
-/

namespace Unstack.Registry

/-- The registry that a TOML document describes. -/
def ofToml? (text : String) : Option Registry :=
  (Toml.Document.read? text).bind (ofData? .toml)

/-- The registry that a TOML document describes, or what is said against the document, in words that
are left to the caller. -/
def ofToml (refusal : String → String) (text : String) : Except String Registry :=
  match ofToml? text with
  | some reg => .ok reg
  | none => .error (refusal text)

end Unstack.Registry
