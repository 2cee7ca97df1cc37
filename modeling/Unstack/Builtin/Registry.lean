import Unstack.Builtin.Signature
import Unstack.Table

/-!
Registries: the builtin functions that are known by name. Strings are ordered by code points, which
is also the order of their UTF-8 bytes.
-/

namespace Unstack

/-- The known builtin functions. -/
abbrev Registry := Table String Signature

namespace Registry

/-- The signature of a function. -/
def lookup (reg : Registry) (name : String) : Option Signature :=
  reg.get? name

/-- Whether the function is known and takes at least one value. -/
def hasParameters (reg : Registry) (name : String) : Bool :=
  (reg.lookup name).any fun sig => !sig.params.isEmpty

/-- Gives a function a signature; also tells the one that it had. -/
def replace (reg : Registry) (name : String) (sig : Signature) : Option Signature × Registry :=
  (reg.lookup name, reg.insert name sig)

/-- The functions of both registries, those of `overlay` where both know one. -/
def extend (reg overlay : Registry) : Registry :=
  reg.insertAll overlay.entries

/-- The functions with their signatures as text, in the order of their names. -/
def listing (reg : Registry) : List String :=
  reg.entries.map fun e => e.1 ++ e.2.text

end Registry

end Unstack
