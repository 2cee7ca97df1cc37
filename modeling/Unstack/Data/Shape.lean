import Unstack.Builtin.Registry
import Unstack.Data.Basic
import Unstack.Decompile

/-!
Shapes: how operators, signatures, registries and options are written as structured data and read
back. Tags are written as strings and structures as objects; the readers also take the other forms
of `Data.tag?` and `Data.record?`. These are the rules that serde derives for such types; its messages
are left out.
-/

namespace Unstack

variable (format : Format)

namespace BinaryOp

def toData (op : BinaryOp) : Data :=
  .string op.tag

def ofData? (d : Data) : Option BinaryOp :=
  (d.tag? format).bind ofTag?

end BinaryOp

namespace UnaryOp

def toData (op : UnaryOp) : Data :=
  .string op.tag

def ofData? (d : Data) : Option UnaryOp :=
  (d.tag? format).bind ofTag?

end UnaryOp

namespace ParamKind

def toData (kind : ParamKind) : Data :=
  .string kind.tag

def ofData? (d : Data) : Option ParamKind :=
  (d.tag? format).bind ofTag?

end ParamKind

namespace Param

def toData (p : Param) : Data :=
  .object [("name", .string p.name), ("kind", p.kind.toData)]

/-- Both fields are required. -/
def ofData? (d : Data) : Option Param :=
  match d.record? format ["name", "kind"] with
  | some [some name, some kind] =>
    name.string?.bind fun name => (ParamKind.ofData? format kind).map fun kind => ⟨name, kind⟩
  | _ => none

end Param

namespace Signature

def toData (sig : Signature) : Data :=
  .object [("params", .array (sig.params.map Param.toData))]

/-- Without a parameter list there are no parameters. -/
def ofData? (d : Data) : Option Signature :=
  match d.record? format ["params"] with
  | some [params] =>
    (Data.orDefault (fun d => d.array?.bind (·.mapM (Param.ofData? format))) [] params).map
      Signature.mk
  | _ => none

end Signature

namespace Registry

def toData (reg : Registry) : Data :=
  .object [("functions", .object (reg.entries.map fun e => (e.1, e.2.toData)))]

/-- The functions of a registry, written as the fields of an object. -/
def functions? : Data → Option Registry
  | .object fields =>
    (fields.mapM fun f => (Signature.ofData? format f.2).map fun sig => (f.1, sig)).map
      Table.ofList
  | _ => none

/-- Without functions the registry is empty. -/
def ofData? (d : Data) : Option Registry :=
  match d.record? format ["functions"] with
  | some [functions] => Data.orDefault (functions? format) .empty functions
  | _ => none

end Registry

namespace Mode

def toData (mode : Mode) : Data :=
  .string mode.tag

def ofData? (d : Data) : Option Mode :=
  (d.tag? format).bind ofTag?

end Mode

namespace Options

def toData (o : Options) : Data :=
  .object
    [("mode", o.mode.toData),
      ("strings", (o.strings.map fun l => .array (l.map .string)).getD .null)]

/-- A table of strings, which may be written as null. -/
def strings? : Data → Option (Option (List String))
  | .null => some none
  | d => (d.array?.bind (·.mapM Data.string?)).map some

/-- The mode is required; the table of strings may be absent. -/
def ofData? (d : Data) : Option Options :=
  match d.record? format ["mode", "strings"] with
  | some [some mode, strings] =>
    (Mode.ofData? format mode).bind fun mode =>
      (Data.orDefault strings? none strings).map fun strings => ⟨mode, strings⟩
  | _ => none

end Options

end Unstack
