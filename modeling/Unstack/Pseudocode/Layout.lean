import Unstack.Pseudocode.Binding
import Unstack.Pseudocode.Expr

/-!
Pseudocode: one line for each slot, with a marker before every instruction that a jump goes to and
the labels after the instruction they are resolved to. Everything from the first marker or label on
is indented.
-/

namespace Unstack.Script

variable (s : Script) (reg : Registry)

/-- The text of a call of the named function. -/
def callText (name : String) : String :=
  match reg.lookup name with
  | none => name ++ "(TODO ARGS)"
  | some sig => name ++ "(" ++ ", ".intercalate (sig.params.map (·.name)) ++ ")"

/-- The text of the call with this number. -/
def resultText (id : Nat) : String :=
  ((s.callee? id).map (callText reg)).getD ""

/-- A jump, to the address that its target stands for. A target past the end stays as it is. -/
def gotoText (target : Nat) : String :=
  "Goto " ++ Hex.unsigned ((s.resolveAddr target).getD target)

/-- The text of an instruction that is slot number `slot`; `name?` is what a parameter calls its
value. -/
def actionText (name? : Option String) (slot : Nat) : Action → Option String
  | .assign value =>
    some (name?.getD s!"var_{slot}" ++ " := " ++ value.render (s.resultText reg))
  | .call name => some (callText reg name)
  | .goto target => some (s.gotoText target)
  | .branch target condition =>
    some (condition.guard (s.resultText reg) ++ " then " ++ s.gotoText target)
  | .ret => some "return"
  | .unknown _ => none

/-- A marker line of this text, under an empty line. -/
def marker (text : String) : List String :=
  ["", text ++ ":"]

/-- The markers of the labels that are resolved to this address. -/
def labelLines (addr : Nat) : List String :=
  (s.labels.filter fun l => l.2 = addr).flatMap fun l => marker s!"LABEL_{l.1}"

/-- The marker of an instruction that a jump goes to. -/
def landingLines (addr : Nat) : List String :=
  marker ("JUMP_TARGET_" ++ Hex.unsigned addr)

/-- The lines of these instructions, the first of which is slot number `slot` or stands right before
it. -/
def layout (names : Table Nat String) (landings : List Nat) (indented : Bool) (slot : Nat) :
    List (Nat × Instr) → List String
  | [] => []
  | (id, i) :: rest =>
    let before := if landings.contains id then landingLines i.addr else []
    let indented := indented || landings.contains id
    let text := (s.actionText reg (names.get? id) slot i.action).map fun t =>
      if indented then "  " ++ t else t
    let after := s.labelLines i.addr
    before ++ text.toList ++ after ++
      layout names landings (indented || !after.isEmpty)
        (if i.action.isUnknown then slot else slot + 1) rest

/-- The pseudocode of a script. -/
def pseudocode : List String :=
  s.layout reg (s.bindings reg) s.landings false 0 s.instructions

end Unstack.Script
