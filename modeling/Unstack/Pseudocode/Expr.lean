import Unstack.Expr

/-!
Expressions in pseudocode. Parentheses stand around every operand that is a binary operation and
nowhere else.
-/

namespace Unstack.Expr

/-- Puts the text of an operand in parentheses if the operand is a binary operation. -/
def parenthesize (e : Expr) (text : String) : String :=
  match e with
  | binary .. => "(" ++ text ++ ")"
  | _ => text

/-- The expression in pseudocode, where `call` gives the text of the calls whose results it uses. -/
def render (call : Nat → String) : Expr → String
  | literal value => Hex.signed value
  | argument index => s!"ARG[{Hex.unsigned index}]"
  | localVar index => s!"var{index}"
  | result id => call id
  | binary op left right =>
    parenthesize left (left.render call) ++ " " ++ op.symbol ++ " " ++
      parenthesize right (right.render call)
  | unary op operand => op.symbol ++ parenthesize operand (operand.render call)

/-- The expression with the comparison at its root turned around, if a comparison is there. -/
def inverse? : Expr → Option Expr
  | binary op left right => op.complement?.map fun op' => binary op' left right
  | _ => none

/-- The test of a conditional jump, which is taken when the condition does not hold. -/
def guard (call : Nat → String) (condition : Expr) : String :=
  match condition.inverse? with
  | some inverse => "if(" ++ inverse.render call ++ ")"
  | none => "if(! " ++ condition.render call ++ ")"

end Unstack.Expr
