import Unstack.Operator
import Unstack.Text.Hex

/-!
Expressions: the values that a script pushes, with the operators applied to them. The result of a
call refers to the call by the number of its instruction.
-/

namespace Unstack

/-- The value of an assignment or of a condition. -/
inductive Expr where
  /-- A number; operands keep it within 64 bits. -/
  | literal (value : Int)
  /-- An argument of the script; operands keep the index below `2 ^ 32`. -/
  | argument (index : Nat)
  /-- A local variable; operands keep the index below `2 ^ 32`. -/
  | localVar (index : Nat)
  /-- The result of the call with this number. -/
  | result (call : Nat)
  /-- The left operand was pushed before the right one. -/
  | binary (op : BinaryOp) (left right : Expr)
  | unary (op : UnaryOp) (operand : Expr)
deriving DecidableEq, Repr

namespace Expr

/-- The operator at the root, if it is a binary one. -/
def operator? : Expr → Option BinaryOp
  | binary op _ _ => some op
  | _ => none

/-- The calls whose results the expression uses, from left to right. -/
def calls : Expr → List Nat
  | result call => [call]
  | binary _ left right => left.calls ++ right.calls
  | unary _ operand => operand.calls
  | literal _ | argument _ | localVar _ => []

/-- The expression in a listing: mnemonics between operands, parentheses around every binary
operation. -/
def dump : Expr → String
  | literal value => "lit " ++ Hex.signed value
  | argument index => s!"arg{index}"
  | localVar index => s!"var{index}"
  | result call => s!"ret(#{call})"
  | binary op left right => s!"({left.dump} {op.mnemonic} {right.dump})"
  | unary op operand => op.symbol ++ operand.dump

end Expr

end Unstack
