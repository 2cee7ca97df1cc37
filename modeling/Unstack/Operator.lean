/-!
The operators of the machine: sixteen binary ones, each with the mnemonic of its line, the symbol of
its pseudocode and the tag it is serialized as, and three unary ones, which lines name by number.
-/

namespace Unstack

/-- A binary operator. -/
inductive BinaryOp where
  | equal
  | less
  | lessEq
  | or
  | and
  | notEqual
  | greater
  | greaterEq
  | add
  | bitAnd
  | bitOr
  | multiply
  | subtract
  | shiftLeft
  | bitXor
  | shiftRight
deriving DecidableEq, Repr

namespace BinaryOp

/-- Every binary operator, in the order of their numbers. -/
def all : List BinaryOp :=
  [equal, less, lessEq, or, and, notEqual, greater, greaterEq, add, bitAnd, bitOr, multiply,
    subtract, shiftLeft, bitXor, shiftRight]

def mnemonic : BinaryOp → String
  | equal => "EQUAL"
  | less => "INF"
  | lessEq => "INFEQ"
  | or => "OR"
  | and => "AND"
  | notEqual => "NEQUAL"
  | greater => "SUP"
  | greaterEq => "SUPEQ"
  | add => "ADD"
  | bitAnd => "LAND"
  | bitOr => "LOR"
  | multiply => "MULTIPLY"
  | subtract => "MINUS"
  | shiftLeft => "LSHIFT"
  | bitXor => "XOR"
  | shiftRight => "RSHIFT"

def symbol : BinaryOp → String
  | equal => "=="
  | less => "<"
  | lessEq => "<="
  | or => "||"
  | and => "&&"
  | notEqual => "!="
  | greater => ">"
  | greaterEq => ">="
  | add => "+"
  | bitAnd => "&"
  | bitOr => "|"
  | multiply => "*"
  | subtract => "-"
  | shiftLeft => "<<"
  | bitXor => "^"
  | shiftRight => ">>"

/-- The name under which the operator is serialized. -/
def tag : BinaryOp → String
  | equal => "Equal"
  | less => "Inf"
  | lessEq => "InfEq"
  | or => "Or"
  | and => "And"
  | notEqual => "NEqual"
  | greater => "Sup"
  | greaterEq => "SupEq"
  | add => "Add"
  | bitAnd => "LAnd"
  | bitOr => "LOr"
  | multiply => "Multiply"
  | subtract => "Minus"
  | shiftLeft => "LShift"
  | bitXor => "Xor"
  | shiftRight => "RShift"

/-- The comparison that holds exactly when this one does not; other operators have none. -/
def complement? : BinaryOp → Option BinaryOp
  | equal => some notEqual
  | notEqual => some equal
  | less => some greaterEq
  | greaterEq => some less
  | lessEq => some greater
  | greater => some lessEq
  | _ => none

def ofMnemonic? (s : String) : Option BinaryOp :=
  all.find? (·.mnemonic == s)

def ofTag? (s : String) : Option BinaryOp :=
  all.find? (·.tag == s)

theorem mem_all (op : BinaryOp) : op ∈ all := by
  cases op <;> decide

theorem ofMnemonic?_mnemonic (op : BinaryOp) : ofMnemonic? op.mnemonic = some op := by
  cases op <;> decide

theorem ofTag?_tag (op : BinaryOp) : ofTag? op.tag = some op := by
  cases op <;> decide

end BinaryOp

/-- A unary operator. -/
inductive UnaryOp where
  | not
  | negate
  | bitNot
deriving DecidableEq, Repr

namespace UnaryOp

/-- The operator that a line names by a number. -/
def ofOperand? (v : Int) : Option UnaryOp :=
  if v = 0 then some not
  else if v = 1 then some negate
  else if v = 2 then some bitNot
  else none

def symbol : UnaryOp → String
  | not => "!"
  | negate => "-"
  | bitNot => "~"

/-- The name under which the operator is serialized. -/
def tag : UnaryOp → String
  | not => "Not"
  | negate => "Negate"
  | bitNot => "BitNot"

/-- Every unary operator. -/
def all : List UnaryOp :=
  [not, negate, bitNot]

def ofTag? (s : String) : Option UnaryOp :=
  all.find? (·.tag == s)

theorem ofTag?_tag (op : UnaryOp) : ofTag? op.tag = some op := by
  cases op <;> decide

end UnaryOp

end Unstack
