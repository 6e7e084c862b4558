import SsaLowering.Json.Record

/-!
# Source operators
-/

namespace SsaLowering

/-- Operators with two operands. The logical ones skip their right operand when the left
one decides; the eager ones never do. -/
inductive BinaryOp where
  | add | sub | mul | div | mod
  | equal | notEqual | less | lessEqual | greater | greaterEqual
  | logicalAnd | logicalOr
  | eagerAnd | eagerOr
deriving DecidableEq, Inhabited

namespace BinaryOp

def all : List BinaryOp :=
  [.add, .sub, .mul, .div, .mod, .equal, .notEqual, .less, .lessEqual, .greater,
    .greaterEqual, .logicalAnd, .logicalOr, .eagerAnd, .eagerOr]

/-- The name of an operator in structured data. -/
def name : BinaryOp → String
  | .add => "Add"
  | .sub => "Sub"
  | .mul => "Mul"
  | .div => "Div"
  | .mod => "Mod"
  | .equal => "Equal"
  | .notEqual => "NotEqual"
  | .less => "Less"
  | .lessEqual => "LessEqual"
  | .greater => "Greater"
  | .greaterEqual => "GreaterEqual"
  | .logicalAnd => "LogicalAnd"
  | .logicalOr => "LogicalOr"
  | .eagerAnd => "EagerAnd"
  | .eagerOr => "EagerOr"

/-- The spelling of an operator in the source. -/
def text : BinaryOp → String
  | .add => "+"
  | .sub => "-"
  | .mul => "*"
  | .div => "/"
  | .mod => "%"
  | .equal => "=="
  | .notEqual => "!="
  | .less => "<"
  | .lessEqual => "<="
  | .greater => ">"
  | .greaterEqual => ">="
  | .logicalAnd => "&&"
  | .logicalOr => "||"
  | .eagerAnd => "and"
  | .eagerOr => "or"

def isComparison : BinaryOp → Bool
  | .equal | .notEqual | .less | .lessEqual | .greater | .greaterEqual => true
  | _ => false

def isShortCircuit : BinaryOp → Bool
  | .logicalAnd | .logicalOr => true
  | _ => false

def toJson (op : BinaryOp) : Json := .string op.name

def ofJson? (j : Json) : Option BinaryOp := j.named? all name

end BinaryOp

/-- Operators with one operand. -/
inductive UnaryOp where
  | logicalNot
  | minus
  | preIncrement | postIncrement
  | preDecrement | postDecrement
deriving DecidableEq, Inhabited

namespace UnaryOp

def all : List UnaryOp :=
  [.logicalNot, .minus, .preIncrement, .postIncrement, .preDecrement, .postDecrement]

/-- The name of an operator in structured data. -/
def name : UnaryOp → String
  | .logicalNot => "LogicalNot"
  | .minus => "Minus"
  | .preIncrement => "PreIncrement"
  | .postIncrement => "PostIncrement"
  | .preDecrement => "PreDecrement"
  | .postDecrement => "PostDecrement"

/-- The spelling of an operator in the source. -/
def text : UnaryOp → String
  | .logicalNot => "!"
  | .minus => "-"
  | .preIncrement | .postIncrement => "++"
  | .preDecrement | .postDecrement => "--"

/-- Whether the operator changes its operand by one. -/
def isStep : UnaryOp → Bool
  | .preIncrement | .postIncrement | .preDecrement | .postDecrement => true
  | _ => false

def toJson (op : UnaryOp) : Json := .string op.name

def ofJson? (j : Json) : Option UnaryOp := j.named? all name

end UnaryOp

end SsaLowering
