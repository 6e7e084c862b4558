import SsaLowering.Lowering.Expression
import SsaLowering.Proofs.Execution

/-!
# Evaluation of expressions over truth values and integers

The meaning of an expression in the source: its operands are evaluated from left to right, the
right operand of a logical operator only if the left one does not decide. Arithmetic is done at
the common type of its operands, to which a constant adapts if that type holds it.
-/

namespace SsaLowering

/-- A value of the source: its type, its number, and whether it is known before the run. -/
structure Datum where
  type : MachineType
  value : Int
  isConstant : Bool
deriving DecidableEq, Inhabited

namespace Datum

/-- A truth value. -/
def truth (b : Bool) : Datum := ⟨.bool, b.toInt, false⟩

/-- Whether the value counts as true. -/
def isTrue (d : Datum) : Bool := decide (d.value ≠ 0)

/-- Whether the value can be taken at another type: at its own one, at any that holds it if it
is a constant, and at a wider one. -/
def adaptsTo (d : Datum) (type : MachineType) : Bool :=
  if d.type = type then true
  else match d.type, type with
    | .int .signed w, .int .signed w' =>
      (d.isConstant && decide (type.Holds d.value)) || decide (w.bits < w'.bits)
    | _, _ => false

/-- The common type of two operands. A constant adapts to the other operand before the other
operand adapts to it. -/
def common? (a b : Datum) : Option MachineType :=
  let first := if a.isConstant || !b.isConstant then (a, b) else (b, a)
  if first.1.adaptsTo first.2.type then some first.2.type
  else if first.2.adaptsTo first.1.type then some first.1.type
  else none

end Datum

namespace BinaryOp

/-- The outcome of a comparison. -/
def compare : BinaryOp → Int → Int → Bool
  | .equal, x, y => decide (x = y)
  | .notEqual, x, y => decide (x ≠ y)
  | .less, x, y => decide (x < y)
  | .lessEqual, x, y => decide (x ≤ y)
  | .greater, x, y => decide (y < x)
  | .greaterEqual, x, y => decide (y ≤ x)
  | _, _, _ => false

/-- The result of an arithmetic operation on numbers. Quotients are rounded towards zero. -/
def compute : BinaryOp → Int → Int → Int
  | .add, x, y => x + y
  | .sub, x, y => x - y
  | .mul, x, y => x * y
  | .div, x, y => x.tdiv y
  | .mod, x, y => x.tmod y
  | _, _, _ => 0

/-- Whether the operation has a result at a type: no division is by zero, and every quotient is
a value of the type. -/
def IsDefined : BinaryOp → MachineType → Int → Int → Prop
  | .div, type, x, y | .mod, type, x, y => y ≠ 0 ∧ type.Holds (x.tdiv y)
  | _, _, _, _ => True

instance (op : BinaryOp) (type : MachineType) (x y : Int) :
    Decidable (op.IsDefined type x y) :=
  match op with
  | .div | .mod => inferInstanceAs (Decidable (y ≠ 0 ∧ type.Holds (x.tdiv y)))
  | .add | .sub | .mul | .equal | .notEqual | .less | .lessEqual | .greater | .greaterEqual
  | .logicalAnd | .logicalOr | .eagerAnd | .eagerOr => isTrue trivial

end BinaryOp

/-- Where a variable has its value: in memory, or as a parameter. -/
inductive Home where
  | cell (address : Int)
  | fixed (value : Int)

/-- A variable that holds a truth value or a signed integer. -/
structure SourceVariable where
  type : MachineType
  isMutable : Bool
  home : Home

/-- What an expression can refer to. -/
structure SourceContext where
  lookup : String → Option SourceVariable
  functions : List (String × Signature)

/-- Why an expression has no value: an operation in it has no result, or it makes no sense. -/
inductive Halt where
  | trap
  | wrong
deriving DecidableEq

/-- Evaluation changes the world, and may have no result. -/
abbrev Eval := ExceptT Halt (StateM World)

namespace Eval

def orHalt {α : Type} (result : Option α) (halt : Halt) : Eval α :=
  match result with
  | some a => pure a
  | none => throw halt

def load (address : Int) (type : MachineType) : Eval Int := do
  return (← get).load address type

def store (address : Int) (type : MachineType) (value : Int) : Eval Unit :=
  modify fun w => w.store address type value

/-- The value of a variable. -/
def read (x : SourceVariable) : Eval Int :=
  match x.home with
  | .cell address => load address x.type
  | .fixed value => pure value

/-- An operation on two operands at their common type. -/
def binary (op : BinaryOp) (a b : Datum) : Eval Datum := do
  let type ← orHalt (a.common? b) .wrong
  if op.isComparison then return .truth (op.compare a.value b.value)
  else if op.IsDefined type a.value b.value then
    return ⟨type, type.wrap (op.compute a.value b.value), false⟩
  else throw .trap

/-- The cell of a variable that can be changed. -/
def target (x : SourceVariable) : Eval Int :=
  match x.isMutable, x.home with
  | true, .cell address => pure address
  | _, _ => throw .wrong

/-- Change a variable by one. The result is the new value if the operator stands in front, and
the old one otherwise. -/
def step (op : UnaryOp) (x : SourceVariable) : Eval Datum := do
  let address ← target x
  let old ← load address x.type
  let change : Int := if op == .preIncrement || op == .postIncrement then 1 else -1
  let new := x.type.wrap (old + change)
  store address x.type new
  return ⟨x.type, if op == .preIncrement || op == .preDecrement then new else old, false⟩

/-- Give a variable a value. -/
def assign (x : SourceVariable) (d : Datum) : Eval Datum := do
  let address ← target x
  store address x.type d.value
  return { d with type := x.type }

/-- Call a function with values at the types of its parameters. -/
def call (m : Surroundings) (callee : String) (signature : Signature) (args : List Datum) :
    Eval Datum := do
  let (n, w) := m.call (← get) callee signature.returnType
    (signature.paramTypes.zip (args.map (·.value)))
  set w
  return ⟨signature.returnType, n, false⟩

end Eval

mutual

/-- The value of an expression. -/
def Term.eval (m : Surroundings) (c : SourceContext) : Term → Eval Datum
  | .literal _ (.bool b) => return .truth b
  | .literal _ (.number numeral) => do
    let n ← Eval.orHalt (readInteger? numeral.toList) .wrong
    return ⟨if MachineType.i32.Holds n then .i32 else .i64, n, true⟩
  | .variable _ name => do
    let x ← Eval.orHalt (c.lookup name) .wrong
    return ⟨x.type, ← Eval.read x, false⟩
  | .call _ callee args => do
    let signature ← Eval.orHalt (c.functions.lookup callee) .wrong
    let values ← Term.evals m c args
    Eval.call m callee signature values
  | .binary _ .logicalAnd left right => do
    if (← left.eval m c).isTrue then return .truth (← right.eval m c).isTrue
    else return .truth false
  | .binary _ .logicalOr left right => do
    if (← left.eval m c).isTrue then return .truth true
    else return .truth (← right.eval m c).isTrue
  | .binary _ .eagerAnd left right => do
    let a ← left.eval m c
    let b ← right.eval m c
    return .truth (a.isTrue && b.isTrue)
  | .binary _ .eagerOr left right => do
    let a ← left.eval m c
    let b ← right.eval m c
    return .truth (a.isTrue || b.isTrue)
  | .binary _ op left right => do
    let a ← left.eval m c
    let b ← right.eval m c
    Eval.binary op a b
  | .unary _ .minus _ => throw .wrong
  | .unary _ .logicalNot operand => return .truth !(← operand.eval m c).isTrue
  | .unary _ op (.variable _ name) => do
    let x ← Eval.orHalt (c.lookup name) .wrong
    Eval.step op x
  | .assign _ (.variable _ name) value => do
    let d ← value.eval m c
    let x ← Eval.orHalt (c.lookup name) .wrong
    Eval.assign x d
  | _ => throw .wrong
termination_by structural term => term

/-- The values of expressions, from left to right. -/
def Term.evals (m : Surroundings) (c : SourceContext) : List Term → Eval (List Datum)
  | [] => return []
  | term :: rest => do
    let d ← term.eval m c
    return d :: (← Term.evals m c rest)
termination_by structural terms => terms

end

/-- All parameters and the result of the function are truth values or signed integers. -/
structure Signature.IsScalar (s : Signature) : Prop where
  isVararg : s.isVararg = false
  length : s.params.length = s.paramTypes.length
  params : ∀ type ∈ s.paramTypes, type.IsScalar
  result : s.returnType.IsScalar

mutual

/-- Whether an expression is made of truth values, integers, variables that are known to hold
such values, and calls of functions on such values. -/
def Term.IsScalar (c : SourceContext) : Term → Prop
  | .literal _ (.bool _) => True
  | .literal _ (.number numeral) => '.' ∉ numeral.toList
  | .variable _ name => (c.lookup name).isSome
  | .call _ callee args =>
    (∀ signature, c.functions.lookup callee = some signature → signature.IsScalar) ∧
      Term.AllScalar c args
  | .binary _ _ left right => left.IsScalar c ∧ right.IsScalar c
  | .unary _ .minus _ => False
  | .unary _ .logicalNot operand => operand.IsScalar c
  | .unary _ _ (.variable _ name) => (c.lookup name).isSome
  | .assign _ (.variable _ name) value => (c.lookup name).isSome ∧ value.IsScalar c
  | _ => False
termination_by structural term => term

def Term.AllScalar (c : SourceContext) : List Term → Prop
  | [] => True
  | term :: rest => term.IsScalar c ∧ Term.AllScalar c rest
termination_by structural terms => terms

end

end SsaLowering
