import SsaLowering.Lowering.Coercion
import SsaLowering.Lowering.Literal
import SsaLowering.Lowering.Member

/-!
# Expressions

One action for every kind of expression, and the recursion that puts them together. The
actions with operands take the lowering of an operand as an action, so they decide when,
and whether, it is carried out.
-/

namespace SsaLowering

/-- The operation that a source operator stands for at a type. Integers are divided and
ordered as signed ones, float comparisons are ordered, and pointers and truth values can
only be equal or not. -/
def selectOpcode? : BinaryOp → MachineType → Option Opcode
  | op, .int .. => match op with
    | .add => some .add
    | .sub => some .sub
    | .mul => some .mul
    | .div => some .sdiv
    | .mod => some .srem
    | .equal => some .eq
    | .notEqual => some .ne
    | .less => some .slt
    | .lessEqual => some .sle
    | .greater => some .sgt
    | .greaterEqual => some .sge
    | _ => none
  | op, .float _ => match op with
    | .add => some .fadd
    | .sub => some .fsub
    | .mul => some .fmul
    | .div => some .fdiv
    | .mod => some .frem
    | .equal => some .foeq
    | .notEqual => some .fone
    | .less => some .folt
    | .lessEqual => some .fole
    | .greater => some .fogt
    | .greaterEqual => some .foge
    | _ => none
  | .equal, .ptr | .equal, .bool => some .eq
  | .notEqual, .ptr | .notEqual, .bool => some .ne
  | _, _ => none

/-- The operation and the operand of an increment or a decrement at a type. -/
def stepOperation? (op : UnaryOp) : MachineType → Option (Opcode × Value)
  | .int .. => match op with
    | .preIncrement | .postIncrement => some (.add, .int 1)
    | .preDecrement | .postDecrement => some (.sub, .int 1)
    | _ => none
  | .float _ => match op with
    | .preIncrement | .postIncrement => some (.fadd, .float .one)
    | .preDecrement | .postDecrement => some (.fsub, .float .one)
    | _ => none
  | _ => none

namespace Lower

/-- The value of a variable: what it is bound to, or what its memory holds. -/
def lowerVariable (env : Environment) (name : String) : Lower TypedValue := do
  let binding ← orFail (← readBinding? env name) (.undefinedVariable name)
  let value ← match binding.storage with
    | .direct value => pure value
    | .stack slot => build (Build.load slot binding.type)
    | .global symbol => build (Build.load (.global symbol) binding.type)
  return ⟨value, binding.type, some binding.source⟩

/-- Both operands, left first, and one operation on their common type. -/
def lowerArithmetic (op : BinaryOp) (left right : Lower TypedValue) : Lower TypedValue := do
  let l ← left
  let r ← right
  let invalid := Cause.invalidOperands op.text l.describe r.describe
  let operands ← orFail (← unify? l r) invalid
  let code ← orFail (selectOpcode? op operands.type) invalid
  let result ← build (Build.binary code operands.left operands.right operands.type)
  if code.isComparison then return .truth result
  else return .plain result operands.type

/-- An operand as a truth value. -/
def truthOf (operand : Lower TypedValue) : Lower Value := do
  toBool (← operand)

/-- Leave for the right operand of a logical operator or for the block behind it, and open
the first. The result is the label of the second. -/
def openFork (isAnd : Bool) (lhs : Value) : Lower Nat := do
  let rhsLabel ← build Build.newLabel
  let mergeLabel ← build Build.newLabel
  branchTo lhs (if isAnd then rhsLabel else mergeLabel) (if isAnd then mergeLabel else rhsLabel)
    rhsLabel (if isAnd then "and.rhs" else "or.rhs")
  return mergeLabel

/-- Branch on the left operand of a logical operator, and go to the right one only if the
left one does not decide. The two paths meet in a new block, also when the right operand
fails. -/
def lowerFork (isAnd : Bool) (lhs : Value) (right : Lower TypedValue) : Lower TypedValue := do
  let s ← get
  let start ← orFail s.builder.current
    (.internal "no current block for short-circuit operator")
  let mergeLabel ← openFork isAnd lhs
  let mergeHint := if isAnd then "and.end" else "or.end"
  let rhs ← tryCatch (truthOf right) fun e => do
    proceedTo mergeLabel mergeLabel mergeHint
    throw e
  let s ← get
  let stop ← orFail s.builder.current (.internal "right operand left no current block")
  jumpTo mergeLabel mergeLabel mergeHint
  return .truth (← build (Build.phi [(.bool !isAnd, start), (rhs, stop)] .bool))

/-- A logical operator that skips its right operand when the left one decides. -/
def lowerShortCircuit (isAnd : Bool) (left right : Lower TypedValue) : Lower TypedValue := do
  let short := !isAnd
  let lhs ← truthOf left
  match lhs.bool? with
  | some decided =>
    if decided == short then return .truth (.bool short)
    else return .truth (← truthOf right)
  | none => lowerFork isAnd lhs right

/-- A logical operator that always evaluates both operands. -/
def lowerEager (isAnd : Bool) (left right : Lower TypedValue) : Lower TypedValue := do
  let lhs ← truthOf left
  let rhs ← truthOf right
  match lhs.bool?, rhs.bool? with
  | some l, some r => return .truth (.bool (if isAnd then l && r else l || r))
  | _, _ => return .truth (← build (Build.binary (if isAnd then .and else .or) lhs rhs .bool))

/-- An operator with two operands. -/
def lowerBinary (op : BinaryOp) (left right : Lower TypedValue) : Lower TypedValue :=
  match op with
  | .logicalAnd => lowerShortCircuit true left right
  | .logicalOr => lowerShortCircuit false left right
  | .eagerAnd => lowerEager true left right
  | .eagerOr => lowerEager false left right
  | _ => lowerArithmetic op left right

/-- The opposite truth value. -/
def lowerNot (operand : Lower TypedValue) : Lower TypedValue := do
  let truth ← truthOf operand
  match truth.bool? with
  | some b => return .truth (.bool !b)
  | none => return .truth (← build (Build.binary .xor truth (.bool true) .bool))

/-- The opposite number. Constants are negated at once, and a value keeps its types. -/
def lowerNegate (operand : Lower TypedValue) : Lower TypedValue := do
  let v ← operand
  match v.value, v.type with
  | .int n, .int .. => return { v with value := .int (-n) }
  | .float x, .float _ => return { v with value := .float x.negate }
  | value, .int s w =>
    return { v with value := ← build (Build.binary .sub (.int 0) value (.int s w)) }
  | value, .float w =>
    let zero := Value.float .negativeZero
    return { v with value := ← build (Build.binary .fsub zero value (.float w)) }
  | _, _ => fail (.invalidOperands UnaryOp.minus.text v.describe v.describe)

/-- Increment or decrement a variable in memory. The result is the new value if the
operator stands in front, and the old one otherwise. -/
def lowerStep (env : Environment) (op : UnaryOp) : Term → Lower TypedValue
  | .variable _ name => do
    let binding ← orFail (← readBinding? env name) (.undefinedVariable name)
    unless binding.isMutable do
      fail (.immutableAssignment name)
    let address ← orFail binding.storage.address?
      (.invalidTarget ("'" ++ name ++ "' is not stored in memory"))
    let (code, one) ← orFail (stepOperation? op binding.type)
      (.invalidOperands op.text binding.source.text "1")
    let old ← build (Build.load address binding.type)
    let new ← build (Build.binary code old one binding.type)
    build (Build.store new address binding.type)
    let isFront := op == .preIncrement || op == .preDecrement
    return ⟨if isFront then new else old, binding.type, some binding.source⟩
  | _ => fail (.invalidTarget ("operand of '" ++ op.text ++ "' must be a variable"))

/-- An argument that no parameter stands for. Floats are widened, and a value that does
not fit into a register is refused. -/
def promoteVariadic (v : TypedValue) (callee : String) : Lower (MachineType × Value) :=
  match v.type with
  | .float .single => do
    return (.f64, ← build (Build.convert .fpext v.value .f32 .f64))
  | .void | .struct .. =>
    fail (.typeMismatch
      ("cannot pass a value of type " ++ v.describe ++ " to '" ++ callee ++ "'"))
  | type => return (type, v.value)

/-- The arguments of a call at the types of their parameters, counted from `number`. -/
def passArguments (callee : String) : (number : Nat) → List SourceType → List MachineType →
    List TypedValue → Lower (List (MachineType × Value))
  | _, _, _, [] => return []
  | number, source :: sources, type :: types, v :: rest => do
    let use := "argument " ++ toString number ++ " of '" ++ callee ++ "'"
    let value ← coerce v source type use
    return (type, value) :: (← passArguments callee (number + 1) sources types rest)
  | number, sources, types, v :: rest => do
    let arg ← promoteVariadic v callee
    return arg :: (← passArguments callee (number + 1) sources types rest)

/-- Call a function. All arguments are evaluated, left to right, before the first one is
converted. -/
def lowerCall (env : Environment) (callee : String) (count : Nat)
    (args : Lower (List TypedValue)) : Lower TypedValue := do
  let signature ← orFail (env.functions.lookup callee) (.undefinedFunction callee)
  let expected := signature.params.length
  let fits := if signature.isVararg then decide (expected ≤ count) else count == expected
  unless fits do
    fail (.argumentCount callee expected count)
  let values ← args
  let passed ← passArguments callee 1 signature.params signature.paramTypes values
  match ← build (Build.call (.function callee) signature.type passed) with
  | some result => return ⟨result, signature.returnType, some signature.source⟩
  | none => return .void

/-- A cast. It exists from pointers to pointers only, and changes nothing but the source
type. -/
def lowerCast (env : Environment) (location : Option Location) (target : SourceType)
    (operand : Lower TypedValue) : Lower TypedValue := do
  checkKnown env target location
  let v ← operand
  if v.type = .ptr ∧ target.isPointer then
    return ⟨v.value, .ptr, some target⟩
  else fail (.unsupportedCast v.describe target.text)

/-- The bytes requested for anything but a known struct. -/
def minAllocSize : Nat := 8

/-- The function that provides heap memory. -/
def allocator : String := "malloc"

/-- The bytes that an allocation requests. -/
def allocSize (structs : StructTable) (target : SourceType) : Nat :=
  if target.isPointer then minAllocSize else (structs.sizeOf? target.name).getD minAllocSize

/-- Heap memory for one value of a type. -/
def lowerAlloc (env : Environment) (location : Option Location) (target : SourceType) :
    Lower TypedValue := do
  checkKnown env target location
  let size := allocSize env.structs target
  let signature ← orFail (env.functions.lookup allocator) (.undefinedFunction allocator)
  let args := [(MachineType.i64, Value.int (Int64.ofNat size))]
  let result ← build (Build.call (.function allocator) signature.type args)
  let raw ← orFail result (.internal ("'" ++ allocator ++ "' returned no value"))
  let pointer ←
    if signature.returnType = .ptr then pure raw
    else build (Build.convert .bitcast raw signature.returnType .ptr)
  return ⟨pointer, .ptr, some target.toPointer⟩

/-- Store a value in a variable, which has to be mutable and in memory. -/
def assignVariable (env : Environment) (name : String) (v : TypedValue) :
    Lower TypedValue := do
  let binding ← orFail (← peekBinding? env name) (.undefinedVariable name)
  unless binding.isMutable do
    fail (.immutableAssignment name)
  let address ← orFail binding.storage.address?
    (.invalidTarget ("'" ++ name ++ "' is not stored in memory"))
  let stored ← coerce v binding.source binding.type ("assignment to '" ++ name ++ "'")
  build (Build.store stored address binding.type)
  return ⟨stored, binding.type, some binding.source⟩

/-- Store a value in a member. -/
def assignMember (env : Environment) (object : Term) (name : String) (v : TypedValue) :
    Lower TypedValue := do
  let (address, field) ← memberAddress env object name
  let stored ← coerce v field.source field.type ("assignment to field '" ++ name ++ "'")
  build (Build.store stored address field.type)
  return ⟨stored, field.type, some field.source⟩

/-- Evaluate a value and store it. The result is the stored value. -/
def lowerAssign (env : Environment) (target : Term) (value : Lower TypedValue) :
    Lower TypedValue := do
  let v ← value
  match target with
  | .variable _ name => assignVariable env name v
  | .member _ object name => assignMember env object name v
  | _ => fail (.invalidTarget "only variables and struct fields can be assigned")

mutual

/-- The value of an expression. An error without a place gets that of the innermost
expression that has one. -/
def lowerTerm (env : Environment) : Term → Lower TypedValue
  | .literal location value => located location (lowerLiteral value)
  | .variable location name => located location (lowerVariable env name)
  | .call location callee args =>
    located location (lowerCall env callee args.length (lowerTerms env args))
  | .binary location op left right =>
    located location (lowerBinary op (lowerTerm env left) (lowerTerm env right))
  | .unary location .logicalNot operand =>
    located location (lowerNot (lowerTerm env operand))
  | .unary location .minus operand => located location (lowerNegate (lowerTerm env operand))
  | .unary location op operand => located location (lowerStep env op operand)
  | .cast location target operand =>
    located location (lowerCast env location target (lowerTerm env operand))
  | .alloc location target => located location (lowerAlloc env location target)
  | .assign location target value =>
    located location (lowerAssign env target (lowerTerm env value))
  | .member location object field => located location (lowerMember env object field)
termination_by structural term => term

/-- The values of expressions, from left to right. -/
def lowerTerms (env : Environment) : List Term → Lower (List TypedValue)
  | [] => return []
  | term :: rest => do
    let v ← lowerTerm env term
    return v :: (← lowerTerms env rest)
termination_by structural terms => terms

end

end Lower

end SsaLowering
