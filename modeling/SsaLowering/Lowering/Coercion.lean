import SsaLowering.Lowering.Environment

/-!
# Implicit conversions

Truth tests, conversions to a declared type, and the common type of two operands. Nothing
ever narrows: integers and floats widen, and a constant takes any type that holds it.
-/

namespace SsaLowering

/-- A constant at another type, without any instruction. Integer constants take integer
types that hold them and all float types, float constants take all float types. -/
def convertConstant? (v : TypedValue) (target : MachineType) : Option Value :=
  if v.type = target then some v.value
  else match v.value with
    | .int n =>
      if v.type.isInteger && target.isInteger && target.fits n then some (.int n)
      else if v.type.isInteger && target.isFloat then some (.float (.ofInt n.toInt))
      else none
    | .float x => if v.type.isFloat && target.isFloat then some (.float x) else none
    | _ => none

/-- The conversion that takes a value of one type to a wider type, if there is one. -/
inductive Widening where
  /-- The bits are already those of the target. -/
  | same
  /-- An instruction is needed. -/
  | extend (op : Conversion)
deriving DecidableEq

/-- How a value of type `source` becomes one of type `target` while the code runs. -/
def widening? : (source target : MachineType) → Option Widening
  | .int s w, .int _ w' =>
    if w.bits = w'.bits then some .same
    else if w.bits < w'.bits then
      some (.extend (match s with | .signed => .sext | .unsigned => .zext))
    else none
  | .float .single, .float .double => some (.extend .fpext)
  | _, _ => none

namespace Lower

/-- The value at another type, if it converts to it implicitly. Instructions are added
only in that case. -/
def convert? (v : TypedValue) (target : MachineType) : Lower (Option Value) :=
  match convertConstant? v target with
  | some value => return some value
  | none =>
    match widening? v.type target with
    | some .same => return some v.value
    | some (.extend op) => return some (← build (Build.convert op v.value v.type target))
    | none => return none

/-- A value at a declared type. -/
def coerce (v : TypedValue) (source : SourceType) (target : MachineType) (use : String) :
    Lower Value := do
  match ← convert? v target with
  | some value => return value
  | none =>
    fail (.typeMismatch
      ("expected " ++ source.text ++ " but found " ++ v.describe ++ " in " ++ use))

/-- The truth value of a value: constants are decided, all else is compared with zero. -/
def toBool (v : TypedValue) : Lower Value :=
  match v.value, v.type with
  | value, .bool => return value
  | .int n, .int .. => return .bool (n != 0)
  | .float x, .float _ => return .bool (!x.isZero)
  | .null, .ptr => return .bool false
  | value, .int s w => build (Build.binary .ne value (.int 0) (.int s w))
  | value, .ptr => build (Build.binary .ne value .null .ptr)
  | value, .float w => build (Build.binary .fone value (.float .zero) (.float w))
  | _, _ =>
    fail (.typeMismatch ("cannot use a value of type " ++ v.describe ++ " as a condition"))

/-- Two operands at a common type. -/
structure Operands where
  left : Value
  right : Value
  type : MachineType
deriving DecidableEq

/-- Take the left operand to the type of the right one. -/
def adaptLeft? (l r : TypedValue) : Lower (Option Operands) := do
  return (← convert? l r.type).map fun left => ⟨left, r.value, r.type⟩

/-- Take the right operand to the type of the left one. -/
def adaptRight? (l r : TypedValue) : Lower (Option Operands) := do
  return (← convert? r l.type).map fun right => ⟨l.value, right, l.type⟩

/-- Two operands at a common type, if there is one. A constant adapts to the other operand
before the other operand adapts to it. -/
def unify? (l r : TypedValue) : Lower (Option Operands) := do
  if l.type = r.type then
    return some ⟨l.value, r.value, l.type⟩
  else if l.value.isConstant || !r.value.isConstant then
    match ← adaptLeft? l r with
    | some operands => return some operands
    | none => adaptRight? l r
  else
    match ← adaptRight? l r with
    | some operands => return some operands
    | none => adaptLeft? l r

end Lower

end SsaLowering
