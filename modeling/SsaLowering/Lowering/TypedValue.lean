import SsaLowering.Code.Value
import SsaLowering.Machine.Type
import SsaLowering.Source.SourceType

/-!
# Values with their types

A lowered value knows its machine type. It also knows its source type where there is one,
which for a pointer is the only record of what it points to.
-/

namespace SsaLowering

structure TypedValue where
  value : Value
  type : MachineType
  source : Option SourceType
deriving DecidableEq, Inhabited

namespace MachineType

/-- The source type of a value about which only the machine type is known. -/
def toSource : MachineType → SourceType
  | .void => .named "void"
  | .bool => .named "bool"
  | .int .signed w => .named ("i" ++ toString w.bits)
  | .int .unsigned w => .named ("u" ++ toString w.bits)
  | .float .single => .named "f32"
  | .float .double => .named "f64"
  | .struct name _ => .named name
  | .ptr | .array .. | .function .. => .pointerTo "void"

end MachineType

namespace TypedValue

/-- A value without a source type of its own. -/
def plain (value : Value) (type : MachineType) : TypedValue := ⟨value, type, none⟩

/-- The result of a call that has none. -/
def void : TypedValue := plain .undef .void

/-- A truth value. -/
def truth (value : Value) : TypedValue := ⟨value, .bool, some (.named "bool")⟩

/-- The null pointer. -/
def null : TypedValue := ⟨.null, .ptr, some (.pointerTo "void")⟩

/-- The source type of a value, as a declaration without a type takes it over. -/
def inferredType (v : TypedValue) : SourceType :=
  match v.source with
  | some source => source
  | none => v.type.toSource

/-- The type of a value in words. -/
def describe (v : TypedValue) : String := v.inferredType.text

end TypedValue

end SsaLowering
