import SsaLowering.Lowering.Environment
import SsaLowering.Program.Basic

/-!
# Members of structs

The object of a member access leads back to a named variable, through any number of
member accesses. A struct in memory is reached by address, and a struct that is bound
directly is taken apart. Every level checks that the field may be touched.
-/

namespace SsaLowering

/-- The struct that an expression denotes. -/
inductive StructPlace where
  /-- In memory, where stores may or may not be allowed. -/
  | memory (ptr : Value) (layout : StructLayout) (writable : Bool)
  /-- A value of its own, never written. -/
  | aggregate (value : Value) (layout : StructLayout)
deriving DecidableEq

def StructPlace.layout : StructPlace → StructLayout
  | .memory _ layout _ | .aggregate _ layout => layout

namespace Lower

/-- A field of a struct, if it exists and may be touched. -/
def visibleField (env : Environment) (layout : StructLayout) (name : String) :
    Lower FieldLayout := do
  let field ← orFail (layout.field? name) (.unknownField layout.name name)
  if !field.isPublic && env.owner != some layout.name then
    fail (.privateField layout.name name)
  return field

/-- Read a field. -/
def loadField (place : StructPlace) (field : FieldLayout) : Lower TypedValue := do
  let value ← match place with
    | .memory ptr layout _ => do
      let address ← build (Build.fieldAddress layout.type ptr field.index)
      build (Build.load address field.type)
    | .aggregate value layout =>
      build (Build.extract value layout.type field.index field.type)
  return ⟨value, field.type, some field.source⟩

/-- The struct that a variable holds or points to. -/
def variablePlace (env : Environment) (name : String) : Lower StructPlace := do
  let binding ← orFail (← readBinding? env name) (.undefinedVariable name)
  let layout ← orFail (env.structs.find? binding.source.name)
    (.unknownStruct binding.source.name)
  let inMemory (address : Value) : Lower StructPlace :=
    if binding.source.isPointer then do
      return .memory (← build (Build.load address .ptr)) layout true
    else
      return .memory address layout binding.isMutable
  match binding.storage with
  | .direct value =>
    if binding.source.isPointer then return .memory value layout true
    else return .aggregate value layout
  | .stack slot => inMemory slot
  | .global symbol => inMemory (.global symbol)

/-- The struct that a field of a struct holds or points to. -/
def fieldPlace (env : Environment) (outer : StructPlace) (name : String) :
    Lower StructPlace := do
  let field ← visibleField env outer.layout name
  let inner ← orFail (env.structs.find? field.source.name)
    (.typeMismatch ("field '" ++ field.name ++ "' of struct '" ++ outer.layout.name
      ++ "' has type " ++ field.source.text ++ ", not a struct"))
  if field.source.isPointer then
    return .memory (← loadField outer field).value inner true
  else
    match outer with
    | .memory ptr layout writable =>
      return .memory (← build (Build.fieldAddress layout.type ptr field.index)) inner writable
    | .aggregate value layout =>
      return .aggregate (← build (Build.extract value layout.type field.index field.type)) inner

/-- The struct that an expression denotes, and the variable where it starts. -/
def structPlace (env : Environment) : Term → Lower (StructPlace × String)
  | .variable _ name => do return (← variablePlace env name, name)
  | .member _ object field => do
    let (outer, root) ← structPlace env object
    return (← fieldPlace env outer field, root)
  | _ => fail (.typeMismatch "member access requires a struct variable or member")

/-- The value of a member. -/
def lowerMember (env : Environment) (object : Term) (name : String) : Lower TypedValue := do
  let (place, _) ← structPlace env object
  loadField place (← visibleField env place.layout name)

/-- The address of a member that is written, and its field. -/
def memberAddress (env : Environment) (object : Term) (name : String) :
    Lower (Value × FieldLayout) := do
  let (place, root) ← structPlace env object
  let field ← visibleField env place.layout name
  match place with
  | .memory ptr layout true =>
    return (← build (Build.fieldAddress layout.type ptr field.index), field)
  | _ => fail (.immutableAssignment root)

end Lower

end SsaLowering
