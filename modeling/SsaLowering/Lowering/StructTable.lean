import SsaLowering.Arena.Basic
import SsaLowering.Lowering.Error
import SsaLowering.Machine.Layout

/-!
# Declared structs and the machine types of source types

A struct is laid out once, when it is declared, with the structs declared before it. The
table only grows. A name that nobody declared stands for a byte, and whoever resolves it
can ask beforehand whether it is known.
-/

namespace SsaLowering

/-- A field of a struct that is laid out. -/
structure FieldLayout where
  name : String
  index : Nat
  source : SourceType
  type : MachineType
  isPublic : Bool
  offset : Nat
deriving DecidableEq, Inhabited

structure StructLayout where
  name : String
  fields : List FieldLayout
  type : MachineType
  size : Nat
  align : Nat
  interface : Option String
deriving DecidableEq, Inhabited

/-- The field with the given name, the first one if there are several. -/
def StructLayout.field? (s : StructLayout) (name : String) : Option FieldLayout :=
  s.fields.find? (·.name == name)

/-- The declared structs and interfaces, in order. -/
structure StructTable where
  layouts : List StructLayout
  interfaces : List InterfaceDecl
deriving DecidableEq, Inhabited

namespace SourceType

/-- The machine type of a built-in name. -/
def builtin? : String → Option MachineType
  | "i8" | "char" => some .i8
  | "i16" => some .i16
  | "i32" | "int32" => some .i32
  | "i64" => some .i64
  | "u8" => some .u8
  | "u16" => some .u16
  | "u32" => some .u32
  | "u64" => some .u64
  | "f32" => some .f32
  | "f64" => some .f64
  | "bool" => some .bool
  | _ => none

end SourceType

namespace StructTable

def empty : StructTable := ⟨[], []⟩

def find? (table : StructTable) (name : String) : Option StructLayout :=
  table.layouts.find? (·.name == name)

def contains (table : StructTable) (name : String) : Bool := (table.find? name).isSome

def sizeOf? (table : StructTable) (name : String) : Option Nat :=
  (table.find? name).map (·.size)

def hasInterface (table : StructTable) (name : String) : Bool :=
  table.interfaces.any (·.name == name)

/-- The type that stands for a name nobody declared. -/
def fallback : MachineType := .i8

/-- The machine type of a source type where a value is expected. Built-in names come
before struct names. -/
def resolve (table : StructTable) (t : SourceType) : MachineType :=
  if t.isPointer then .ptr
  else match SourceType.builtin? t.name with
    | some type => type
    | none => match table.find? t.name with
      | some layout => layout.type
      | none => fallback

/-- The machine type of a source type in return position, where it may be void. -/
def resolveReturn (table : StructTable) (t : SourceType) : MachineType :=
  if t.isVoid then .void else table.resolve t

/-- Whether a type names something declared. A pointer to void is known, too. -/
def isKnown (table : StructTable) (t : SourceType) : Bool :=
  (SourceType.builtin? t.name).isSome || table.contains t.name
    || (t.isPointer && t.name == "void")

def declareInterface (table : StructTable) (decl : InterfaceDecl) :
    Except LoweringError StructTable :=
  if table.hasInterface decl.name then
    .error ⟨.redefinition .interface decl.name, decl.location⟩
  else .ok { table with interfaces := table.interfaces ++ [decl] }

/-- The warning about the type of a field, if it is unknown. A pointer to the struct
itself is known inside its own declaration. -/
def fieldWarning? (table : StructTable) (decl : StructDecl) (field : FieldDecl) :
    Option Warning :=
  let isSelf := field.type.isPointer && field.type.name == decl.name
  if isSelf || table.isKnown field.type then none
  else some (.unknownFieldType field.type field.name decl.name)

/-- The warnings about a struct declaration: an interface that is not declared, and
fields of unknown types. -/
def warnings (table : StructTable) (decl : StructDecl) : List Warning :=
  let interface := match decl.interface with
    | some name =>
      if table.hasInterface name then [] else [Warning.undeclaredInterface decl.name name]
    | none => []
  interface ++ decl.fields.filterMap (table.fieldWarning? decl)

/-- Number the fields of a struct and give them their types and offsets. -/
def fieldLayouts (index : Nat) : List FieldDecl → List MachineType → List Nat →
    List FieldLayout
  | field :: fields, type :: types, offset :: offsets =>
    ⟨field.name, index, field.type, type, field.isPublic, offset⟩
      :: fieldLayouts (index + 1) fields types offsets
  | _, _, _ => []

/-- The layout of a struct declaration. -/
def layout? (table : StructTable) (decl : StructDecl) : Option StructLayout :=
  let types := decl.fields.map fun field => table.resolve field.type
  (MachineType.layout? types).map fun l =>
    { name := decl.name
      fields := fieldLayouts 0 decl.fields types l.offsets
      type := .struct decl.name types
      size := l.size
      align := l.align
      interface := decl.interface }

/-- Lay out a struct and add it to the table. Warnings go to the log, and the struct is
declared all the same. -/
def define (table : StructTable) (decl : StructDecl) (log : DiagnosticLog) :
    Except LoweringError (StructLayout × StructTable) × DiagnosticLog :=
  if table.contains decl.name then
    (.error ⟨.redefinition .struct decl.name, decl.location⟩, log)
  else
    let log := (table.warnings decl).foldl
      (fun log w => log.report (w.toDiagnostic decl.location)) log
    match table.layout? decl with
    | some layout => (.ok (layout, { table with layouts := table.layouts ++ [layout] }), log)
    | none =>
      (.error ⟨.internal ("struct '" ++ decl.name ++ "' has a field without a size"),
        decl.location⟩, log)

end StructTable

end SsaLowering
