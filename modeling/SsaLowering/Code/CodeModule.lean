import SsaLowering.Code.FunctionDef

/-!
# Modules

A module holds the functions and global variables of one unit in the order in which they
were added, and its named struct types in the order of their names.
-/

namespace SsaLowering

/-- A global variable. Without an initializer it starts as zero. -/
structure GlobalVariable where
  name : String
  type : MachineType
  isConstant : Bool
  initializer : Option Value
  linkage : Linkage
deriving DecidableEq, Inhabited

namespace GlobalVariable

def text (g : GlobalVariable) : String :=
  let kind := if g.isConstant then "constant " else "global "
  let value := match g.initializer with
    | some v => v.text
    | none => "zeroinitializer"
  "@" ++ g.name ++ " = " ++ g.linkage.text ++ kind ++ g.type.text ++ " " ++ value

def toJson (float : Binary64 → Json) (g : GlobalVariable) : Json :=
  .object [("name", .string g.name), ("var_type", g.type.toJson),
    ("is_constant", .bool g.isConstant),
    ("initializer", .ofOption (Value.toJson float) g.initializer),
    ("linkage", g.linkage.toJson)]

def ofJson? (j : Json) : Option GlobalVariable := do
  match ← j.record? ["name", "var_type", "is_constant", "initializer", "linkage"] 0 with
  | [name, type, isConstant, initializer, linkage] =>
    return ⟨← name.text?, ← MachineType.ofJson? type, ← isConstant.bool?,
      ← initializer.optional? Value.ofJson?, ← Linkage.ofJson? linkage⟩
  | _ => none

end GlobalVariable

structure CodeModule where
  name : String
  functions : List FunctionDef
  globals : List GlobalVariable
  types : List (String × MachineType)
deriving DecidableEq, Inhabited

namespace CodeModule

def empty (name : String) : CodeModule := ⟨name, [], [], []⟩

def addFunction (m : CodeModule) (f : FunctionDef) : CodeModule :=
  { m with functions := m.functions ++ [f] }

def addGlobal (m : CodeModule) (g : GlobalVariable) : CodeModule :=
  { m with globals := m.globals ++ [g] }

/-- Put a named type at its place in the order of names, instead of an earlier type of the
same name. -/
def insertType (name : String) (type : MachineType) :
    List (String × MachineType) → List (String × MachineType)
  | [] => [(name, type)]
  | (other, otherType) :: rest =>
    if name < other then (name, type) :: (other, otherType) :: rest
    else if name = other then (name, type) :: rest
    else (other, otherType) :: insertType name type rest

def addType (m : CodeModule) (name : String) (type : MachineType) : CodeModule :=
  { m with types := insertType name type m.types }

/-- The function with the given name, the first one if there are several. -/
def function? (m : CodeModule) (name : String) : Option FunctionDef :=
  m.functions.find? (·.name == name)

/-- The global variable with the given name, the first one if there are several. -/
def global? (m : CodeModule) (name : String) : Option GlobalVariable :=
  m.globals.find? (·.name == name)

/-- Put a function at the place of the first one with its name. -/
def replaceIn (f : FunctionDef) : List FunctionDef → List FunctionDef
  | [] => [f]
  | g :: rest => if g.name == f.name then f :: rest else g :: replaceIn f rest

/-- Put a function at the place of the one with its name, or at the end. -/
def replaceFunction (m : CodeModule) (f : FunctionDef) : CodeModule :=
  { m with functions := replaceIn f m.functions }

/-- A named type as a line of code. Only the fields of structs are spelled out. -/
def typeText (name : String) (type : MachineType) : String :=
  let value := match type with
    | .struct _ [] => "\x7b\x7d"
    | .struct _ fields => "\x7b " ++ ", ".intercalate (MachineType.texts fields) ++ " \x7d"
    | other => other.text
  "%" ++ name ++ " = type " ++ value ++ "\n"

/-- The module as code: its name, types, global variables and functions, with a blank
line before each part and each function. -/
def text (m : CodeModule) : String :=
  let gap (empty : Bool) := if empty then "" else "\n"
  "; ModuleID = '" ++ m.name ++ "'\n"
    ++ gap m.types.isEmpty
    ++ String.join (m.types.map fun (name, type) => typeText name type)
    ++ gap m.globals.isEmpty
    ++ String.join (m.globals.map fun g => g.text ++ "\n")
    ++ String.join (m.functions.map fun f => "\n" ++ f.text)

def toJson (float : Binary64 → Json) (m : CodeModule) : Json :=
  .object [("name", .string m.name),
    ("functions", .ofList (FunctionDef.toJson float) m.functions),
    ("globals", .ofList (GlobalVariable.toJson float) m.globals),
    ("type_definitions", .object (m.types.map fun (name, type) => (name, type.toJson)))]

/-- A field of the object of named types. -/
def namedType? (field : String × Json) : Option (String × MachineType) := do
  return (field.1, ← MachineType.ofJson? field.2)

def ofJson? (j : Json) : Option CodeModule := do
  match ← j.record? ["name", "functions", "globals", "type_definitions"] 0 with
  | [name, functions, globals, .object types] =>
    let types ← types.mapM namedType?
    return ⟨← name.text?, ← functions.list? FunctionDef.ofJson?,
      ← globals.list? GlobalVariable.ofJson?,
      types.foldl (fun sorted (name, type) => insertType name type sorted) []⟩
  | _ => none

end CodeModule

end SsaLowering
