import SsaLowering.Code.Block
import SsaLowering.Source.Location

/-!
# Functions

A function is a signature and blocks, the first of which is entered by a call. A
function whose body lives elsewhere is only declared.
-/

namespace SsaLowering

/-- Who can see a symbol. -/
inductive Linkage where
  | external
  | internal
  | priv
deriving DecidableEq, Inhabited

namespace Linkage

def all : List Linkage := [.external, .internal, .priv]

/-- The name of a linkage in structured data. -/
def name : Linkage → String
  | .external => "External"
  | .internal => "Internal"
  | .priv => "Private"

/-- The keyword of a linkage and a blank; the usual linkage has none. -/
def text : Linkage → String
  | .external => ""
  | .internal => "internal "
  | .priv => "private "

def toJson (l : Linkage) : Json := .string l.name

def ofJson? (j : Json) : Option Linkage := j.named? all name

end Linkage

structure FunctionDef where
  name : String
  returnType : MachineType
  /-- The temporary and the type of every parameter. -/
  params : List (Nat × MachineType)
  blocks : List Block
  isExternal : Bool
  isVararg : Bool
  linkage : Linkage
  location : Option Location
deriving DecidableEq, Inhabited

namespace FunctionDef

/-- A function without a body. Its parameters are the first temporaries. -/
def declaration (name : String) (returnType : MachineType) (params : List MachineType)
    (isVararg : Bool) (location : Option Location) : FunctionDef where
  name
  returnType
  params := params.zipIdx.map fun (type, id) => (id, type)
  blocks := []
  isExternal := true
  isVararg
  linkage := .external
  location

/-- The block with the given label, the first one if there are several. -/
def block? (f : FunctionDef) (label : Nat) : Option Block :=
  f.blocks.find? (·.label == label)

def entry? (f : FunctionDef) : Option Block := f.blocks.head?

/-- Change the first block with the given label. -/
def modifyFirst (label : Nat) (change : Block → Block) : List Block → List Block
  | [] => []
  | b :: rest =>
    if b.label == label then change b :: rest else b :: modifyFirst label change rest

/-- Change the block with the given label, the first one if there are several. -/
def modifyBlock (f : FunctionDef) (label : Nat) (change : Block → Block) : FunctionDef :=
  { f with blocks := modifyFirst label change f.blocks }

/-- The blocks whose terminator names the given one, in order. -/
def predecessors (f : FunctionDef) (label : Nat) : List Nat :=
  (f.blocks.filter (·.successors.contains label)).map (·.label)

/-- The type of the function, as calls name it. -/
def signature (f : FunctionDef) : MachineType :=
  .function f.returnType (f.params.map Prod.snd) f.isVararg

/-- The function without its body. -/
def toDeclaration (f : FunctionDef) : FunctionDef :=
  { f with blocks := [], isExternal := true }

/-- The function as code. Only a definition names its parameters. -/
def text (f : FunctionDef) : String :=
  let params := f.params.map fun (id, type) =>
    if f.isExternal then type.text else type.text ++ " %" ++ toString id
  let dots := if f.isVararg then ["..."] else []
  let keyword := if f.isExternal then "declare " else "define "
  let head := keyword ++ f.linkage.text ++ f.returnType.text ++ " @" ++ f.name ++ "("
    ++ ", ".intercalate (params ++ dots) ++ ")"
  if f.isExternal then head ++ "\n"
  else head ++ " \x7b\n" ++ String.join (f.blocks.map Block.text) ++ "\x7d\n"

def toJson (float : Binary64 → Json) (f : FunctionDef) : Json :=
  .object [("name", .string f.name), ("return_type", f.returnType.toJson),
    ("parameters", .ofList (fun (id, type) => .array [.ofNat id, type.toJson]) f.params),
    ("blocks", .ofList (Block.toJson float) f.blocks),
    ("is_external", .bool f.isExternal), ("is_vararg", .bool f.isVararg),
    ("linkage", f.linkage.toJson),
    ("source_location", .ofOption Location.toJson f.location)]

/-- A pair of a temporary and its type. -/
def param? (j : Json) : Option (Nat × MachineType) := do
  match j with
  | .array [id, type] => return (← id.word?, ← MachineType.ofJson? type)
  | _ => none

def ofJson? (j : Json) : Option FunctionDef := do
  match ← j.record? ["name", "return_type", "parameters", "blocks", "is_external",
      "is_vararg", "linkage", "source_location"] 0 with
  | [name, returnType, params, blocks, isExternal, isVararg, linkage, location] =>
    return ⟨← name.text?, ← MachineType.ofJson? returnType, ← params.list? param?,
      ← blocks.list? Block.ofJson?, ← isExternal.bool?, ← isVararg.bool?,
      ← Linkage.ofJson? linkage, ← location.optional? Location.ofJson?⟩
  | _ => none

end FunctionDef

end SsaLowering
