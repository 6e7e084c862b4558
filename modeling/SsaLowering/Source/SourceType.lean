import SsaLowering.Json.Record

/-!
# Types as written in the source

A source type is a name and at most one star. Which machine type it stands for
depends on the structs declared so far.
-/

namespace SsaLowering

/-- A type as written: its name, and whether a star follows. -/
structure SourceType where
  name : String
  isPointer : Bool
deriving DecidableEq, Inhabited

namespace SourceType

/-- The plain type of a name. -/
def named (name : String) : SourceType := ⟨name, false⟩

/-- The pointer type of a name. -/
def pointerTo (name : String) : SourceType := ⟨name, true⟩

/-- The absent type, which asks for the type of the initializer. -/
def inferred : SourceType := ⟨"", false⟩

def isInferred (t : SourceType) : Bool := t.name.isEmpty

/-- The type of no value; a pointer to it is an ordinary pointer. -/
def isVoid (t : SourceType) : Bool := t.name == "void" && !t.isPointer

def toPointer (t : SourceType) : SourceType := ⟨t.name, true⟩

def text (t : SourceType) : String :=
  if t.isInferred then "<inferred>"
  else if t.isPointer then t.name ++ "*"
  else t.name

def toJson (t : SourceType) : Json :=
  .object [("name", .string t.name), ("is_pointer", .bool t.isPointer)]

def ofJson? (j : Json) : Option SourceType := do
  match ← j.record? ["name", "is_pointer"] 0 with
  | [name, isPointer] => return ⟨← name.text?, ← isPointer.bool?⟩
  | _ => none

end SourceType

end SsaLowering
