import SsaLowering.Json.Record

/-!
# Machine types

Pointers carry no pointee. Signed and unsigned integers of one width are different types
with the same spelling.
-/

namespace SsaLowering

inductive Signedness where
  | signed
  | unsigned
deriving DecidableEq, Inhabited

inductive IntWidth where
  | w8
  | w16
  | w32
  | w64
deriving DecidableEq, Inhabited

inductive FloatWidth where
  | single
  | double
deriving DecidableEq, Inhabited

namespace IntWidth

def bytes : IntWidth → Nat
  | .w8 => 1
  | .w16 => 2
  | .w32 => 4
  | .w64 => 8

def bits (w : IntWidth) : Nat := 8 * w.bytes

end IntWidth

/-- A machine type. Only return positions may be void. -/
inductive MachineType where
  | void
  | bool
  | int (signedness : Signedness) (width : IntWidth)
  | float (width : FloatWidth)
  | ptr
  | array (size : Nat) (element : MachineType)
  | function (result : MachineType) (params : List MachineType) (isVararg : Bool)
  | struct (name : String) (fields : List MachineType)
deriving Inhabited

namespace MachineType

mutual

/-- Types are compared field by field, the fields of structs included. -/
def decEq : (a b : MachineType) → Decidable (a = b)
  | .void, .void => isTrue rfl
  | .bool, .bool => isTrue rfl
  | .ptr, .ptr => isTrue rfl
  | .int s w, .int s' w' =>
    if h : s = s' ∧ w = w' then isTrue (by rw [h.1, h.2])
    else isFalse (by simpa using h)
  | .float w, .float w' =>
    if h : w = w' then isTrue (by rw [h]) else isFalse (by simp [h])
  | .array n e, .array n' e' =>
    match decEq e e' with
    | isTrue h => if hn : n = n' then isTrue (by rw [h, hn]) else isFalse (by simp [hn])
    | isFalse h => isFalse (by simp [h])
  | .function r ps v, .function r' ps' v' =>
    match decEq r r', decEqList ps ps' with
    | isTrue h, isTrue hp =>
      if hv : v = v' then isTrue (by rw [h, hp, hv]) else isFalse (by simp [hv])
    | isFalse h, _ => isFalse (by simp [h])
    | _, isFalse h => isFalse (by simp [h])
  | .struct n fs, .struct n' fs' =>
    match decEqList fs fs' with
    | isTrue h => if hn : n = n' then isTrue (by rw [h, hn]) else isFalse (by simp [hn])
    | isFalse h => isFalse (by simp [h])
  | .void, .bool | .void, .int .. | .void, .float _ | .void, .ptr | .void, .array ..
  | .void, .function .. | .void, .struct .. => isFalse (by simp)
  | .bool, .void | .bool, .int .. | .bool, .float _ | .bool, .ptr | .bool, .array ..
  | .bool, .function .. | .bool, .struct .. => isFalse (by simp)
  | .int .., .void | .int .., .bool | .int .., .float _ | .int .., .ptr | .int .., .array ..
  | .int .., .function .. | .int .., .struct .. => isFalse (by simp)
  | .float _, .void | .float _, .bool | .float _, .int .. | .float _, .ptr
  | .float _, .array .. | .float _, .function .. | .float _, .struct .. => isFalse (by simp)
  | .ptr, .void | .ptr, .bool | .ptr, .int .. | .ptr, .float _ | .ptr, .array ..
  | .ptr, .function .. | .ptr, .struct .. => isFalse (by simp)
  | .array .., .void | .array .., .bool | .array .., .int .. | .array .., .float _
  | .array .., .ptr | .array .., .function .. | .array .., .struct .. => isFalse (by simp)
  | .function .., .void | .function .., .bool | .function .., .int .. | .function .., .float _
  | .function .., .ptr | .function .., .array .. | .function .., .struct .. =>
    isFalse (by simp)
  | .struct .., .void | .struct .., .bool | .struct .., .int .. | .struct .., .float _
  | .struct .., .ptr | .struct .., .array .. | .struct .., .function .. => isFalse (by simp)
termination_by structural a => a

def decEqList : (as bs : List MachineType) → Decidable (as = bs)
  | [], [] => isTrue rfl
  | [], _ :: _ => isFalse (by simp)
  | _ :: _, [] => isFalse (by simp)
  | a :: as, b :: bs =>
    match decEq a b, decEqList as bs with
    | isTrue h, isTrue h' => isTrue (by rw [h, h'])
    | isFalse h, _ => isFalse (by simp [h])
    | _, isFalse h => isFalse (by simp [h])
termination_by structural as => as

end

instance : DecidableEq MachineType := decEq

abbrev i8 : MachineType := .int .signed .w8
abbrev i16 : MachineType := .int .signed .w16
abbrev i32 : MachineType := .int .signed .w32
abbrev i64 : MachineType := .int .signed .w64
abbrev u8 : MachineType := .int .unsigned .w8
abbrev u16 : MachineType := .int .unsigned .w16
abbrev u32 : MachineType := .int .unsigned .w32
abbrev u64 : MachineType := .int .unsigned .w64
abbrev f32 : MachineType := .float .single
abbrev f64 : MachineType := .float .double

/-- Whether the type is an integer of either signedness. A truth value is not one. -/
def isInteger : MachineType → Bool
  | .int .. => true
  | _ => false

def isUnsigned : MachineType → Bool
  | .int .unsigned _ => true
  | _ => false

def isFloat : MachineType → Bool
  | .float _ => true
  | _ => false

def isPointer : MachineType → Bool
  | .ptr => true
  | _ => false

def isBool : MachineType → Bool
  | .bool => true
  | _ => false

def isStruct : MachineType → Bool
  | .struct .. => true
  | _ => false

/-- Whether the type is that of a function without a result. -/
def returnsVoid : MachineType → Bool
  | .function .void _ _ => true
  | _ => false

/-- The integers that an integer type of the given kind holds, as bounds. -/
def intRange : Signedness → IntWidth → Int × Int
  | .signed, w => (-Nat.pow 2 (w.bits - 1), Nat.pow 2 (w.bits - 1) - 1)
  | .unsigned, w => (0, Nat.pow 2 w.bits - 1)

/-- Whether an integer is a value of the type; no other type holds integers. -/
def fits (type : MachineType) (n : Int64) : Bool :=
  match type with
  | .int s w => decide ((intRange s w).1 ≤ n.toInt ∧ n.toInt ≤ (intRange s w).2)
  | _ => false

mutual

/-- The spelling of a type in code. -/
def text : MachineType → String
  | .void => "void"
  | .bool => "i1"
  | .int _ w => "i" ++ toString w.bits
  | .float .single => "float"
  | .float .double => "double"
  | .ptr => "ptr"
  | .array size element => "[" ++ toString size ++ " x " ++ element.text ++ "]"
  | .function result params isVararg =>
    let dots := if isVararg then ["..."] else []
    result.text ++ " (" ++ ", ".intercalate (texts params ++ dots) ++ ")"
  | .struct name _ => "%" ++ name
termination_by structural t => t

/-- The spellings of a list of types. -/
def texts : List MachineType → List String
  | [] => []
  | t :: rest => t.text :: texts rest
termination_by structural ts => ts

end

/-- The name that a scalar type has in structured data. -/
def scalarNames : List (String × MachineType) :=
  [("Void", .void), ("Bool", .bool), ("I8", i8), ("I16", i16), ("I32", i32), ("I64", i64),
    ("U8", u8), ("U16", u16), ("U32", u32), ("U64", u64), ("F32", f32), ("F64", f64),
    ("Ptr", .ptr)]

mutual

def toJson : MachineType → Json
  | .void => .string "Void"
  | .bool => .string "Bool"
  | .int .signed w => .string ("I" ++ toString w.bits)
  | .int .unsigned w => .string ("U" ++ toString w.bits)
  | .float .single => .string "F32"
  | .float .double => .string "F64"
  | .ptr => .string "Ptr"
  | .array size element =>
    .choice "Array" (.object [("size", .ofNat size), ("element_type", element.toJson)])
  | .function result params isVararg =>
    .choice "Function" (.object [("return_type", result.toJson),
      ("param_types", .array (toJsons params)), ("is_vararg", .bool isVararg)])
  | .struct name fields =>
    .choice "Struct" (.object [("name", .string name), ("fields", .array (toJsons fields))])
termination_by structural t => t

def toJsons : List MachineType → List Json
  | [] => []
  | t :: rest => t.toJson :: toJsons rest
termination_by structural ts => ts

end

/-- The type that a value stands for. The first argument bounds the nesting. -/
def ofJsonWithin? : Nat → Json → Option MachineType
  | 0, _ => none
  | depth + 1, j => do
    match ← j.choice? with
    | ("Array", some v) =>
      match ← v.record? ["size", "element_type"] 0 with
      | [size, element] => return .array (← size.size?) (← ofJsonWithin? depth element)
      | _ => none
    | ("Function", some v) =>
      match ← v.record? ["return_type", "param_types", "is_vararg"] 0 with
      | [result, params, isVararg] =>
        return .function (← ofJsonWithin? depth result)
          (← params.list? (ofJsonWithin? depth)) (← isVararg.bool?)
      | _ => none
    | ("Struct", some v) =>
      match ← v.record? ["name", "fields"] 0 with
      | [name, fields] =>
        return .struct (← name.text?) (← fields.list? (ofJsonWithin? depth))
      | _ => none
    | (name, v) => if Json.isBare v then scalarNames.lookup name else none

/-- The type that a value stands for; structured data is read to a depth of 128. -/
def ofJson? (j : Json) : Option MachineType := ofJsonWithin? 128 j

end MachineType

end SsaLowering
