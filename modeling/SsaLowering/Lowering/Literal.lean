import SsaLowering.Lowering.Environment

/-!
# Literals

A numeral with a point is a double. Any other is an integer, as narrow as its value
allows. Equal string literals share one constant of the module.
-/

namespace SsaLowering

/-- The value of a numeral. -/
def lowerNumeral (numeral : String) : Except LoweringError TypedValue :=
  if numeral.toList.contains '.' then
    match Decimal.read? numeral.toList with
    | some d => .ok (.plain (.float d.toBinary64) .f64)
    | none => .error (.unplaced (.malformedLiteral numeral))
  else
    match readInt64? numeral.toList with
    | some n =>
      .ok (.plain (.int n) (if MachineType.fits .i32 n then .i32 else .i64))
    | none => .error (.unplaced (.malformedLiteral numeral))

namespace StringPool

/-- The text that a global variable holds, if it is the constant of a string literal. -/
def text? (g : GlobalVariable) : Option String :=
  match g.initializer with
  | some (.bytes text) => some text
  | _ => none

/-- The texts of all string literals so far, in the order of their first use. -/
def texts (globals : List GlobalVariable) : List String := globals.filterMap text?

/-- The name of the constant of the string literal with the given number. -/
def nameOf (number : Nat) : String := ".str." ++ toString number

/-- The constant of a string literal: its bytes and a zero. -/
def constant (number : Nat) (text : String) : GlobalVariable where
  name := nameOf number
  type := .array ((utf8Bytes text).length + 1) .i8
  isConstant := true
  initializer := some (.bytes text)
  linkage := .priv

/-- The name of the constant that holds a text. It is added on the first use. -/
def intern (globals : List GlobalVariable) (text : String) :
    String × List GlobalVariable :=
  match (texts globals).idxOf? text with
  | some number => (nameOf number, globals)
  | none =>
    let number := (texts globals).length
    (nameOf number, globals ++ [constant number text])

end StringPool

/-- The address of a string literal. -/
def stringValue (name : String) : TypedValue :=
  ⟨.global name, .ptr, some (.pointerTo "char")⟩

/-- The value of a literal. -/
def lowerLiteral : Literal → Lower TypedValue
  | .number numeral => liftExcept (lowerNumeral numeral)
  | .string text => do
    let s ← get
    let (name, globals) := StringPool.intern s.globals text
    set { s with globals := globals }
    return stringValue name
  | .bool b => return .truth (.bool b)
  | .null => return .null

end SsaLowering
