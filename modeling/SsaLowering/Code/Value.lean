import SsaLowering.Json.Record
import SsaLowering.Number.Shortest

/-!
# Operands

What an instruction reads: the result of another instruction, a constant, or the address
of a symbol.
-/

namespace SsaLowering

/-- An operand. The width of an integer comes from the instruction that reads it. -/
inductive Value where
  | temp (id : Nat)
  | int (value : Int64)
  | float (value : Binary64)
  | bool (value : Bool)
  | null
  | global (name : String)
  | function (name : String)
  | bytes (text : String)
  | undef
deriving DecidableEq, Inhabited

/-- The bytes of a text in the usual encoding. -/
def utf8Bytes (text : String) : List UInt8 := text.toUTF8.data.toList

namespace Value

def int? : Value → Option Int64
  | .int n => some n
  | _ => none

def bool? : Value → Option Bool
  | .bool b => some b
  | _ => none

/-- Addresses and the undefined value are not constants. -/
def isConstant : Value → Bool
  | .int _ | .float _ | .bool _ | .null | .bytes _ => true
  | .temp _ | .global _ | .function _ | .undef => false

/-- The hexadecimal digit of a number below sixteen, in upper case. -/
def upperHexDigit (n : Nat) : Char := (Nat.digitChar n).toUpper

/-- Whether a byte stands for itself in a byte string: a visible character or a blank,
but no quote and no backslash. -/
def isPlainByte (b : UInt8) : Bool :=
  decide (32 ≤ b.toNat ∧ b.toNat < 127) && b != 34 && b != 92

/-- A byte inside a byte string, escaped with two digits if it is not plain. -/
def byteChars (b : UInt8) : List Char :=
  if isPlainByte b then [Char.ofNat b.toNat]
  else ['\\', upperHexDigit (b.toNat / 16), upperHexDigit (b.toNat % 16)]

/-- The characters between the quotes of a byte string: the bytes of the text and a zero. -/
def byteStringBody (text : String) : List Char :=
  (utf8Bytes text).flatMap byteChars ++ ['\\', '0', '0']

/-- The spelling of an operand in code. -/
def text : Value → String
  | .temp id => "%" ++ toString id
  | .int n => toString n.toInt
  | .float x => FloatStyle.code.text x
  | .bool true => "true"
  | .bool false => "false"
  | .null => "null"
  | .global name | .function name => "@" ++ name
  | .bytes s => "c\"" ++ String.ofList (byteStringBody s) ++ "\""
  | .undef => "undef"

/-- An operand as structured data, where a double is written in the given way. -/
def toJson (float : Binary64 → Json) : Value → Json
  | .temp id => .choice "Temp" (.ofNat id)
  | .int n => .choice "ConstInt" (.ofInt n.toInt)
  | .float x => .choice "ConstFloat" (float x)
  | .bool b => .choice "ConstBool" (.bool b)
  | .null => .string "Null"
  | .global name => .choice "Global" (.string name)
  | .function name => .choice "Function" (.string name)
  | .bytes s => .choice "ConstString" (.string s)
  | .undef => .string "Undef"

def ofJson? (j : Json) : Option Value := do
  match ← j.choice? with
  | ("Temp", some v) => return .temp (← v.word?)
  | ("ConstInt", some v) => return .int (← v.int64?)
  | ("ConstFloat", some v) => return .float (← v.binary64?)
  | ("ConstBool", some v) => return .bool (← v.bool?)
  | ("Null", v) => if Json.isBare v then some .null else none
  | ("Global", some v) => return .global (← v.text?)
  | ("Function", some v) => return .function (← v.text?)
  | ("ConstString", some v) => return .bytes (← v.text?)
  | ("Undef", v) => if Json.isBare v then some .undef else none
  | _ => none

end Value

/-- A double as a numeral; one that is not finite is null. -/
def Binary64.toNumeral (x : Binary64) : Json :=
  if x.isFinite then .number (FloatStyle.data.text x) else .null

end SsaLowering
