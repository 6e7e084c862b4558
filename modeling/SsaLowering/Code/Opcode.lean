import SsaLowering.Json.Record

/-!
# Operations of the code
-/

namespace SsaLowering

/-- Operations with two operands of one type. Comparisons yield a truth value, all others
a value of the type of their operands. -/
inductive Opcode where
  | add | sub | mul
  | sdiv | udiv | srem | urem
  | fadd | fsub | fmul | fdiv | frem
  | and | or | xor
  | eq | ne
  | slt | sle | sgt | sge
  | ult | ule | ugt | uge
  | foeq | fone | folt | fole | fogt | foge
deriving DecidableEq, Inhabited

namespace Opcode

def all : List Opcode :=
  [.add, .sub, .mul, .sdiv, .udiv, .srem, .urem, .fadd, .fsub, .fmul, .fdiv, .frem,
    .and, .or, .xor, .eq, .ne, .slt, .sle, .sgt, .sge, .ult, .ule, .ugt, .uge,
    .foeq, .fone, .folt, .fole, .fogt, .foge]

/-- The name of an operation in structured data. -/
def name : Opcode → String
  | .add => "Add"
  | .sub => "Sub"
  | .mul => "Mul"
  | .sdiv => "SDiv"
  | .udiv => "UDiv"
  | .srem => "SRem"
  | .urem => "URem"
  | .fadd => "FAdd"
  | .fsub => "FSub"
  | .fmul => "FMul"
  | .fdiv => "FDiv"
  | .frem => "FRem"
  | .and => "And"
  | .or => "Or"
  | .xor => "Xor"
  | .eq => "Eq"
  | .ne => "Ne"
  | .slt => "Slt"
  | .sle => "Sle"
  | .sgt => "Sgt"
  | .sge => "Sge"
  | .ult => "Ult"
  | .ule => "Ule"
  | .ugt => "Ugt"
  | .uge => "Uge"
  | .foeq => "FOeq"
  | .fone => "FOne"
  | .folt => "FOlt"
  | .fole => "FOle"
  | .fogt => "FOgt"
  | .foge => "FOge"

/-- The spelling of an operation in code, or that of its predicate for a comparison. -/
def text : Opcode → String
  | .add => "add"
  | .sub => "sub"
  | .mul => "mul"
  | .sdiv => "sdiv"
  | .udiv => "udiv"
  | .srem => "srem"
  | .urem => "urem"
  | .fadd => "fadd"
  | .fsub => "fsub"
  | .fmul => "fmul"
  | .fdiv => "fdiv"
  | .frem => "frem"
  | .and => "and"
  | .or => "or"
  | .xor => "xor"
  | .eq => "eq"
  | .ne => "ne"
  | .slt => "slt"
  | .sle => "sle"
  | .sgt => "sgt"
  | .sge => "sge"
  | .ult => "ult"
  | .ule => "ule"
  | .ugt => "ugt"
  | .uge => "uge"
  | .foeq => "oeq"
  | .fone => "one"
  | .folt => "olt"
  | .fole => "ole"
  | .fogt => "ogt"
  | .foge => "oge"

def isIntComparison : Opcode → Bool
  | .eq | .ne | .slt | .sle | .sgt | .sge | .ult | .ule | .ugt | .uge => true
  | _ => false

def isFloatComparison : Opcode → Bool
  | .foeq | .fone | .folt | .fole | .fogt | .foge => true
  | _ => false

def isComparison (op : Opcode) : Bool := op.isIntComparison || op.isFloatComparison

def toJson (op : Opcode) : Json := .string op.name

def ofJson? (j : Json) : Option Opcode := j.named? all name

end Opcode

/-- Conversions of one value to another type. -/
inductive Conversion where
  | bitcast
  | sext
  | zext
  | fpext
deriving DecidableEq, Inhabited

namespace Conversion

def all : List Conversion := [.bitcast, .sext, .zext, .fpext]

/-- The name of a conversion in structured data. -/
def name : Conversion → String
  | .bitcast => "Bitcast"
  | .sext => "SExt"
  | .zext => "ZExt"
  | .fpext => "FPExt"

/-- The spelling of a conversion in code. -/
def text : Conversion → String
  | .bitcast => "bitcast"
  | .sext => "sext"
  | .zext => "zext"
  | .fpext => "fpext"

def toJson (op : Conversion) : Json := .string op.name

def ofJson? (j : Json) : Option Conversion := j.named? all name

end Conversion

end SsaLowering
