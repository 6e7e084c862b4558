import SsaLowering.Code.Opcode
import SsaLowering.Code.Value
import SsaLowering.Machine.Type

/-!
# Instructions

An instruction reads operands and defines at most one temporary. Four kinds end a block.
-/

namespace SsaLowering

inductive Instr where
  /-- Apply an operation to two operands of one type. -/
  | binary (result : Nat) (op : Opcode) (lhs rhs : Value) (type : MachineType)
  /-- Read memory. -/
  | load (result : Nat) (ptr : Value) (type : MachineType)
  /-- Write memory. -/
  | store (value ptr : Value) (type : MachineType)
  /-- The address of a part of the aggregate behind a pointer. -/
  | address (result : Nat) (base : MachineType) (ptr : Value) (indices : List Value)
  /-- A field of an aggregate that is not in memory. -/
  | extract (result : Nat) (aggregate : Value) (type : MachineType) (index : Nat)
      (fieldType : MachineType)
  /-- A new stack slot. -/
  | alloca (result : Nat) (type : MachineType)
  /-- Call a function; the type is that of the function. -/
  | call (result : Option Nat) (callee : Value) (type : MachineType)
      (args : List (MachineType × Value))
  /-- Leave the function. -/
  | ret (value : Option (MachineType × Value))
  /-- Go on in another block. -/
  | jump (target : Nat)
  /-- Go on in one of two blocks. -/
  | branch (condition : Value) (ifTrue ifFalse : Nat)
  /-- The value that belongs to the block from which this one was entered. -/
  | phi (result : Nat) (incoming : List (Value × Nat)) (type : MachineType)
  /-- Convert a value to another type. -/
  | convert (result : Nat) (op : Conversion) (value : Value) (source target : MachineType)
  /-- A place that is never reached. -/
  | unreachable
deriving DecidableEq, Inhabited

namespace Instr

def isTerminator : Instr → Bool
  | .ret _ | .jump _ | .branch .. | .unreachable => true
  | _ => false

/-- The blocks that may follow. -/
def successors : Instr → List Nat
  | .jump target => [target]
  | .branch _ ifTrue ifFalse => [ifTrue, ifFalse]
  | _ => []

/-- The temporary that the instruction defines. -/
def result? : Instr → Option Nat
  | .binary result .. | .load result .. | .address result .. | .extract result ..
  | .alloca result _ | .phi result .. | .convert result .. => some result
  | .call result .. => result
  | .store .. | .ret _ | .jump _ | .branch .. | .unreachable => none

/-- The operands that the instruction reads, in the order in which they are written. -/
def operands : Instr → List Value
  | .binary _ _ lhs rhs _ => [lhs, rhs]
  | .load _ ptr _ => [ptr]
  | .store value ptr _ => [value, ptr]
  | .address _ _ ptr indices => ptr :: indices
  | .extract _ aggregate _ _ _ => [aggregate]
  | .alloca .. => []
  | .call _ callee _ args => callee :: args.map Prod.snd
  | .ret none => []
  | .ret (some (_, value)) => [value]
  | .jump _ => []
  | .branch condition _ _ => [condition]
  | .phi _ incoming _ => incoming.map Prod.fst
  | .convert _ _ value _ _ => [value]
  | .unreachable => []

def isAlloca : Instr → Bool
  | .alloca .. => true
  | _ => false

def isPhi : Instr → Bool
  | .phi .. => true
  | _ => false

/-- The mark of a temporary that is being defined. -/
def definition (result : Nat) : String := "%" ++ toString result ++ " = "

/-- A type and an operand of that type. -/
def typedText (arg : MachineType × Value) : String := arg.1.text ++ " " ++ arg.2.text

/-- The type written in a call: that of the result, or that of the function if it takes
further arguments. -/
def calleeText : MachineType → String
  | .function result _ false => result.text
  | other => other.text

/-- An instruction as a line of code. -/
def text : Instr → String
  | .binary result op lhs rhs type =>
    let keyword :=
      if op.isIntComparison then "icmp " else if op.isFloatComparison then "fcmp " else ""
    definition result ++ keyword ++ op.text ++ " " ++ type.text ++ " " ++ lhs.text ++ ", "
      ++ rhs.text
  | .load result ptr type => definition result ++ "load " ++ type.text ++ ", ptr " ++ ptr.text
  | .store value ptr type => "store " ++ type.text ++ " " ++ value.text ++ ", ptr " ++ ptr.text
  | .address result base ptr indices =>
    definition result ++ "getelementptr " ++ base.text ++ ", ptr " ++ ptr.text
      ++ String.join (indices.map fun index => ", i32 " ++ index.text)
  | .extract result aggregate type index _ =>
    definition result ++ "extractvalue " ++ type.text ++ " " ++ aggregate.text ++ ", "
      ++ toString index
  | .alloca result type => definition result ++ "alloca " ++ type.text
  | .call result callee type args =>
    let target := match result with
      | some result => definition result
      | none => ""
    target ++ "call " ++ calleeText type ++ " " ++ callee.text ++ "("
      ++ ", ".intercalate (args.map typedText) ++ ")"
  | .ret none => "ret void"
  | .ret (some value) => "ret " ++ typedText value
  | .jump target => "br label %L" ++ toString target
  | .branch condition ifTrue ifFalse =>
    "br i1 " ++ condition.text ++ ", label %L" ++ toString ifTrue ++ ", label %L"
      ++ toString ifFalse
  | .phi result incoming type =>
    definition result ++ "phi " ++ type.text ++ " " ++ ", ".intercalate
      (incoming.map fun (value, label) => "[ " ++ value.text ++ ", %L" ++ toString label ++ " ]")
  | .convert result op value source target =>
    definition result ++ op.text ++ " " ++ source.text ++ " " ++ value.text ++ " to "
      ++ target.text
  | .unreachable => "unreachable"

/-- A type and an operand as a pair. -/
def typedJson (float : Binary64 → Json) (arg : MachineType × Value) : Json :=
  .array [arg.1.toJson, arg.2.toJson float]

/-- An instruction as structured data, where a double is written in the given way. -/
def toJson (float : Binary64 → Json) : Instr → Json
  | .binary result op lhs rhs type =>
    .choice "Binary" (.object [("result", .ofNat result), ("op", op.toJson),
      ("lhs", lhs.toJson float), ("rhs", rhs.toJson float), ("operand_type", type.toJson)])
  | .load result ptr type =>
    .choice "Load" (.object [("result", .ofNat result), ("ptr", ptr.toJson float),
      ("result_type", type.toJson)])
  | .store value ptr type =>
    .choice "Store" (.object [("value", value.toJson float), ("ptr", ptr.toJson float),
      ("value_type", type.toJson)])
  | .address result base ptr indices =>
    .choice "GetElementPtr" (.object [("result", .ofNat result), ("base_type", base.toJson),
      ("ptr", ptr.toJson float), ("indices", .ofList (Value.toJson float) indices)])
  | .extract result aggregate type index fieldType =>
    .choice "ExtractValue" (.object [("result", .ofNat result),
      ("aggregate", aggregate.toJson float), ("aggregate_type", type.toJson),
      ("index", .ofNat index), ("result_type", fieldType.toJson)])
  | .alloca result type =>
    .choice "Alloca" (.object [("result", .ofNat result), ("alloc_type", type.toJson)])
  | .call result callee type args =>
    .choice "Call" (.object [("result", .ofOption .ofNat result),
      ("function", callee.toJson float), ("function_type", type.toJson),
      ("args", .ofList (typedJson float) args)])
  | .ret value => .choice "Return" (.ofOption (typedJson float) value)
  | .jump target => .choice "Branch" (.ofNat target)
  | .branch condition ifTrue ifFalse =>
    .choice "BranchCond" (.object [("condition", condition.toJson float),
      ("true_label", .ofNat ifTrue), ("false_label", .ofNat ifFalse)])
  | .phi result incoming type =>
    .choice "Phi" (.object [("result", .ofNat result),
      ("incoming", .ofList (fun (value, label) => .array [value.toJson float, .ofNat label])
        incoming),
      ("result_type", type.toJson)])
  | .convert result op value source target =>
    .choice "Cast" (.object [("result", .ofNat result), ("op", op.toJson),
      ("value", value.toJson float), ("from_type", source.toJson),
      ("to_type", target.toJson)])
  | .unreachable => .string "Unreachable"

/-- A pair of a type and an operand. -/
def typed? (j : Json) : Option (MachineType × Value) := do
  match j with
  | .array [type, value] => return (← MachineType.ofJson? type, ← Value.ofJson? value)
  | _ => none

/-- A pair of an operand and a block. -/
def incoming? (j : Json) : Option (Value × Nat) := do
  match j with
  | .array [value, label] => return (← Value.ofJson? value, ← label.word?)
  | _ => none

def ofJson? (j : Json) : Option Instr := do
  match ← j.choice? with
  | ("Binary", some v) =>
    match ← v.record? ["result", "op", "lhs", "rhs", "operand_type"] 0 with
    | [result, op, lhs, rhs, type] =>
      return .binary (← result.word?) (← Opcode.ofJson? op) (← Value.ofJson? lhs)
        (← Value.ofJson? rhs) (← MachineType.ofJson? type)
    | _ => none
  | ("Load", some v) =>
    match ← v.record? ["result", "ptr", "result_type"] 0 with
    | [result, ptr, type] =>
      return .load (← result.word?) (← Value.ofJson? ptr) (← MachineType.ofJson? type)
    | _ => none
  | ("Store", some v) =>
    match ← v.record? ["value", "ptr", "value_type"] 0 with
    | [value, ptr, type] =>
      return .store (← Value.ofJson? value) (← Value.ofJson? ptr) (← MachineType.ofJson? type)
    | _ => none
  | ("GetElementPtr", some v) =>
    match ← v.record? ["result", "base_type", "ptr", "indices"] 0 with
    | [result, base, ptr, indices] =>
      return .address (← result.word?) (← MachineType.ofJson? base) (← Value.ofJson? ptr)
        (← indices.list? Value.ofJson?)
    | _ => none
  | ("ExtractValue", some v) =>
    match ← v.record? ["result", "aggregate", "aggregate_type", "index", "result_type"] 0 with
    | [result, aggregate, type, index, fieldType] =>
      return .extract (← result.word?) (← Value.ofJson? aggregate) (← MachineType.ofJson? type)
        (← index.word?) (← MachineType.ofJson? fieldType)
    | _ => none
  | ("Alloca", some v) =>
    match ← v.record? ["result", "alloc_type"] 0 with
    | [result, type] => return .alloca (← result.word?) (← MachineType.ofJson? type)
    | _ => none
  | ("Call", some v) =>
    match ← v.record? ["result", "function", "function_type", "args"] 0 with
    | [result, callee, type, args] =>
      return .call (← result.optional? Json.word?) (← Value.ofJson? callee)
        (← MachineType.ofJson? type) (← args.list? typed?)
    | _ => none
  | ("Return", some v) => return .ret (← v.optional? typed?)
  | ("Branch", some v) => return .jump (← v.word?)
  | ("BranchCond", some v) =>
    match ← v.record? ["condition", "true_label", "false_label"] 0 with
    | [condition, ifTrue, ifFalse] =>
      return .branch (← Value.ofJson? condition) (← ifTrue.word?) (← ifFalse.word?)
    | _ => none
  | ("Phi", some v) =>
    match ← v.record? ["result", "incoming", "result_type"] 0 with
    | [result, incoming, type] =>
      return .phi (← result.word?) (← incoming.list? incoming?) (← MachineType.ofJson? type)
    | _ => none
  | ("Cast", some v) =>
    match ← v.record? ["result", "op", "value", "from_type", "to_type"] 0 with
    | [result, op, value, source, target] =>
      return .convert (← result.word?) (← Conversion.ofJson? op) (← Value.ofJson? value)
        (← MachineType.ofJson? source) (← MachineType.ofJson? target)
    | _ => none
  | ("Unreachable", v) => if Json.isBare v then some .unreachable else none
  | _ => none

end Instr

end SsaLowering
