import SsaLowering.Code.FunctionDef

/-!
# Building functions

A builder holds the function under construction, the block that receives instructions,
and the next unused temporary and label. An action that fails says why and leaves the
function as it was, but the numbers that it drew stay drawn. Numbers are drawn without a
bound; a separate check says whether 32-bit words hold the next ones.
-/

namespace SsaLowering

/-- Why an action of the builder fails. -/
inductive BuildFault where
  | noFunction
  | noBlock
  | lostBlock
  | noEntry
  | duplicateBlock (label : Nat)
  | unknownBlock (label : Nat)
  | terminatedBlock (label : Nat)
deriving DecidableEq, Inhabited

def BuildFault.message : BuildFault → String
  | .noFunction => "No current function"
  | .noBlock => "No current block"
  | .lostBlock => "Current block not found"
  | .noEntry => "Function has no entry block"
  | .duplicateBlock label => "Block L" ++ toString label ++ " already exists"
  | .unknownBlock label => "Block L" ++ toString label ++ " not found"
  | .terminatedBlock label => "Block L" ++ toString label ++ " is already terminated"

/-- A function under construction. -/
structure FunctionBuilder where
  function : Option FunctionDef
  current : Option Nat
  nextTemp : Nat
  nextLabel : Nat
deriving DecidableEq, Inhabited

/-- Actions on a function under construction. -/
abbrev Build := ExceptT BuildFault (StateM FunctionBuilder)

namespace FunctionBuilder

def empty : FunctionBuilder := ⟨none, none, 0, 0⟩

/-- The first number above all parameters of a function. -/
def firstTemp (f : FunctionDef) : Nat :=
  f.params.foldl (fun next (id, _) => max next (id + 1)) 0

/-- Begin the body of a function, dropping any blocks that it has. -/
def start (f : FunctionDef) : FunctionBuilder where
  function := some { f with blocks := [], isExternal := false }
  current := none
  nextTemp := firstTemp f
  nextLabel := 0

/-- Whether the block that receives instructions is already terminated. -/
def isTerminated (b : FunctionBuilder) : Bool :=
  match b.function, b.current with
  | some f, some label =>
    match f.block? label with
    | some block => block.isTerminated
    | none => false
  | _, _ => false

/-- Whether 32-bit words hold the next temporary and the next label. A builder for which
they do not has run out of numbers. -/
def hasNumbers (b : FunctionBuilder) : Bool :=
  decide (b.nextTemp < UInt32.size ∧ b.nextLabel < UInt32.size)

/-- Take the function out of the builder. -/
def finish (b : FunctionBuilder) : Option FunctionDef × FunctionBuilder :=
  (b.function, { b with function := none, current := none })

end FunctionBuilder

namespace Build

/-- Draw a temporary. -/
def newTemp : Build Nat := do
  let b ← get
  set { b with nextTemp := b.nextTemp + 1 }
  return b.nextTemp

/-- Draw a label. -/
def newLabel : Build Nat := do
  let b ← get
  set { b with nextLabel := b.nextLabel + 1 }
  return b.nextLabel

/-- The function under construction. -/
def function : Build FunctionDef := do
  match (← get).function with
  | some f => return f
  | none => throw .noFunction

/-- Add a block with the given label at the end and go on in it. -/
def createBlock (label : Nat) (hint : String) : Build Unit := do
  let f ← function
  if (f.block? label).isSome then throw (.duplicateBlock label)
  modify fun b => { b with
    function := some { f with blocks := f.blocks ++ [.fresh label hint] }
    current := some label }

/-- Add a block with a new label at the end and go on in it. -/
def appendBlock (hint : String) : Build Nat := do
  let label ← newLabel
  createBlock label hint
  return label

/-- Go on in a block that exists. -/
def switchTo (label : Nat) : Build Unit := do
  let f ← function
  if (f.block? label).isNone then throw (.unknownBlock label)
  modify fun b => { b with current := some label }

/-- Add an instruction at the end of the current block. -/
def emit (i : Instr) : Build Unit := do
  let f ← function
  let some label := (← get).current | throw .noBlock
  let some block := f.block? label | throw .lostBlock
  if block.isTerminated then throw (.terminatedBlock label)
  modify fun b => { b with function := some (f.modifyBlock label (·.push i)) }

/-- Add an instruction that defines a new temporary. -/
def define (instr : Nat → Instr) : Build Value := do
  let result ← newTemp
  emit (instr result)
  return .temp result

/-- Put an instruction after the leading stack slots of a block. -/
def insertSlot (slot : Instr) (block : Block) : Block :=
  { block with body :=
      block.body.takeWhile (·.isAlloca) ++ slot :: block.body.dropWhile (·.isAlloca) }

/-- Add a stack slot to the entry block, after the slots that are already there. It makes
no difference whether the entry block is terminated. -/
def entryAlloca (type : MachineType) : Build Value := do
  let result ← newTemp
  let f ← function
  match f.blocks with
  | [] => throw .noEntry
  | entry :: rest =>
    let entry := insertSlot (.alloca result type) entry
    modify fun b => { b with function := some { f with blocks := entry :: rest } }
    return .temp result

def binary (op : Opcode) (lhs rhs : Value) (type : MachineType) : Build Value :=
  define fun result => .binary result op lhs rhs type

def load (ptr : Value) (type : MachineType) : Build Value :=
  define fun result => .load result ptr type

def store (value ptr : Value) (type : MachineType) : Build Unit :=
  emit (.store value ptr type)

/-- The address of a field of the struct behind a pointer. -/
def fieldAddress (base : MachineType) (ptr : Value) (index : Nat) : Build Value :=
  define fun result => .address result base ptr [.int 0, .int (Int64.ofNat index)]

def extract (aggregate : Value) (type : MachineType) (index : Nat) (fieldType : MachineType) :
    Build Value :=
  define fun result => .extract result aggregate type index fieldType

/-- Call a function. Only a call with a result draws a temporary. -/
def call (callee : Value) (type : MachineType) (args : List (MachineType × Value)) :
    Build (Option Value) := do
  if type.returnsVoid then
    emit (.call none callee type args)
    return none
  else
    return some (← define fun result => .call (some result) callee type args)

def ret (value : Option (MachineType × Value)) : Build Unit := emit (.ret value)

def jump (target : Nat) : Build Unit := emit (.jump target)

def branch (condition : Value) (ifTrue ifFalse : Nat) : Build Unit :=
  emit (.branch condition ifTrue ifFalse)

def phi (incoming : List (Value × Nat)) (type : MachineType) : Build Value :=
  define fun result => .phi result incoming type

def convert (op : Conversion) (value : Value) (source target : MachineType) : Build Value :=
  define fun result => .convert result op value source target

def unreachable : Build Unit := emit .unreachable

end Build

end SsaLowering
