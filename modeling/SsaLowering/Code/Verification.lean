import SsaLowering.Code.FunctionDef

/-!
# Checking finished functions

The check looks at the shape that later stages rely on: blocks that end in their only
terminator, targets that exist, phis in front that name predecessors, and returns of the
declared type. It names the first fault in the order of the blocks.
-/

namespace SsaLowering

/-- What is wrong with a function, and in which block. -/
inductive ShapeFault where
  | noBlocks
  | duplicateBlock (label : Nat)
  | emptyBlock (label : Nat)
  | missingTerminator (label : Nat)
  | earlyTerminator (label : Nat)
  | unknownTarget (label target : Nat)
  | misplacedPhi (label : Nat)
  | strangePhi (label source : Nat)
  | wrongReturn (label : Nat) (expected : MachineType)
deriving DecidableEq, Inhabited

/-- A fault of the named function in words. -/
def ShapeFault.message (function : String) : ShapeFault → String
  | .noBlocks => "function '" ++ function ++ "' has no blocks"
  | .duplicateBlock label =>
    "duplicate block L" ++ toString label ++ " in '" ++ function ++ "'"
  | .emptyBlock label => "block L" ++ toString label ++ " in '" ++ function ++ "' is empty"
  | .missingTerminator label =>
    "block L" ++ toString label ++ " in '" ++ function ++ "' does not end in a terminator"
  | .earlyTerminator label =>
    "block L" ++ toString label ++ " in '" ++ function
      ++ "' has a terminator before its end"
  | .unknownTarget label target =>
    "block L" ++ toString label ++ " in '" ++ function ++ "' branches to unknown block L"
      ++ toString target
  | .misplacedPhi label =>
    "phi in block L" ++ toString label ++ " of '" ++ function
      ++ "' follows a non-phi instruction"
  | .strangePhi label source =>
    "phi in block L" ++ toString label ++ " of '" ++ function ++ "' names L"
      ++ toString source ++ ", which is not a predecessor"
  | .wrongReturn label expected =>
    "return in block L" ++ toString label ++ " of '" ++ function
      ++ "' does not match return type " ++ expected.text

namespace FunctionDef

/-- The first element of a list that occurs earlier in it. -/
def firstRepeated (seen : List Nat) : List Nat → Option Nat
  | [] => none
  | n :: rest => if n ∈ seen then some n else firstRepeated (n :: seen) rest

/-- The first fault among the phis of a block: one after another instruction, or one that
names a block from which this one is not entered. -/
def phiFault? (label : Nat) (predecessors : List Nat) (afterOther : Bool) :
    List Instr → Option ShapeFault
  | [] => none
  | .phi _ incoming _ :: rest =>
    if afterOther then some (.misplacedPhi label)
    else match incoming.find? fun (_, source) => !predecessors.contains source with
      | some (_, source) => some (.strangePhi label source)
      | none => phiFault? label predecessors afterOther rest
  | _ :: rest => phiFault? label predecessors true rest

/-- Whether a last instruction returns what the function promises. -/
def returnsAs (type : MachineType) : Instr → Bool
  | .ret none => type == .void
  | .ret (some (t, _)) => t == type
  | _ => true

/-- The first fault of one block of a function. -/
def blockFault? (f : FunctionDef) (b : Block) : Option ShapeFault :=
  match b.body.getLast? with
  | none => some (.emptyBlock b.label)
  | some last =>
    if !last.isTerminator then some (.missingTerminator b.label)
    else if b.body.dropLast.any (·.isTerminator) then some (.earlyTerminator b.label)
    else match last.successors.find? fun target => !(f.blocks.map (·.label)).contains target with
      | some target => some (.unknownTarget b.label target)
      | none =>
        match phiFault? b.label (f.predecessors b.label) false b.body with
        | some fault => some fault
        | none =>
          if returnsAs f.returnType last then none
          else some (.wrongReturn b.label f.returnType)

/-- The first fault of a function. One that is only declared has none. -/
def fault? (f : FunctionDef) : Option ShapeFault :=
  if f.isExternal then none
  else if f.blocks.isEmpty then some .noBlocks
  else match firstRepeated [] (f.blocks.map (·.label)) with
    | some label => some (.duplicateBlock label)
    | none => f.blocks.findSome? f.blockFault?

end FunctionDef

end SsaLowering
