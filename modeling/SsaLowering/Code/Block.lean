import SsaLowering.Code.Instr

/-!
# Blocks

A block is a labelled run of instructions. A finished one ends in its only terminator,
and control flows from it to the targets of that terminator.
-/

namespace SsaLowering

/-- A block. The hint says what the block is for. -/
structure Block where
  label : Nat
  hint : Option String
  body : List Instr
deriving DecidableEq, Inhabited

namespace Block

/-- A block without instructions. -/
def fresh (label : Nat) (hint : String) : Block := ⟨label, some hint, []⟩

/-- The block with one more instruction at its end. -/
def push (b : Block) (i : Instr) : Block := { b with body := b.body ++ [i] }

def terminator? (b : Block) : Option Instr :=
  b.body.getLast?.filter (·.isTerminator)

def isTerminated (b : Block) : Bool := b.terminator?.isSome

/-- The blocks to which control may flow from here. -/
def successors (b : Block) : List Nat :=
  match b.terminator? with
  | some i => i.successors
  | none => []

/-- The block as lines of code. -/
def text (b : Block) : String :=
  let head := match b.hint with
    | some hint => "L" ++ toString b.label ++ ":  ; " ++ hint ++ "\n"
    | none => "L" ++ toString b.label ++ ":\n"
  head ++ String.join (b.body.map fun i => "  " ++ i.text ++ "\n")

def toJson (float : Binary64 → Json) (b : Block) : Json :=
  .object [("id", .ofNat b.label), ("hint", .ofOption .string b.hint),
    ("instructions", .ofList (Instr.toJson float) b.body)]

def ofJson? (j : Json) : Option Block := do
  match ← j.record? ["id", "hint", "instructions"] 0 with
  | [label, hint, body] =>
    return ⟨← label.word?, ← hint.optional? Json.text?, ← body.list? Instr.ofJson?⟩
  | _ => none

end Block

end SsaLowering
