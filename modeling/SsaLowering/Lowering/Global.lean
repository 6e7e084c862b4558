import SsaLowering.Lowering.Coercion
import SsaLowering.Lowering.Literal
import SsaLowering.Program.Basic

/-!
# Global variables

A global variable is initialized before the program runs, so its initializer has to be a
constant: a literal, the negation of such an expression, or a pointer cast of one.
-/

namespace SsaLowering

/-- Actions that may add constants of string literals to the global variables. What they
added stays when they fail. -/
abbrev Fold := ExceptT LoweringError (StateM (List GlobalVariable))

namespace Fold

/-- The constant that an initializer of the named variable denotes. -/
def initializer (name : String) : Term → Fold TypedValue
  | .literal location (.number numeral) =>
    match lowerNumeral numeral with
    | .ok v => pure v
    | .error e => throw (e.orAt location)
  | .literal _ (.string text) => do
    let (symbol, globals) := StringPool.intern (← get) text
    set globals
    return stringValue symbol
  | .literal _ (.bool b) => return .truth (.bool b)
  | .literal _ .null => return .null
  | .unary location .minus operand => do
    let v ← initializer name operand
    match v.value with
    | .int n => return { v with value := .int (-n) }
    | .float x => return { v with value := .float x.negate }
    | _ => throw ⟨.nonConstantInitializer name, location⟩
  | .cast location target operand => do
    if target.isPointer then
      let v ← initializer name operand
      if v.type = .ptr then return ⟨v.value, .ptr, some target⟩
      else throw ⟨.unsupportedCast v.describe target.text, location⟩
    else throw ⟨.nonConstantInitializer name, location⟩
  | other => throw ⟨.nonConstantInitializer name, other.location⟩

end Fold

/-- What the declarations of a unit build up. A later entry of a name stands before an
earlier one. -/
structure UnitState where
  code : CodeModule
  structs : StructTable
  functions : List (String × Signature)
  globals : List (String × Binding)
  log : DiagnosticLog
deriving Inhabited

/-- Actions on a unit. -/
abbrev Declare := ExceptT LoweringError (StateM UnitState)

namespace Declare

def report (d : Diagnostic) : Declare Unit :=
  modify fun s => { s with log := s.log.report d }

def warn (w : Warning) (location : Option Location) : Declare Unit :=
  report (w.toDiagnostic location)

/-- Carry out a step in the evaluation of an initializer. -/
def fold {α : Type} (action : Fold α) : Declare α := do
  let s ← get
  let (result, globals) := action.run s.code.globals
  set { s with code := { s.code with globals := globals } }
  liftExcept result

/-- The source type of a global variable: the declared one, or that of its initializer. -/
def globalType (decl : VariableDecl Term) (initial : Option TypedValue) :
    Declare SourceType := do
  if decl.type.isInferred then
    match initial with
    | some v => return v.inferredType
    | none => throw ⟨.cannotInfer decl.name, decl.location⟩
  else
    unless (← get).structs.isKnown decl.type do
      warn (.unknownGlobalType decl.type decl.name) decl.location
    return decl.type

/-- The initializer of a global variable at the type of the variable. -/
def globalValue (decl : VariableDecl Term) (source : SourceType) (type : MachineType) :
    Option TypedValue → Declare (Option Value)
  | none => return none
  | some v =>
    match convertConstant? v type with
    | some value => return some value
    | none => throw (.unplaced (.typeMismatch
        ("expected " ++ source.text ++ " but found " ++ v.describe
          ++ " in initializer of global '" ++ decl.name ++ "'")))

/-- Declare a global variable. -/
def globalVariable (decl : VariableDecl Term) : Declare Unit := do
  if ((← get).globals.lookup decl.name).isSome then
    throw ⟨.redefinition .global decl.name, decl.location⟩
  let initial ← decl.initializer.mapM fun term => fold (Fold.initializer decl.name term)
  let source ← globalType decl initial
  let type := (← get).structs.resolve source
  let value ← globalValue decl source type initial
  let entry : GlobalVariable := ⟨decl.name, type, !decl.isMutable, value, .external⟩
  let binding : Binding :=
    ⟨.global decl.name, source, type, decl.isMutable, true, decl.location⟩
  modify fun s => { s with
    code := s.code.addGlobal entry
    globals := (decl.name, binding) :: s.globals }

end Declare

end SsaLowering
