import SsaLowering.Code.CodeModule
import SsaLowering.Code.FunctionBuilder
import SsaLowering.Lowering.Scope
import SsaLowering.Lowering.StructTable
import SsaLowering.Lowering.TypedValue

/-!
# What the lowering of a body reads and changes

The environment is fixed while a body is lowered: structs, signatures, globals, and whose
private fields are open. The state is what lowering changes: the function under
construction, the global variables (string literals add some), the scope and the log.
An action that fails keeps the changes it has made.
-/

namespace SsaLowering

/-- The signature of a function that can be called, in source and machine types. -/
structure Signature where
  params : List SourceType
  paramTypes : List MachineType
  source : SourceType
  returnType : MachineType
  isVararg : Bool
  owner : Option String
deriving DecidableEq, Inhabited

namespace Signature

/-- The signature of a declaration under the structs declared so far. -/
def ofSource (structs : StructTable) (params : List SourceType) (source : SourceType)
    (isVararg : Bool) (owner : Option String) : Signature where
  params
  paramTypes := params.map structs.resolve
  source
  returnType := structs.resolveReturn source
  isVararg
  owner

/-- The function type that calls name. -/
def type (s : Signature) : MachineType := .function s.returnType s.paramTypes s.isVararg

/-- The declaration of a function with this signature. -/
def declaration (s : Signature) (name : String) (location : Option Location) : FunctionDef :=
  .declaration name s.returnType s.paramTypes s.isVararg location

end Signature

/-- What a body can refer to. A later entry of a name stands before an earlier one. -/
structure Environment where
  structs : StructTable
  functions : List (String × Signature)
  globals : List (String × Binding)
  /-- The struct whose private fields are open. -/
  owner : Option String
deriving Inhabited

/-- What changes while a body is lowered. -/
structure BodyState where
  builder : FunctionBuilder
  globals : List GlobalVariable
  scope : Scope
  log : DiagnosticLog
deriving DecidableEq, Inhabited

/-- Actions of the lowering. -/
abbrev Lower := ExceptT LoweringError (StateM BodyState)

namespace Lower

/-- Fail without a place. -/
def fail {α : Type} (cause : Cause) : Lower α := throw (.unplaced cause)

/-- An optional result, or a failure without a place. -/
def orFail {α : Type} (result : Option α) (cause : Cause) : Lower α :=
  match result with
  | some a => pure a
  | none => fail cause

/-- Carry out an action of the builder. That it fails means that the lowering is wrong,
not the program. -/
def build {α : Type} (action : Build α) : Lower α := do
  let s ← get
  let (result, builder) := action.run s.builder
  set { s with builder := builder }
  match result with
  | .ok a => pure a
  | .error fault => fail (.internal fault.message)

/-- Record a diagnostic. -/
def report (d : Diagnostic) : Lower Unit :=
  modify fun s => { s with log := s.log.report d }

def warn (w : Warning) (location : Option Location) : Lower Unit :=
  report (w.toDiagnostic location)

/-- Place the error of an action that fails, unless it is placed already. -/
def located {α : Type} (location : Option Location) (action : Lower α) : Lower α :=
  tryCatch action fun e => throw (e.orAt location)

/-- Report the error of an action that fails, and go on. -/
def recovering (action : Lower Unit) : Lower Unit :=
  tryCatch action fun e => report e.toDiagnostic

/-- Whether the current block is terminated already. -/
def isTerminated : Lower Bool := do
  return (← get).builder.isTerminated

/-- Jump, unless the current block is terminated already. -/
def fallThrough (target : Nat) : Lower Unit := do
  unless ← isTerminated do
    build (Build.jump target)

/-- Jump, unless the current block is terminated already, and open a new block. -/
def proceedTo (target label : Nat) (hint : String) : Lower Unit := do
  fallThrough target
  build (Build.createBlock label hint)

/-- Jump, and open a new block. -/
def jumpTo (target label : Nat) (hint : String) : Lower Unit := do
  build (Build.jump target)
  build (Build.createBlock label hint)

/-- Leave for one of two blocks, and open a new one. -/
def branchTo (condition : Value) (ifTrue ifFalse label : Nat) (hint : String) : Lower Unit := do
  build (Build.branch condition ifTrue ifFalse)
  build (Build.createBlock label hint)

/-- The binding of a name that is read: a local one, which becomes used, or a global one. -/
def readBinding? (env : Environment) (name : String) : Lower (Option Binding) := do
  let s ← get
  let (binding, scope) := s.scope.read name
  set { s with scope := scope }
  match binding with
  | some binding => return some binding
  | none => return env.globals.lookup name

/-- The binding of a name that is not read. -/
def peekBinding? (env : Environment) (name : String) : Lower (Option Binding) := do
  match (← get).scope.find? name with
  | some binding => return some binding
  | none => return env.globals.lookup name

/-- Warn about a type name that stands for nothing. -/
def checkKnown (env : Environment) (type : SourceType) (location : Option Location) :
    Lower Unit := do
  unless env.structs.isKnown type do
    warn (.unknownType type) location

end Lower

end SsaLowering
