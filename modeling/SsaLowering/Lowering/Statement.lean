import SsaLowering.Lowering.Expression

/-!
# Statements

A statement that fails is reported and skipped, and its neighbours are lowered all the
same. Statements behind a terminator go to a new block to which nothing leads.
-/

namespace SsaLowering

/-- The function whose body is lowered. -/
structure FunctionContext where
  name : String
  source : SourceType
  returnType : MachineType
deriving DecidableEq, Inhabited

namespace Lower

/-- A condition as a truth value. -/
def lowerCondition (env : Environment) (condition : Term) : Lower Value :=
  truthOf (lowerTerm env condition)

/-- Evaluate an expression for its effects. -/
def lowerEffect (env : Environment) (value : Term) : Lower Unit := do
  let _ ← lowerTerm env value

/-- The type of a variable without a declared type, and its value. -/
def inferVariable (env : Environment) (decl : VariableDecl Term) :
    Lower (SourceType × MachineType × Option Value) := do
  match decl.initializer with
  | none => throw ⟨.cannotInfer decl.name, decl.location⟩
  | some initializer =>
    let v ← lowerTerm env initializer
    if v.type = .void then
      throw ⟨.typeMismatch ("cannot initialize '" ++ decl.name ++ "' with a void value"),
        decl.location⟩
    return (v.inferredType, v.type, some v.value)

/-- The type of a variable with a declared type, and its value, if it has one. -/
def declaredVariable (env : Environment) (decl : VariableDecl Term) :
    Lower (SourceType × MachineType × Option Value) := do
  unless env.structs.isKnown decl.type do
    warn (.unknownVariableType decl.type decl.name) decl.location
  let type := env.structs.resolve decl.type
  match decl.initializer with
  | none => return (decl.type, type, none)
  | some initializer =>
    let v ← lowerTerm env initializer
    let value ← coerce v decl.type type ("initializer of '" ++ decl.name ++ "'")
    return (decl.type, type, some value)

/-- The type of a variable, and its first value, if it has one. -/
def variableValue (env : Environment) (decl : VariableDecl Term) :
    Lower (SourceType × MachineType × Option Value) :=
  if decl.type.isInferred then inferVariable env decl else declaredVariable env decl

/-- Store the first value of a variable, if it has one. -/
def storeInitial (slot : Value) (type : MachineType) : Option Value → Lower Unit
  | some value => build (Build.store value slot type)
  | none => pure ()

/-- Make a variable visible that lives in a slot. -/
def declareLocal (decl : VariableDecl Term) (source : SourceType) (type : MachineType)
    (slot : Value) : Lower Unit :=
  modify fun s => { s with
    scope := s.scope.declare decl.name
      ⟨.stack slot, source, type, decl.isMutable, false, decl.location⟩ }

/-- Give a variable a slot of its own, store its first value there, and make its name
visible. -/
def bindVariable (decl : VariableDecl Term) (source : SourceType) (type : MachineType)
    (initial : Option Value) : Lower Unit := do
  let slot ← build (Build.entryAlloca type)
  storeInitial slot type initial
  declareLocal decl source type slot

/-- Declare a local variable. Its name becomes visible after its initializer, which sees
any earlier binding of the name. -/
def lowerVariableDecl (env : Environment) (decl : VariableDecl Term) : Lower Unit := do
  let (source, type, initial) ← variableValue env decl
  bindVariable decl source type initial

/-- A value that is returned, at the return type. -/
def returnedValue (env : Environment) (context : FunctionContext) (value : Term) :
    Lower Value := do
  let v ← lowerTerm env value
  coerce v context.source context.returnType ("return from '" ++ context.name ++ "'")

/-- Leave the function with a value of its return type, or without one if it has none. -/
def lowerReturn (env : Environment) (context : FunctionContext) :
    Option Term → Lower Unit
  | none =>
    if context.returnType = .void then build (Build.ret none)
    else fail (.invalidReturn
      ("function '" ++ context.name ++ "' must return a " ++ context.source.text))
  | some value =>
    if context.returnType = .void then
      fail (.invalidReturn ("void function '" ++ context.name ++ "' cannot return a value"))
    else do
      let v ← returnedValue env context value
      build (Build.ret (some (context.returnType, v)))

/-- The labels of a choice. The block of the first side is open already. -/
structure ChoiceLabels where
  other : Nat
  merge : Nat
deriving DecidableEq

/-- The labels of a loop. The block of its condition is open already. -/
structure LoopLabels where
  condition : Nat
  body : Nat
  update : Nat
  exit : Nat
deriving DecidableEq

/-- Leave for one of two new blocks, and open the first. -/
def openBranch (value : Value) : Lower ChoiceLabels := do
  let thenLabel ← build Build.newLabel
  let elseLabel ← build Build.newLabel
  let mergeLabel ← build Build.newLabel
  branchTo value thenLabel elseLabel thenLabel "then"
  return ⟨elseLabel, mergeLabel⟩

/-- A choice between two statements. Both lead to a new block, unless they leave. -/
def lowerBranch (condition : Lower Value) (thenBranch elseBranch : Lower Unit) :
    Lower Unit := do
  let value ← condition
  let labels ← openBranch value
  thenBranch
  proceedTo labels.merge labels.other "else"
  elseBranch
  proceedTo labels.merge labels.merge "ifcont"

/-- Go on to the condition of a loop without an update. -/
def openWhile : Lower LoopLabels := do
  let conditionLabel ← build Build.newLabel
  let bodyLabel ← build Build.newLabel
  let endLabel ← build Build.newLabel
  jumpTo conditionLabel conditionLabel "while.cond"
  return ⟨conditionLabel, bodyLabel, conditionLabel, endLabel⟩

/-- Go on to the body of a loop, if its condition holds. A loop without a condition always
goes on. -/
def enterBody (condition : Option (Lower Value)) (labels : LoopLabels) (hint : String) :
    Lower Unit :=
  match condition with
  | some condition => do
    let value ← condition
    branchTo value labels.body labels.exit labels.body hint
  | none => jumpTo labels.body labels.body hint

/-- A loop that evaluates its condition before every round. -/
def lowerWhile (condition : Lower Value) (body : Lower Unit) : Lower Unit := do
  let labels ← openWhile
  enterBody (some condition) labels "while.body"
  body
  proceedTo labels.condition labels.exit "while.end"

/-- Go on to the condition of a loop with an update. -/
def openFor : Lower LoopLabels := do
  let conditionLabel ← build Build.newLabel
  let bodyLabel ← build Build.newLabel
  let updateLabel ← build Build.newLabel
  let endLabel ← build Build.newLabel
  jumpTo conditionLabel conditionLabel "for.cond"
  return ⟨conditionLabel, bodyLabel, updateLabel, endLabel⟩

/-- A loop with a part that runs once before it and a part that runs after every round.
Without a condition it never ends by itself. -/
def lowerFor (init : Lower Unit) (condition : Option (Lower Value)) (update body : Lower Unit) :
    Lower Unit := do
  init
  let labels ← openFor
  enterBody condition labels "for.body"
  body
  proceedTo labels.update labels.update "for.inc"
  update
  jumpTo labels.condition labels.exit "for.end"

/-- Open a block for statements that nothing reaches, if the current one is terminated. -/
def openIfTerminated : Lower Unit := do
  if ← isTerminated then
    let _ ← build (Build.appendBlock "dead")

mutual

/-- Lower a statement. An error without a place gets that of the innermost statement that
has one. -/
def lowerStatement (env : Environment) (context : FunctionContext) : Statement → Lower Unit
  | .block location body => located location (lowerBlock env context body)
  | .expression location value => located location (lowerEffect env value)
  | .variable location decl => located location (lowerVariableDecl env decl)
  | .branch location condition thenBranch elseBranch =>
    located location <| lowerBranch (lowerCondition env condition)
      (recovering (lowerStatement env context thenBranch))
      (match elseBranch with
        | some statement => recovering (lowerStatement env context statement)
        | none => pure ())
  | .whileLoop location condition body =>
    located location <| lowerWhile (lowerCondition env condition)
      (recovering (lowerStatement env context body))
  | .forLoop location init condition update body =>
    located location <| lowerFor
      (match init with
        | some statement => lowerStatement env context statement
        | none => pure ())
      (condition.map (lowerCondition env))
      (match update with
        | some value => recovering (lowerEffect env value)
        | none => pure ())
      (recovering (lowerStatement env context body))
  | .ret location value => located location (lowerReturn env context value)
termination_by structural statement => statement

/-- Lower statements one after the other. If no block can be opened for a statement, the
rest is given up. -/
def lowerBlock (env : Environment) (context : FunctionContext) : List Statement → Lower Unit
  | [] => pure ()
  | statement :: rest => do
    let opened ← tryCatch (do openIfTerminated; return true) fun e => do
      report e.toDiagnostic
      return false
    if opened then
      recovering (lowerStatement env context statement)
      lowerBlock env context rest
termination_by structural body => body

end

end Lower

end SsaLowering
