import SsaLowering.Proofs.Body

/-!
# Lowering along handles

The lowering works on trees. Here the same lowering reads the arena itself, one node after the
other, so that every access and every recursion shows. An access to a node that is missing has no
result, and neither has a recursion through a handle that does not come before its owner in the
same arena. What the lowering does at a node is carried out by the actions of the lowering.
-/

namespace SsaLowering

namespace Lower

/-! ## Actions whose operands are actions -/

/-- The values of operands, from left to right. -/
def valuesInOrder : List (Lower TypedValue) → Lower (List TypedValue)
  | [] => return []
  | operand :: rest => do
    let v ← operand
    return v :: (← valuesInOrder rest)

/-- The value of a member. -/
def readMember (env : Environment) (name : String) (object : Lower (StructPlace × String)) :
    Lower TypedValue := do
  let (place, _) ← object
  loadField place (← visibleField env place.layout name)

/-- The address of a member that is written, and its field. -/
def addressMember (env : Environment) (name : String) (object : Lower (StructPlace × String)) :
    Lower (Value × FieldLayout) := do
  let (place, root) ← object
  let field ← visibleField env place.layout name
  match place with
  | .memory ptr layout true =>
    return (← build (Build.fieldAddress layout.type ptr field.index), field)
  | _ => fail (.immutableAssignment root)

/-- Store a value in a member. -/
def writeMember (env : Environment) (name : String) (object : Lower (StructPlace × String))
    (v : TypedValue) : Lower TypedValue := do
  let (address, field) ← addressMember env name object
  let stored ← coerce v field.source field.type ("assignment to field '" ++ name ++ "'")
  build (Build.store stored address field.type)
  return ⟨stored, field.type, some field.source⟩

/-- The type of a variable, and its first value, if it has one. -/
def initialValue (env : Environment) (decl : VariableDecl (Lower TypedValue)) :
    Lower (SourceType × MachineType × Option Value) :=
  if decl.type.isInferred then
    match decl.initializer with
    | none => throw ⟨.cannotInfer decl.name, decl.location⟩
    | some initializer => do
      let v ← initializer
      if v.type = .void then
        throw ⟨.typeMismatch ("cannot initialize '" ++ decl.name ++ "' with a void value"),
          decl.location⟩
      return (v.inferredType, v.type, some v.value)
  else do
    unless env.structs.isKnown decl.type do
      warn (.unknownVariableType decl.type decl.name) decl.location
    let type := env.structs.resolve decl.type
    match decl.initializer with
    | none => return (decl.type, type, none)
    | some initializer => do
      let v ← initializer
      let value ← coerce v decl.type type ("initializer of '" ++ decl.name ++ "'")
      return (decl.type, type, some value)

/-- Declare a local variable. -/
def declareVariable (env : Environment) (decl : VariableDecl (Lower TypedValue)) :
    Lower Unit := do
  let (source, type, initial) ← initialValue env decl
  bindVariable ⟨decl.name, decl.type, decl.isMutable, none, decl.location⟩ source type initial

/-- Leave the function with a value, or without one. -/
def leaveWith (context : FunctionContext) : Option (Lower TypedValue) → Lower Unit
  | none =>
    if context.returnType = .void then build (Build.ret none)
    else fail (.invalidReturn
      ("function '" ++ context.name ++ "' must return a " ++ context.source.text))
  | some value =>
    if context.returnType = .void then
      fail (.invalidReturn ("void function '" ++ context.name ++ "' cannot return a value"))
    else do
      let use := "return from '" ++ context.name ++ "'"
      let v ← value >>= fun v => coerce v context.source context.returnType use
      build (Build.ret (some (context.returnType, v)))

/-- Statements one after the other. -/
def inTurn : List (Lower Unit) → Lower Unit
  | [] => pure ()
  | statement :: rest => do
    let opened ← tryCatch (do openIfTerminated; return true) fun e => do
      report e.toDiagnostic
      return false
    if opened then
      recovering statement
      inTurn rest

end Lower

namespace Arena

/-! ## Expressions -/

/-- Follow a handle that an expression holds among the expressions. It has to come earlier. -/
def earlierExpr {α : Type} (owner child : ExprId)
    (follow : child.index.toNat < owner.index.toNat → Option α) : Option α :=
  if h : child.index.toNat < owner.index.toNat then follow h else none

/-- The struct that an expression denotes, and the variable where it starts. -/
def placeAt (arena : Arena) (env : Environment) (id : ExprId) :
    Option (Lower (StructPlace × String)) :=
  arena.exprs[id.index.toNat]?.bind fun e =>
  match e.node with
  | .variable name => some do
    return (← Lower.variablePlace env name, name)
  | .member object field => earlierExpr id object fun _ =>
    (placeAt arena env object).map fun outer => do
      let (outer, root) ← outer
      return (← Lower.fieldPlace env outer field, root)
  | _ => some (Lower.fail (.typeMismatch "member access requires a struct variable or member"))
termination_by id.index.toNat

/-- Increment or decrement the variable that an expression is. -/
def stepAt (arena : Arena) (env : Environment) (op : UnaryOp) (id : ExprId) :
    Option (Lower TypedValue) :=
  arena.exprs[id.index.toNat]?.map fun e =>
  match e.node with
  | .variable name => Lower.lowerStep env op (.variable e.location name)
  | _ => Lower.fail (.invalidTarget ("operand of '" ++ op.text ++ "' must be a variable"))

/-- Store a value in the variable or the member that an expression is. -/
def assignAt (arena : Arena) (env : Environment) (id : ExprId) :
    Option (TypedValue → Lower TypedValue) :=
  arena.exprs[id.index.toNat]?.bind fun e =>
  match e.node with
  | .variable name => some (Lower.assignVariable env name)
  | .member object field => earlierExpr id object fun _ =>
    (placeAt arena env object).map (Lower.writeMember env field)
  | _ => some fun _ =>
    Lower.fail (.invalidTarget "only variables and struct fields can be assigned")

/-- The value of an expression. -/
def exprAt (arena : Arena) (env : Environment) (id : ExprId) : Option (Lower TypedValue) :=
  arena.exprs[id.index.toNat]?.bind fun e =>
  (match e.node with
    | .literal value => some (lowerLiteral value)
    | .variable name => some (Lower.lowerVariable env name)
    | .call callee args => do
      let operands ← args.mapM fun arg => earlierExpr id arg fun _ => exprAt arena env arg
      return Lower.lowerCall env callee args.length (Lower.valuesInOrder operands)
    | .binary op left right => do
      let left ← earlierExpr id left fun _ => exprAt arena env left
      let right ← earlierExpr id right fun _ => exprAt arena env right
      return Lower.lowerBinary op left right
    | .unary .logicalNot operand => do
      let operand ← earlierExpr id operand fun _ => exprAt arena env operand
      return Lower.lowerNot operand
    | .unary .minus operand => do
      let operand ← earlierExpr id operand fun _ => exprAt arena env operand
      return Lower.lowerNegate operand
    | .unary op operand => earlierExpr id operand fun _ => stepAt arena env op operand
    | .cast target operand => do
      let operand ← earlierExpr id operand fun _ => exprAt arena env operand
      return Lower.lowerCast env e.location target operand
    | .alloc target => some (Lower.lowerAlloc env e.location target)
    | .assign target value => do
      let value ← earlierExpr id value fun _ => exprAt arena env value
      let assign ← earlierExpr id target fun _ => assignAt arena env target
      return value >>= assign
    | .member object field => do
      let object ← earlierExpr id object fun _ => placeAt arena env object
      return Lower.readMember env field object).map (Lower.located e.location)
termination_by id.index.toNat

/-- The constant that an initializer of the named variable denotes. -/
def initializerAt (arena : Arena) (name : String) (id : ExprId) : Option (Fold TypedValue) :=
  arena.exprs[id.index.toNat]?.bind fun e =>
  match e.node with
  | .literal value => some (Fold.initializer name (.literal e.location value))
  | .unary .minus operand => do
    let operand ← earlierExpr id operand fun _ => initializerAt arena name operand
    return do
      let v ← operand
      match v.value with
      | .int n => return { v with value := .int (-n) }
      | .float x => return { v with value := .float x.negate }
      | _ => throw ⟨.nonConstantInitializer name, e.location⟩
  | .cast target operand =>
    if target.isPointer then do
      let operand ← earlierExpr id operand fun _ => initializerAt arena name operand
      return do
        let v ← operand
        if v.type = .ptr then return ⟨v.value, .ptr, some target⟩
        else throw ⟨.unsupportedCast v.describe target.text, e.location⟩
    else some (throw ⟨.nonConstantInitializer name, e.location⟩)
  | _ => some (throw ⟨.nonConstantInitializer name, e.location⟩)
termination_by id.index.toNat

/-! ## Statements -/

/-- Follow a handle that a statement holds among the statements. It has to come earlier. -/
def earlierStmt {α : Type} (owner child : StmtId)
    (follow : child.index.toNat < owner.index.toNat → Option α) : Option α :=
  if h : child.index.toNat < owner.index.toNat then follow h else none

/-- Lower a statement. -/
def stmtAt (arena : Arena) (env : Environment) (context : FunctionContext) (id : StmtId) :
    Option (Lower Unit) :=
  arena.stmts[id.index.toNat]?.bind fun s =>
  (match s.node with
    | .block body => do
      let parts ← body.mapM fun part => earlierStmt id part fun _ =>
        stmtAt arena env context part
      return Lower.inTurn parts
    | .expression value => do
      let value ← arena.exprAt env value
      return do let _ ← value
    | .variable decl => do
      let initializer ← decl.initializer.mapM (arena.exprAt env)
      return Lower.declareVariable env
        ⟨decl.name, decl.type, decl.isMutable, initializer, decl.location⟩
    | .branch condition thenBranch elseBranch => do
      let condition ← arena.exprAt env condition
      let thenBranch ← earlierStmt id thenBranch fun _ => stmtAt arena env context thenBranch
      let elseBranch ← elseBranch.mapM fun part => earlierStmt id part fun _ =>
        stmtAt arena env context part
      return Lower.lowerBranch (Lower.truthOf condition) (Lower.recovering thenBranch)
        (elseBranch.elim (pure ()) Lower.recovering)
    | .whileLoop condition body => do
      let condition ← arena.exprAt env condition
      let body ← earlierStmt id body fun _ => stmtAt arena env context body
      return Lower.lowerWhile (Lower.truthOf condition) (Lower.recovering body)
    | .forLoop init condition update body => do
      let init ← init.mapM fun part => earlierStmt id part fun _ =>
        stmtAt arena env context part
      let condition ← condition.mapM (arena.exprAt env)
      let update ← update.mapM (arena.exprAt env)
      let body ← earlierStmt id body fun _ => stmtAt arena env context body
      return Lower.lowerFor (init.getD (pure ())) (condition.map Lower.truthOf)
        (update.elim (pure ()) fun value => Lower.recovering do let _ ← value)
        (Lower.recovering body)
    | .ret value => do
      let value ← value.mapM (arena.exprAt env)
      return Lower.leaveWith context value).map (Lower.located s.location)
termination_by id.index.toNat

/-- The body of a function, in an entry block of its own. -/
def bodyAt (arena : Arena) (env : Environment) (context : FunctionContext) (id : StmtId) :
    Option (Lower Unit) :=
  arena.stmts[id.index.toNat]?.bind fun s =>
  (match s.node with
    | .block body =>
      (body.mapM fun part => earlierStmt id part fun _ => arena.stmtAt env context part).map
        Lower.inTurn
    | _ => (arena.stmtAt env context id).map Lower.recovering).map fun action => do
      let _ ← Lower.build (Build.appendBlock "entry")
      action

end Arena

/-! ## Units -/

/-- A variable without its initializer. -/
def VariableDecl.header {ε ε' : Type} (decl : VariableDecl ε) : VariableDecl ε' :=
  ⟨decl.name, decl.type, decl.isMutable, none, decl.location⟩

/-- A function without its body. -/
def FunctionDecl.header {σ σ' : Type} (decl : FunctionDecl σ) : FunctionDecl σ' :=
  ⟨decl.name, decl.params, decl.returnType, none, decl.owner, decl.location⟩

/-- Declare a global variable, given the action that evaluates its initializer. -/
def Declare.variableWith (decl : VariableDecl (Fold TypedValue)) : Declare Unit := do
  if ((← get).globals.lookup decl.name).isSome then
    throw ⟨.redefinition .global decl.name, decl.location⟩
  let initial ← decl.initializer.mapM fold
  let source ← globalType decl.header initial
  let type := (← get).structs.resolve source
  let value ← globalValue decl.header source type initial
  let entry : GlobalVariable := ⟨decl.name, type, !decl.isMutable, value, .external⟩
  let binding : Binding :=
    ⟨.global decl.name, source, type, decl.isMutable, true, decl.location⟩
  modify fun s => { s with
    code := s.code.addGlobal entry
    globals := (decl.name, binding) :: s.globals }

namespace UnitState

/-- The state after an action for the body of a function. -/
def carryOut (s : UnitState) (d : DeclaredFunction) (action : Lower Unit) : BodyState :=
  (exec (Lower.recovering action) (s.start d)).2

/-- The unit after the body of a function, which replaces the declaration if it passes the
check. -/
def finish (options : LoweringOptions) (s : UnitState) (d : DeclaredFunction)
    (final : BodyState) : UnitState :=
  let log := if options.warnUnused then warnUnused final.scope final.log else final.log
  let s := { s with code := { s.code with globals := final.globals }, log }
  match final.builder.function with
  | none =>
    let e := LoweringError.unplaced (.internal ("lost track of function '" ++ d.decl.name ++ "'"))
    { s with log := log.report e.toDiagnostic }
  | some f =>
    let f := f.finalize
    match f.fault? with
    | none => { s with code := s.code.replaceFunction f }
    | some fault =>
      let e : LoweringError := ⟨.verification f.name fault, d.decl.location⟩
      { s with log := log.report e.toDiagnostic }

end UnitState

namespace Arena

/-- Declare a global variable. -/
def addGlobalAt (arena : Arena) (s : UnitState) (decl : VariableDecl ExprId) :
    Option UnitState := do
  let initializer ← decl.initializer.mapM (arena.initializerAt decl.name)
  match (Declare.variableWith { decl with initializer }).run.run s with
  | (.ok (), s) => return s
  | (.error e, s) => return s.reportError (e.orAt decl.location)

/-- Declare a function. The handle of its body is only kept. -/
def addFunctionAt (acc : UnitState × List (DeclaredFunction × Option StmtId))
    (decl : FunctionDecl StmtId) : UnitState × List (DeclaredFunction × Option StmtId) :=
  let (s, declared) := acc
  match (Declare.function (declared.map (·.1.decl.name)) decl.header).run.run s with
  | (.ok d, s) => (s, declared ++ [(d, decl.body)])
  | (.error e, s) => (s.reportError e, declared)

/-- Lower the body of a function, if it has one. -/
def addBodyAt (arena : Arena) (options : LoweringOptions) (s : UnitState) :
    DeclaredFunction × Option StmtId → Option UnitState
  | (d, some id) =>
    (arena.bodyAt (s.environment d) (UnitState.context d) id).map fun action =>
      s.finish options d (s.carryOut d action)
  | (_, none) => some s

def interfaces (arena : Arena) : List InterfaceDecl :=
  arena.items.filterMap fun | .interface decl => some decl | _ => none

def structs (arena : Arena) : List StructDecl :=
  arena.items.filterMap fun | .struct decl => some decl | _ => none

def globals (arena : Arena) : List (VariableDecl ExprId) :=
  arena.items.filterMap fun | .variable decl => some decl | _ => none

def functions (arena : Arena) : List (FunctionDecl StmtId) :=
  arena.items.filterMap fun | .function decl => some decl | _ => none

/-- The module of a unit, provided that every access finds a node and every recursion goes to an
earlier one. -/
def generateAt (arena : Arena) (options : LoweringOptions) (log : DiagnosticLog) :
    Option (CodeModule × DiagnosticLog) := do
  let s := UnitState.initial options.moduleName log
  let s := arena.interfaces.foldl UnitState.addInterface s
  let s := arena.structs.foldl UnitState.addStruct s
  let s ← arena.globals.foldlM arena.addGlobalAt s
  let (s, declared) := arena.functions.foldl addFunctionAt (s, [])
  let s ← declared.foldlM (arena.addBodyAt options) s
  return (s.code, s.log)

end Arena

end SsaLowering
