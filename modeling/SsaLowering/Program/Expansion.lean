import SsaLowering.Program.Basic

/-!
# From handles to trees

Expansion builds the tree of every node from the trees of earlier nodes. A handle has to
name an existing node, and inside one arena a node that comes before its parent, so a
unit has an expansion exactly if its handles form trees. The faults of a unit are found
in the order of its expressions, statements and declarations. A node is known by its own
handle, which has 32 bits like all others.
-/

namespace SsaLowering

/-- Who holds a handle. -/
inductive HandleOwner where
  | expr (id : ExprId)
  | stmt (id : StmtId)
  | declaration (name : String)
deriving DecidableEq

def HandleOwner.text : HandleOwner → String
  | .expr id => id.text
  | .stmt id => id.text
  | .declaration name => "declaration '" ++ name ++ "'"

/-- Why a handle cannot be followed. -/
inductive HandleFault where
  | missingExpr (owner : HandleOwner) (id : ExprId)
  | missingStmt (owner : HandleOwner) (id : StmtId)
  | laterExpr (owner : HandleOwner) (id : ExprId)
  | laterStmt (owner : HandleOwner) (id : StmtId)
deriving DecidableEq

def HandleFault.message : HandleFault → String
  | .missingExpr owner id => owner.text ++ " refers to missing expression " ++ id.text
  | .missingStmt owner id => owner.text ++ " refers to missing statement " ++ id.text
  | .laterExpr owner id =>
    owner.text ++ " refers to expression " ++ id.text ++ ", which does not precede it"
  | .laterStmt owner id =>
    owner.text ++ " refers to statement " ++ id.text ++ ", which does not precede it"

namespace Expansion

/-- The operand of an expression: the tree of an earlier expression among `total`. -/
def operand (total : Nat) (done : Array Term) (id : ExprId) : Except HandleFault Term :=
  let owner : ExprId := ⟨UInt32.ofNat done.size⟩
  match done[id.index.toNat]? with
  | some term =>
    if id.index < owner.index then .ok term else .error (.laterExpr (.expr owner) id)
  | none =>
    if id.index.toNat < total then .error (.laterExpr (.expr owner) id)
    else .error (.missingExpr (.expr owner) id)

/-- The tree of an expression, given the trees of those before it. -/
def term (total : Nat) (done : Array Term) (e : Expr) : Except HandleFault Term :=
  let child := operand total done
  match e.node with
  | .literal value => .ok (.literal e.location value)
  | .variable name => .ok (.variable e.location name)
  | .call callee args => do return .call e.location callee (← args.mapM child)
  | .binary op left right => do return .binary e.location op (← child left) (← child right)
  | .unary op value => do return .unary e.location op (← child value)
  | .cast target value => do return .cast e.location target (← child value)
  | .alloc target => .ok (.alloc e.location target)
  | .assign target value => do return .assign e.location (← child target) (← child value)
  | .member object field => do return .member e.location (← child object) field

/-- The trees of all expressions of an arena. -/
def terms (exprs : Array Expr) : Except HandleFault (Array Term) :=
  exprs.foldlM (fun done e => return done.push (← term exprs.size done e)) #[]

/-- The expression that a statement or a declaration names. -/
def rootTerm (owner : HandleOwner) (terms : Array Term) (id : ExprId) :
    Except HandleFault Term :=
  match terms[id.index.toNat]? with
  | some term => .ok term
  | none => .error (.missingExpr owner id)

/-- A part of a statement: the tree of an earlier statement among `total`. -/
def part (total : Nat) (done : Array Statement) (id : StmtId) :
    Except HandleFault Statement :=
  let owner : StmtId := ⟨UInt32.ofNat done.size⟩
  match done[id.index.toNat]? with
  | some statement =>
    if id.index < owner.index then .ok statement else .error (.laterStmt (.stmt owner) id)
  | none =>
    if id.index.toNat < total then .error (.laterStmt (.stmt owner) id)
    else .error (.missingStmt (.stmt owner) id)

/-- A variable declaration with the tree of its initializer. -/
def variableDecl (owner : HandleOwner) (terms : Array Term) (decl : VariableDecl ExprId) :
    Except HandleFault (VariableDecl Term) := do
  let initializer ← decl.initializer.mapM (rootTerm owner terms)
  return ⟨decl.name, decl.type, decl.isMutable, initializer, decl.location⟩

/-- The tree of a statement, given the trees of those before it. -/
def statement (terms : Array Term) (total : Nat) (done : Array Statement) (s : Stmt) :
    Except HandleFault Statement :=
  let owner := HandleOwner.stmt ⟨UInt32.ofNat done.size⟩
  let child := part total done
  let root := rootTerm owner terms
  match s.node with
  | .block body => do return .block s.location (← body.mapM child)
  | .expression value => do return .expression s.location (← root value)
  | .variable decl => do return .variable s.location (← variableDecl owner terms decl)
  | .branch condition thenBranch elseBranch => do
    return .branch s.location (← root condition) (← child thenBranch) (← elseBranch.mapM child)
  | .whileLoop condition body => do
    return .whileLoop s.location (← root condition) (← child body)
  | .forLoop init condition update body => do
    return .forLoop s.location (← init.mapM child) (← condition.mapM root)
      (← update.mapM root) (← child body)
  | .ret value => do return .ret s.location (← value.mapM root)

/-- The trees of all statements of an arena. -/
def statements (terms : Array Term) (stmts : Array Stmt) :
    Except HandleFault (Array Statement) :=
  stmts.foldlM (fun done s => return done.push (← statement terms stmts.size done s)) #[]

/-- A declaration with the trees of its body or initializer. -/
def declaration (terms : Array Term) (statements : Array Statement)
    (item : Declaration ExprId StmtId) : Except HandleFault (Declaration Term Statement) :=
  let owner := HandleOwner.declaration item.name
  match item with
  | .interface decl => .ok (.interface decl)
  | .struct decl => .ok (.struct decl)
  | .function decl => do
    let body ← decl.body.mapM fun id =>
      match statements[id.index.toNat]? with
      | some statement => .ok statement
      | none => .error (HandleFault.missingStmt owner id)
    return .function ⟨decl.name, decl.params, decl.returnType, body, decl.owner, decl.location⟩
  | .variable decl => do return .variable (← variableDecl owner terms decl)

end Expansion

namespace Arena

/-- The program that an arena stands for, or the first handle that cannot be followed. -/
def expand (arena : Arena) : Except HandleFault Program := do
  let terms ← Expansion.terms arena.exprs
  let statements ← Expansion.statements terms arena.stmts
  return ⟨← arena.items.mapM (Expansion.declaration terms statements)⟩

/-- Check that every handle can be followed. -/
def validate (arena : Arena) : Except HandleFault Unit := do
  let _ ← arena.expand
  return ()

end Arena

end SsaLowering
