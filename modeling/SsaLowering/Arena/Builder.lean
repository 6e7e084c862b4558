import SsaLowering.Arena.Basic

/-!
# Building arenas

A builder adds one node at a time and hands out its handle. Every node and declaration
gets the location that was set last.
-/

namespace SsaLowering

namespace Arena

/-- Add an expression at the end of its arena. -/
def addExpr (arena : Arena) (e : Expr) : ExprId × Arena :=
  (⟨UInt32.ofNat arena.exprs.size⟩, { arena with exprs := arena.exprs.push e })

/-- Add a statement at the end of its arena. -/
def addStmt (arena : Arena) (s : Stmt) : StmtId × Arena :=
  (⟨UInt32.ofNat arena.stmts.size⟩, { arena with stmts := arena.stmts.push s })

def addItem (arena : Arena) (item : Declaration ExprId StmtId) : Arena :=
  { arena with items := arena.items ++ [item] }

end Arena

/-- An arena under construction and the current location. -/
structure ArenaBuilder where
  arena : Arena
  location : Option Location
deriving DecidableEq, Inhabited

namespace ArenaBuilder

def empty : ArenaBuilder := ⟨.empty, none⟩

/-- Place the nodes added from now on at a line and column of an unnamed source. -/
def moveTo (line column : UInt32) (b : ArenaBuilder) : ArenaBuilder :=
  { b with location := some (.unnamed line column) }

/-- Add an expression at the current location. -/
def expr (node : ExprNode) (b : ArenaBuilder) : ExprId × ArenaBuilder :=
  let (id, arena) := b.arena.addExpr ⟨node, b.location⟩
  (id, { b with arena })

/-- Add a statement at the current location. -/
def stmt (node : StmtNode) (b : ArenaBuilder) : StmtId × ArenaBuilder :=
  let (id, arena) := b.arena.addStmt ⟨node, b.location⟩
  (id, { b with arena })

/-- Add the declaration of a local variable. -/
def variableStmt (name : String) (type : SourceType) (isMutable : Bool)
    (initializer : Option ExprId) (b : ArenaBuilder) : StmtId × ArenaBuilder :=
  b.stmt (.variable ⟨name, type, isMutable, initializer, b.location⟩)

def item (decl : Declaration ExprId StmtId) (b : ArenaBuilder) : ArenaBuilder :=
  { b with arena := b.arena.addItem decl }

/-- Add a function whose body is a new block of the given statements. -/
def function (name : String) (params : List Parameter) (returnType : SourceType)
    (body : List StmtId) (owner : Option String) (b : ArenaBuilder) : ArenaBuilder :=
  let (block, b) := b.stmt (.block body)
  b.item (.function ⟨name, params, returnType, some block, owner, b.location⟩)

/-- Add a function without a body. -/
def externalFunction (name : String) (params : List Parameter) (returnType : SourceType)
    (b : ArenaBuilder) : ArenaBuilder :=
  b.item (.function ⟨name, params, returnType, none, none, b.location⟩)

def struct (name : String) (interface : Option String) (fields : List FieldDecl)
    (b : ArenaBuilder) : ArenaBuilder :=
  b.item (.struct ⟨name, interface, fields, b.location⟩)

def interface (name : String) (methods : List String) (b : ArenaBuilder) : ArenaBuilder :=
  b.item (.interface ⟨name, methods, b.location⟩)

/-- Add the declaration of a global variable. -/
def global (name : String) (type : SourceType) (isMutable : Bool)
    (initializer : Option ExprId) (b : ArenaBuilder) : ArenaBuilder :=
  b.item (.variable ⟨name, type, isMutable, initializer, b.location⟩)

end ArenaBuilder

end SsaLowering
