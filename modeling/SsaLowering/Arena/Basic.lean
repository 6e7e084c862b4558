import SsaLowering.Arena.Operator
import SsaLowering.Source.Location
import SsaLowering.Source.SourceType

/-!
# Arenas

A compilation unit as it comes from outside: a sequence of expressions, a sequence
of statements, and the declarations at its top level. Nodes name their children by
position. Declarations are generic in what stands for an expression and for a
statement, since the same declarations hold handles here and trees after expansion.
-/

namespace SsaLowering

/-- A position in the sequence of expressions. -/
structure ExprId where
  index : UInt32
deriving DecidableEq, Inhabited

/-- A position in the sequence of statements. -/
structure StmtId where
  index : UInt32
deriving DecidableEq, Inhabited

def ExprId.text (id : ExprId) : String := "e" ++ toString id.index.toNat

def StmtId.text (id : StmtId) : String := "s" ++ toString id.index.toNat

/-- A literal. A numeral keeps its spelling. -/
inductive Literal where
  | number (numeral : String)
  | string (text : String)
  | bool (value : Bool)
  | null
deriving DecidableEq, Inhabited

/-- An expression whose operands are handles. -/
inductive ExprNode where
  | literal (value : Literal)
  | variable (name : String)
  | call (callee : String) (args : List ExprId)
  | binary (op : BinaryOp) (left right : ExprId)
  | unary (op : UnaryOp) (operand : ExprId)
  | cast (target : SourceType) (operand : ExprId)
  | alloc (target : SourceType)
  | assign (target value : ExprId)
  | member (object : ExprId) (field : String)
deriving DecidableEq, Inhabited

/-- An expression in its arena. -/
structure Expr where
  node : ExprNode
  location : Option Location
deriving DecidableEq, Inhabited

/-- The declaration of a variable, local or global. An inferred type asks for the type
of the initializer. -/
structure VariableDecl (ε : Type) where
  name : String
  type : SourceType
  isMutable : Bool
  initializer : Option ε
  location : Option Location
deriving DecidableEq, Inhabited

/-- A statement whose parts are handles. -/
inductive StmtNode where
  | block (body : List StmtId)
  | expression (value : ExprId)
  | variable (decl : VariableDecl ExprId)
  | branch (condition : ExprId) (thenBranch : StmtId) (elseBranch : Option StmtId)
  | whileLoop (condition : ExprId) (body : StmtId)
  | forLoop (init : Option StmtId) (condition update : Option ExprId) (body : StmtId)
  | ret (value : Option ExprId)
deriving DecidableEq, Inhabited

/-- A statement in its arena. -/
structure Stmt where
  node : StmtNode
  location : Option Location
deriving DecidableEq, Inhabited

/-- An interface: a named list of method names. -/
structure InterfaceDecl where
  name : String
  methods : List String
  location : Option Location
deriving DecidableEq, Inhabited

/-- A field of a struct as declared. -/
structure FieldDecl where
  name : String
  type : SourceType
  isPublic : Bool
deriving DecidableEq, Inhabited

/-- A struct, and the interface that it claims to implement. -/
structure StructDecl where
  name : String
  interface : Option String
  fields : List FieldDecl
  location : Option Location
deriving DecidableEq, Inhabited

structure Parameter where
  name : String
  type : SourceType
deriving DecidableEq, Inhabited

/-- A function. Without a body it is only declared. Its owner is the struct whose private
fields it may touch. -/
structure FunctionDecl (σ : Type) where
  name : String
  params : List Parameter
  returnType : SourceType
  body : Option σ
  owner : Option String
  location : Option Location
deriving DecidableEq, Inhabited

/-- A declaration at the top level. -/
inductive Declaration (ε σ : Type) where
  | interface (decl : InterfaceDecl)
  | struct (decl : StructDecl)
  | function (decl : FunctionDecl σ)
  | variable (decl : VariableDecl ε)
deriving DecidableEq, Inhabited

def Declaration.name {ε σ : Type} : Declaration ε σ → String
  | .interface decl => decl.name
  | .struct decl => decl.name
  | .function decl => decl.name
  | .variable decl => decl.name

/-- A compilation unit. -/
structure Arena where
  exprs : Array Expr
  stmts : Array Stmt
  items : List (Declaration ExprId StmtId)
deriving DecidableEq, Inhabited

def Arena.empty : Arena := ⟨#[], #[], []⟩

end SsaLowering
