import SsaLowering.Arena.Basic

/-!
# Programs as trees

The same unit as an arena, with every handle replaced by the tree it names. Nodes keep
their locations. Everything after the check of the handles works on these trees, by
recursion on their structure.
-/

namespace SsaLowering

/-- An expression tree. -/
inductive Term where
  | literal (location : Option Location) (value : Literal)
  | variable (location : Option Location) (name : String)
  | call (location : Option Location) (callee : String) (args : List Term)
  | binary (location : Option Location) (op : BinaryOp) (left right : Term)
  | unary (location : Option Location) (op : UnaryOp) (operand : Term)
  | cast (location : Option Location) (target : SourceType) (operand : Term)
  | alloc (location : Option Location) (target : SourceType)
  | assign (location : Option Location) (target value : Term)
  | member (location : Option Location) (object : Term) (field : String)
deriving Inhabited

/-- Where an expression stands in its source. -/
def Term.location : Term → Option Location
  | .literal l _ | .variable l _ | .call l _ _ | .binary l _ _ _ | .unary l _ _
  | .cast l _ _ | .alloc l _ | .assign l _ _ | .member l _ _ => l

/-- A statement tree. -/
inductive Statement where
  | block (location : Option Location) (body : List Statement)
  | expression (location : Option Location) (value : Term)
  | variable (location : Option Location) (decl : VariableDecl Term)
  | branch (location : Option Location) (condition : Term) (thenBranch : Statement)
      (elseBranch : Option Statement)
  | whileLoop (location : Option Location) (condition : Term) (body : Statement)
  | forLoop (location : Option Location) (init : Option Statement)
      (condition update : Option Term) (body : Statement)
  | ret (location : Option Location) (value : Option Term)
deriving Inhabited

/-- Where a statement stands in its source. -/
def Statement.location : Statement → Option Location
  | .block l _ | .expression l _ | .variable l _ | .branch l _ _ _ | .whileLoop l _ _
  | .forLoop l _ _ _ _ | .ret l _ => l

/-- The declarations of a unit, in order. -/
structure Program where
  items : List (Declaration Term Statement)

end SsaLowering
