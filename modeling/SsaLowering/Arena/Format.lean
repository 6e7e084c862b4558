import SsaLowering.Arena.Basic
import SsaLowering.Json.Reader
import SsaLowering.Json.Writer

/-!
# Arenas as structured data

Writers and readers for every part of an arena. A node is a choice named for its kind.
A reader accepts what its writer produces, and also the shorter forms of a record and a
choice.
-/

namespace SsaLowering

namespace ExprId

def toJson (id : ExprId) : Json := .ofNat id.index.toNat

def ofJson? (j : Json) : Option ExprId := j.word?.map fun n => ⟨UInt32.ofNat n⟩

end ExprId

namespace StmtId

def toJson (id : StmtId) : Json := .ofNat id.index.toNat

def ofJson? (j : Json) : Option StmtId := j.word?.map fun n => ⟨UInt32.ofNat n⟩

end StmtId

namespace Literal

def toJson : Literal → Json
  | .number numeral => .choice "Number" (.string numeral)
  | .string text => .choice "String" (.string text)
  | .bool value => .choice "Bool" (.bool value)
  | .null => .string "Null"

def ofJson? (j : Json) : Option Literal := do
  match ← j.choice? with
  | ("Number", some v) => return .number (← v.text?)
  | ("String", some v) => return .string (← v.text?)
  | ("Bool", some v) => return .bool (← v.bool?)
  | ("Null", v) => if Json.isBare v then some .null else none
  | _ => none

end Literal

namespace ExprNode

def toJson : ExprNode → Json
  | .literal value => .choice "Literal" value.toJson
  | .variable name => .choice "Variable" (.string name)
  | .call callee args =>
    .choice "Call" (.object [("callee", .string callee), ("args", .ofList ExprId.toJson args)])
  | .binary op left right =>
    .choice "Binary"
      (.object [("op", op.toJson), ("left", left.toJson), ("right", right.toJson)])
  | .unary op operand =>
    .choice "Unary" (.object [("op", op.toJson), ("operand", operand.toJson)])
  | .cast target operand =>
    .choice "Cast" (.object [("target", target.toJson), ("operand", operand.toJson)])
  | .alloc target => .choice "Alloc" (.object [("target", target.toJson)])
  | .assign target value =>
    .choice "Assign" (.object [("target", target.toJson), ("value", value.toJson)])
  | .member object field =>
    .choice "Member" (.object [("object", object.toJson), ("field", .string field)])

def ofJson? (j : Json) : Option ExprNode := do
  match ← j.choice? with
  | ("Literal", some v) => return .literal (← Literal.ofJson? v)
  | ("Variable", some v) => return .variable (← v.text?)
  | ("Call", some v) =>
    match ← v.record? ["callee", "args"] 0 with
    | [callee, args] => return .call (← callee.text?) (← args.list? ExprId.ofJson?)
    | _ => none
  | ("Binary", some v) =>
    match ← v.record? ["op", "left", "right"] 0 with
    | [op, left, right] =>
      return .binary (← BinaryOp.ofJson? op) (← ExprId.ofJson? left) (← ExprId.ofJson? right)
    | _ => none
  | ("Unary", some v) =>
    match ← v.record? ["op", "operand"] 0 with
    | [op, operand] => return .unary (← UnaryOp.ofJson? op) (← ExprId.ofJson? operand)
    | _ => none
  | ("Cast", some v) =>
    match ← v.record? ["target", "operand"] 0 with
    | [target, operand] =>
      return .cast (← SourceType.ofJson? target) (← ExprId.ofJson? operand)
    | _ => none
  | ("Alloc", some v) =>
    match ← v.record? ["target"] 0 with
    | [target] => return .alloc (← SourceType.ofJson? target)
    | _ => none
  | ("Assign", some v) =>
    match ← v.record? ["target", "value"] 0 with
    | [target, value] => return .assign (← ExprId.ofJson? target) (← ExprId.ofJson? value)
    | _ => none
  | ("Member", some v) =>
    match ← v.record? ["object", "field"] 0 with
    | [object, field] => return .member (← ExprId.ofJson? object) (← field.text?)
    | _ => none
  | _ => none

end ExprNode

namespace Expr

def toJson (e : Expr) : Json :=
  .object [("kind", e.node.toJson), ("location", .ofOption Location.toJson e.location)]

def ofJson? (j : Json) : Option Expr := do
  match ← j.record? ["kind", "location"] 1 with
  | [kind, location] =>
    return ⟨← ExprNode.ofJson? kind, ← location.optional? Location.ofJson?⟩
  | _ => none

end Expr

namespace VariableDecl

def toJson (decl : VariableDecl ExprId) : Json :=
  .object [("name", .string decl.name), ("var_type", decl.type.toJson),
    ("is_mutable", .bool decl.isMutable),
    ("initializer", .ofOption ExprId.toJson decl.initializer),
    ("location", .ofOption Location.toJson decl.location)]

def ofJson? (j : Json) : Option (VariableDecl ExprId) := do
  match ← j.record? ["name", "var_type", "is_mutable", "initializer", "location"] 1 with
  | [name, type, isMutable, initializer, location] =>
    return ⟨← name.text?, ← SourceType.ofJson? type, ← isMutable.bool?,
      ← initializer.optional? ExprId.ofJson?, ← location.optional? Location.ofJson?⟩
  | _ => none

end VariableDecl

namespace StmtNode

def toJson : StmtNode → Json
  | .block body => .choice "Block" (.ofList StmtId.toJson body)
  | .expression value => .choice "Expression" value.toJson
  | .variable decl => .choice "VarDecl" decl.toJson
  | .branch condition thenBranch elseBranch =>
    .choice "If" (.object [("condition", condition.toJson),
      ("then_branch", thenBranch.toJson),
      ("else_branch", .ofOption StmtId.toJson elseBranch)])
  | .whileLoop condition body =>
    .choice "While" (.object [("condition", condition.toJson), ("body", body.toJson)])
  | .forLoop init condition update body =>
    .choice "For" (.object [("init", .ofOption StmtId.toJson init),
      ("condition", .ofOption ExprId.toJson condition),
      ("update", .ofOption ExprId.toJson update), ("body", body.toJson)])
  | .ret value => .choice "Return" (.ofOption ExprId.toJson value)

def ofJson? (j : Json) : Option StmtNode := do
  match ← j.choice? with
  | ("Block", some v) => return .block (← v.list? StmtId.ofJson?)
  | ("Expression", some v) => return .expression (← ExprId.ofJson? v)
  | ("VarDecl", some v) => return .variable (← VariableDecl.ofJson? v)
  | ("If", some v) =>
    match ← v.record? ["condition", "then_branch", "else_branch"] 0 with
    | [condition, thenBranch, elseBranch] =>
      return .branch (← ExprId.ofJson? condition) (← StmtId.ofJson? thenBranch)
        (← elseBranch.optional? StmtId.ofJson?)
    | _ => none
  | ("While", some v) =>
    match ← v.record? ["condition", "body"] 0 with
    | [condition, body] =>
      return .whileLoop (← ExprId.ofJson? condition) (← StmtId.ofJson? body)
    | _ => none
  | ("For", some v) =>
    match ← v.record? ["init", "condition", "update", "body"] 0 with
    | [init, condition, update, body] =>
      return .forLoop (← init.optional? StmtId.ofJson?)
        (← condition.optional? ExprId.ofJson?) (← update.optional? ExprId.ofJson?)
        (← StmtId.ofJson? body)
    | _ => none
  | ("Return", some v) => return .ret (← v.optional? ExprId.ofJson?)
  | _ => none

end StmtNode

namespace Stmt

def toJson (s : Stmt) : Json :=
  .object [("kind", s.node.toJson), ("location", .ofOption Location.toJson s.location)]

def ofJson? (j : Json) : Option Stmt := do
  match ← j.record? ["kind", "location"] 1 with
  | [kind, location] =>
    return ⟨← StmtNode.ofJson? kind, ← location.optional? Location.ofJson?⟩
  | _ => none

end Stmt

namespace InterfaceDecl

def toJson (decl : InterfaceDecl) : Json :=
  .object [("name", .string decl.name), ("methods", .ofList .string decl.methods),
    ("location", .ofOption Location.toJson decl.location)]

def ofJson? (j : Json) : Option InterfaceDecl := do
  match ← j.record? ["name", "methods", "location"] 1 with
  | [name, methods, location] =>
    return ⟨← name.text?, ← methods.list? Json.text?, ← location.optional? Location.ofJson?⟩
  | _ => none

end InterfaceDecl

namespace FieldDecl

def toJson (field : FieldDecl) : Json :=
  .object [("name", .string field.name), ("field_type", field.type.toJson),
    ("is_public", .bool field.isPublic)]

def ofJson? (j : Json) : Option FieldDecl := do
  match ← j.record? ["name", "field_type", "is_public"] 0 with
  | [name, type, isPublic] =>
    return ⟨← name.text?, ← SourceType.ofJson? type, ← isPublic.bool?⟩
  | _ => none

end FieldDecl

namespace StructDecl

def toJson (decl : StructDecl) : Json :=
  .object [("name", .string decl.name), ("interface", .ofOption .string decl.interface),
    ("fields", .ofList FieldDecl.toJson decl.fields),
    ("location", .ofOption Location.toJson decl.location)]

def ofJson? (j : Json) : Option StructDecl := do
  match ← j.record? ["name", "interface", "fields", "location"] 1 with
  | [name, interface, fields, location] =>
    return ⟨← name.text?, ← interface.optional? Json.text?,
      ← fields.list? FieldDecl.ofJson?, ← location.optional? Location.ofJson?⟩
  | _ => none

end StructDecl

namespace Parameter

def toJson (p : Parameter) : Json :=
  .object [("name", .string p.name), ("param_type", p.type.toJson)]

def ofJson? (j : Json) : Option Parameter := do
  match ← j.record? ["name", "param_type"] 0 with
  | [name, type] => return ⟨← name.text?, ← SourceType.ofJson? type⟩
  | _ => none

end Parameter

namespace FunctionDecl

def toJson (decl : FunctionDecl StmtId) : Json :=
  .object [("name", .string decl.name), ("params", .ofList Parameter.toJson decl.params),
    ("return_type", decl.returnType.toJson), ("body", .ofOption StmtId.toJson decl.body),
    ("owner", .ofOption .string decl.owner),
    ("location", .ofOption Location.toJson decl.location)]

def ofJson? (j : Json) : Option (FunctionDecl StmtId) := do
  match ← j.record? ["name", "params", "return_type", "body", "owner", "location"] 2 with
  | [name, params, returnType, body, owner, location] =>
    return ⟨← name.text?, ← params.list? Parameter.ofJson?, ← SourceType.ofJson? returnType,
      ← body.optional? StmtId.ofJson?, ← owner.optional? Json.text?,
      ← location.optional? Location.ofJson?⟩
  | _ => none

end FunctionDecl

namespace Declaration

def toJson : Declaration ExprId StmtId → Json
  | .interface decl => .choice "Interface" decl.toJson
  | .struct decl => .choice "Struct" decl.toJson
  | .function decl => .choice "Function" decl.toJson
  | .variable decl => .choice "Variable" decl.toJson

def ofJson? (j : Json) : Option (Declaration ExprId StmtId) := do
  match ← j.choice? with
  | ("Interface", some v) => return .interface (← InterfaceDecl.ofJson? v)
  | ("Struct", some v) => return .struct (← StructDecl.ofJson? v)
  | ("Function", some v) => return .function (← FunctionDecl.ofJson? v)
  | ("Variable", some v) => return .variable (← VariableDecl.ofJson? v)
  | _ => none

end Declaration

namespace Arena

def toJson (arena : Arena) : Json :=
  .object [("exprs", .ofList Expr.toJson arena.exprs.toList),
    ("stmts", .ofList Stmt.toJson arena.stmts.toList),
    ("items", .ofList Declaration.toJson arena.items)]

def ofJson? (j : Json) : Option Arena := do
  match ← j.record? ["exprs", "stmts", "items"] 0 with
  | [exprs, stmts, items] =>
    return ⟨(← exprs.list? Expr.ofJson?).toArray, (← stmts.list? Stmt.ofJson?).toArray,
      ← items.list? Declaration.ofJson?⟩
  | _ => none

/-- The text of an arena. -/
def write (arena : Arena) : String := arena.toJson.compact

/-- The arena that a text stands for. -/
def ofText? (text : String) : Option Arena := do
  ofJson? (← Json.parse? text)

end Arena

end SsaLowering
