import SsaLowering.Lowering.Global
import SsaLowering.Lowering.Statement

/-!
# Functions

A function is declared before any body is lowered, so that bodies can call each other.
Its body is lowered with a builder and a scope of its own. A body that does not pass the
check leaves only the declaration.
-/

namespace SsaLowering

/-- What can be chosen for a run. -/
structure LoweringOptions where
  moduleName : String
  /-- Whether to warn about variables that are never read. -/
  warnUnused : Bool
deriving DecidableEq, Inhabited

/-- A function of the program after its declaration. -/
structure DeclaredFunction where
  decl : FunctionDecl Statement
  signature : Signature

namespace DeclaredFunction

/-- The function without its body. -/
def declaration (d : DeclaredFunction) : FunctionDef :=
  d.signature.declaration d.decl.name d.decl.location

/-- Bind the parameters to the first temporaries. They count as used. -/
def parameterScope (d : DeclaredFunction) : Scope :=
  (d.decl.params.zip d.signature.paramTypes).zipIdx.foldl
    (fun scope ((param, type), index) => scope.declare param.name
      ⟨.direct (.temp index), param.type, type, false, true, d.decl.location⟩)
    .empty

end DeclaredFunction

namespace FunctionDef

/-- End a block that was left open, if it can be: the last one of a function without a
result returns, and one to which nothing leads is never reached. -/
def closeBlock (f : FunctionDef) (index : Nat) (b : Block) : Block :=
  if b.isTerminated then b
  else if f.returnType = .void ∧ index + 1 = f.blocks.length then b.push (.ret none)
  else if index ≠ 0 ∧ (f.predecessors b.label).isEmpty then b.push .unreachable
  else b

/-- End all blocks that were left open and can be ended. -/
def finalize (f : FunctionDef) : FunctionDef :=
  { f with blocks := f.blocks.mapIdx f.closeBlock }

end FunctionDef

namespace Lower

/-- The body of a function, in an entry block of its own. -/
def functionBody (env : Environment) (context : FunctionContext) (body : Statement) :
    Lower Unit := do
  let _ ← build (Build.appendBlock "entry")
  match body with
  | .block _ statements => lowerBlock env context statements
  | statement => recovering (lowerStatement env context statement)

end Lower

namespace Declare

/-- Warn about a type that stands for nothing. Void is known here. -/
def checkKnown (type : SourceType) (w : Warning) (location : Option Location) :
    Declare Unit := do
  unless type.isVoid || (← get).structs.isKnown type do
    warn w location

/-- Declare a function of the program, given the names of those declared before it. It
takes the place of a predeclared function of the same name. -/
def function (declared : List String) (decl : FunctionDecl Statement) :
    Declare DeclaredFunction := do
  if declared.contains decl.name then
    throw ⟨.redefinition .function decl.name, decl.location⟩
  checkKnown decl.returnType (.unknownReturnType decl.returnType decl.name) decl.location
  decl.params.forM fun param =>
    checkKnown param.type (.unknownParameterType param.type param.name decl.name) decl.location
  let signature := Signature.ofSource (← get).structs (decl.params.map (·.type))
    decl.returnType false decl.owner
  let d : DeclaredFunction := ⟨decl, signature⟩
  modify fun s => { s with
    code := s.code.replaceFunction d.declaration
    functions := (decl.name, signature) :: s.functions }
  return d

end Declare

namespace UnitState

/-- The environment of the body of a function. -/
def environment (s : UnitState) (d : DeclaredFunction) : Environment :=
  ⟨s.structs, s.functions, s.globals, d.decl.owner⟩

/-- Warn about the variables of a function that were never read. -/
def warnUnused (scope : Scope) (log : DiagnosticLog) : DiagnosticLog :=
  scope.unused.foldl
    (fun log (name, b) => log.report ((Warning.unusedVariable name).toDiagnostic b.location)) log

/-- The state after the body of a function was lowered: the finished code of the function
and what the lowering changed. -/
def lowerBody (s : UnitState) (d : DeclaredFunction) (body : Statement) : BodyState :=
  let context : FunctionContext := ⟨d.decl.name, d.signature.source, d.signature.returnType⟩
  let start : BodyState :=
    ⟨.start d.declaration, s.code.globals, d.parameterScope, s.log⟩
  ((Lower.recovering (Lower.functionBody (s.environment d) context body)).run.run start).2

/-- Lower the body of a declared function. It replaces the declaration if it passes the
check. -/
def addBody (options : LoweringOptions) (s : UnitState) (d : DeclaredFunction)
    (body : Statement) : UnitState :=
  let final := s.lowerBody d body
  let log := if options.warnUnused then warnUnused final.scope final.log else final.log
  let s := { s with code := { s.code with globals := final.globals }, log }
  match final.builder.function with
  | none =>
    let e := LoweringError.unplaced (.internal ("lost track of function '" ++ d.decl.name ++ "'"))
    { s with log := log.report e.toDiagnostic }
  | some f =>
    let f := f.finalize
    match f.fault? with
    | none => { s with code := s.code.replaceFunction f }
    | some fault =>
      let e : LoweringError := ⟨.verification f.name fault, d.decl.location⟩
      { s with log := log.report e.toDiagnostic }

end UnitState

end SsaLowering
