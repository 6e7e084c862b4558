import SsaLowering.Lowering.Function
import SsaLowering.Program.Expansion

/-!
# Whole units

A unit is lowered in passes over its declarations: interfaces, structs, global variables,
the signatures of all functions, and at last their bodies. Every declaration is tried,
and what fails is reported.
-/

namespace SsaLowering

namespace LoweringOptions

def standard : LoweringOptions := ⟨"main", true⟩

end LoweringOptions

namespace UnitState

/-- The functions that every unit can call without declaring them. The names that begin
with `j` are other names for the same functions. -/
def predeclared : List (String × Signature) :=
  let print := Signature.ofSource .empty [.pointerTo "char"] (.named "int32") true none
  let alloc := Signature.ofSource .empty [.named "i64"] (.pointerTo "void") false none
  let free := Signature.ofSource .empty [.pointerTo "void"] (.named "void") false none
  [("printf", print), ("jout", print), ("malloc", alloc), ("jalloc", alloc),
    ("free", free), ("jfree", free)]

/-- A unit in which only the predeclared functions are known. -/
def initial (moduleName : String) (log : DiagnosticLog) : UnitState where
  code := predeclared.foldl (fun m (name, s) => m.addFunction (s.declaration name none))
    (.empty moduleName)
  structs := .empty
  functions := predeclared
  globals := []
  log

/-- Report an error. -/
def reportError (s : UnitState) (e : LoweringError) : UnitState :=
  { s with log := s.log.report e.toDiagnostic }

/-- Declare an interface. -/
def addInterface (s : UnitState) (decl : InterfaceDecl) : UnitState :=
  match s.structs.declareInterface decl with
  | .ok structs => { s with structs }
  | .error e => s.reportError e

/-- Declare a struct and name its type in the module. -/
def addStruct (s : UnitState) (decl : StructDecl) : UnitState :=
  match s.structs.define decl s.log with
  | (.ok (layout, structs), log) =>
    { s with structs, log, code := s.code.addType layout.name layout.type }
  | (.error e, log) => { s with log }.reportError e

/-- Declare a global variable. An error without a place gets that of the declaration. -/
def addGlobal (s : UnitState) (decl : VariableDecl Term) : UnitState :=
  match (Declare.globalVariable decl).run.run s with
  | (.ok (), s) => s
  | (.error e, s) => s.reportError (e.orAt decl.location)

/-- Declare a function, after the functions of the program declared before it. -/
def addFunction (acc : UnitState × List DeclaredFunction) (decl : FunctionDecl Statement) :
    UnitState × List DeclaredFunction :=
  let (s, declared) := acc
  match (Declare.function (declared.map (·.decl.name)) decl).run.run s with
  | (.ok d, s) => (s, declared ++ [d])
  | (.error e, s) => (s.reportError e, declared)

/-- Lower the body of a function, if it has one. -/
def addBodyOf (options : LoweringOptions) (s : UnitState) (d : DeclaredFunction) : UnitState :=
  match d.decl.body with
  | some body => s.addBody options d body
  | none => s

end UnitState

namespace Program

def interfaces (p : Program) : List InterfaceDecl :=
  p.items.filterMap fun | .interface decl => some decl | _ => none

def structs (p : Program) : List StructDecl :=
  p.items.filterMap fun | .struct decl => some decl | _ => none

def globals (p : Program) : List (VariableDecl Term) :=
  p.items.filterMap fun | .variable decl => some decl | _ => none

def functions (p : Program) : List (FunctionDecl Statement) :=
  p.items.filterMap fun | .function decl => some decl | _ => none

/-- The unit after all its declarations, and the functions of the program. -/
def declare (p : Program) (moduleName : String) (log : DiagnosticLog) :
    UnitState × List DeclaredFunction :=
  let s := UnitState.initial moduleName log
  let s := p.interfaces.foldl UnitState.addInterface s
  let s := p.structs.foldl UnitState.addStruct s
  let s := p.globals.foldl UnitState.addGlobal s
  p.functions.foldl UnitState.addFunction (s, [])

/-- The module of a program. There always is one; the log says what it lacks. -/
def generate (options : LoweringOptions) (p : Program) (log : DiagnosticLog) :
    CodeModule × DiagnosticLog :=
  let (s, declared) := p.declare options.moduleName log
  let s := declared.foldl (UnitState.addBodyOf options) s
  (s.code, s.log)

end Program

namespace Arena

/-- The module of a unit, provided that no error is reported while it is lowered. Errors
that are in the log already do not count. -/
def lower (options : LoweringOptions) (arena : Arena) (log : DiagnosticLog) :
    Except Failure CodeModule × DiagnosticLog :=
  match arena.expand with
  | .error fault => (.error (.input fault.message), log)
  | .ok program =>
    let (code, after) := program.generate options log
    let errors := after.errorCount - log.errorCount
    if errors = 0 then (.ok code, after) else (.error (.rejected errors), after)

end Arena

end SsaLowering
