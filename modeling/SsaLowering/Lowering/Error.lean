import SsaLowering.Code.Verification
import SsaLowering.Source.Diagnostic
import SsaLowering.Source.Failure
import SsaLowering.Source.SourceType

/-!
# Errors and warnings of the lowering

An error is a cause, and the place of the node that failed once that is known. The
message comes from the cause alone.
-/

namespace SsaLowering

/-- What can be declared once. -/
inductive Entity where
  | interface
  | struct
  | global
  | function
deriving DecidableEq, Inhabited

def Entity.text : Entity → String
  | .interface => "interface"
  | .struct => "struct"
  | .global => "global"
  | .function => "function"

/-- Why a statement or a declaration cannot be lowered. -/
inductive Cause where
  | undefinedVariable (name : String)
  | undefinedFunction (name : String)
  | unknownStruct (name : String)
  | unknownField (struct field : String)
  | privateField (struct field : String)
  | typeMismatch (message : String)
  | invalidOperands (op lhs rhs : String)
  | argumentCount (callee : String) (expected found : Nat)
  | unsupportedCast (source target : String)
  | immutableAssignment (name : String)
  | invalidTarget (message : String)
  | malformedLiteral (numeral : String)
  | cannotInfer (name : String)
  | invalidReturn (message : String)
  | redefinition (entity : Entity) (name : String)
  | nonConstantInitializer (name : String)
  | verification (function : String) (fault : ShapeFault)
  /-- An assumption of the lowering itself does not hold. -/
  | internal (message : String)
deriving DecidableEq, Inhabited

def Cause.message : Cause → String
  | .undefinedVariable name => "Undefined variable '" ++ name ++ "'"
  | .undefinedFunction name => "Undefined function '" ++ name ++ "'"
  | .unknownStruct name => "Unknown struct '" ++ name ++ "'"
  | .unknownField struct field => "Struct '" ++ struct ++ "' has no field '" ++ field ++ "'"
  | .privateField struct field =>
    "Field '" ++ field ++ "' of struct '" ++ struct ++ "' is private"
  | .typeMismatch message => "Type mismatch: " ++ message
  | .invalidOperands op lhs rhs =>
    "Invalid operands to '" ++ op ++ "': " ++ lhs ++ " and " ++ rhs
  | .argumentCount callee expected found =>
    "Function '" ++ callee ++ "' expects " ++ toString expected ++ " argument(s), got "
      ++ toString found
  | .unsupportedCast source target => "Unsupported cast from " ++ source ++ " to " ++ target
  | .immutableAssignment name => "Cannot assign to immutable variable '" ++ name ++ "'"
  | .invalidTarget message => "Invalid assignment target: " ++ message
  | .malformedLiteral numeral => "Malformed numeric literal '" ++ numeral ++ "'"
  | .cannotInfer name => "Cannot infer the type of '" ++ name ++ "' without an initializer"
  | .invalidReturn message => "Invalid return: " ++ message
  | .redefinition entity name => "Redefinition of " ++ entity.text ++ " '" ++ name ++ "'"
  | .nonConstantInitializer name =>
    "Initializer of global '" ++ name ++ "' is not a constant"
  | .verification function fault => "Verification failed: " ++ fault.message function
  | .internal message => "Internal error: " ++ message

/-- A cause and the place of the node that failed. -/
structure LoweringError where
  cause : Cause
  location : Option Location
deriving DecidableEq, Inhabited

namespace LoweringError

/-- An error whose place is not known yet. -/
def unplaced (cause : Cause) : LoweringError := ⟨cause, none⟩

/-- Place an error, unless it already has a place. -/
def orAt (e : LoweringError) (location : Option Location) : LoweringError :=
  match e.location with
  | none => ⟨e.cause, location⟩
  | some _ => e

def toDiagnostic (e : LoweringError) : Diagnostic := .error e.cause.message e.location

/-- The failure of a run that ends with this error. -/
def toFailure (e : LoweringError) : Failure :=
  match e.cause with
  | .internal message => .internal message
  | cause => .lowering e.location cause.message

end LoweringError

/-- A finding that does not keep the code from being made. -/
inductive Warning where
  | undeclaredInterface (struct interface : String)
  | unknownFieldType (type : SourceType) (field struct : String)
  | unknownType (type : SourceType)
  | unknownVariableType (type : SourceType) (name : String)
  | unknownGlobalType (type : SourceType) (name : String)
  | unknownReturnType (type : SourceType) (function : String)
  | unknownParameterType (type : SourceType) (parameter function : String)
  | unusedVariable (name : String)
deriving DecidableEq, Inhabited

namespace Warning

/-- An unknown type and its use. Such a type is taken for a byte. -/
def unknown (type : SourceType) (use : String) : String :=
  "unknown type '" ++ type.text ++ "'" ++ use ++ "; using i8"

def message : Warning → String
  | .undeclaredInterface struct interface =>
    "struct '" ++ struct ++ "' implements undeclared interface '" ++ interface ++ "'"
  | .unknownFieldType type field struct =>
    unknown type (" for field '" ++ field ++ "' of struct '" ++ struct ++ "'")
  | .unknownType type => unknown type ""
  | .unknownVariableType type name => unknown type (" for variable '" ++ name ++ "'")
  | .unknownGlobalType type name => unknown type (" for global '" ++ name ++ "'")
  | .unknownReturnType type function =>
    unknown type (" for return type of '" ++ function ++ "'")
  | .unknownParameterType type parameter function =>
    unknown type (" for parameter '" ++ parameter ++ "' of '" ++ function ++ "'")
  | .unusedVariable name => "unused variable '" ++ name ++ "'"

/-- What is said below a warning. -/
def remarks : Warning → List String
  | .unusedVariable _ => ["prefix it with '_' to silence"]
  | _ => []

def toDiagnostic (w : Warning) (location : Option Location) : Diagnostic :=
  ⟨.warning, w.message, location, w.remarks⟩

end Warning

end SsaLowering
