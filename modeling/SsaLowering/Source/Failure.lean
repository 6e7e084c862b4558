import SsaLowering.Source.Location

/-!
# Why a whole run gives up
-/

namespace SsaLowering

/-- The reasons for which a run has no result. -/
inductive Failure where
  /-- One declaration or statement could not be lowered. -/
  | lowering (location : Option Location) (message : String)
  /-- The input is not a valid tree. -/
  | input (message : String)
  /-- Errors were reported while the input was lowered. -/
  | rejected (errors : Nat)
  /-- A file could not be read or written. -/
  | file (message : String)
  /-- An assumption of the lowering itself does not hold. -/
  | internal (message : String)
deriving DecidableEq, Inhabited

namespace Failure

def text : Failure → String
  | .lowering none message => "Code generation error: " ++ message
  | .lowering (some l) message => "Code generation error at " ++ l.text ++ ": " ++ message
  | .input message => "Invalid input: " ++ message
  | .rejected errors => "Lowering failed with " ++ toString errors ++ " error(s)"
  | .file message => "IO error: " ++ message
  | .internal message => "Internal compiler error: " ++ message

end Failure

end SsaLowering
