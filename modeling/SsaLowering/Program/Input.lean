import SsaLowering.Arena.Format
import SsaLowering.Program.Expansion
import SsaLowering.Source.Failure

/-!
# Reading units

A text is accepted if it has the form of an arena whose handles can all be followed.
-/

namespace SsaLowering

namespace Arena

/-- The arena that a text stands for, or why there is none. -/
def parse (text : String) : Except Failure Arena :=
  match ofText? text with
  | none => .error (.input "malformed AST")
  | some arena =>
    match arena.validate with
    | .ok () => .ok arena
    | .error fault => .error (.input fault.message)

end Arena

end SsaLowering
