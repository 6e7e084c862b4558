import SsaLowering.Json.Record

/-!
# Places in source files
-/

namespace SsaLowering

/-- A place in a source file; lines and columns count from one. -/
structure Location where
  file : String
  line : UInt32
  column : UInt32
deriving DecidableEq, Inhabited

namespace Location

/-- A place in a source that has no file name. -/
def unnamed (line column : UInt32) : Location := ⟨"<input>", line, column⟩

def text (l : Location) : String :=
  l.file ++ ":" ++ toString l.line.toNat ++ ":" ++ toString l.column.toNat

def toJson (l : Location) : Json :=
  .object [("filename", .string l.file), ("line", .ofNat l.line.toNat),
    ("column", .ofNat l.column.toNat)]

def ofJson? (j : Json) : Option Location := do
  match ← j.record? ["filename", "line", "column"] 0 with
  | [file, line, column] =>
    return ⟨← file.text?, UInt32.ofNat (← line.word?), UInt32.ofNat (← column.word?)⟩
  | _ => none

end Location

end SsaLowering
