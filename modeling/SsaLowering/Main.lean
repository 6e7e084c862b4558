import SsaLowering.Command

/-!
# The program

The outer layer of the command: it reads and writes files and prints. What it reads,
writes and prints is decided by `Command.run`.
-/

namespace SsaLowering

/-- What kept a file from being read or written. -/
def FileFault.ofError : IO.Error → FileFault
  | .noFileOrDirectory .. => .notFound
  | .inappropriateType _ code _ => if code = 21 then .isDirectory else .notDirectory
  | .invalidArgument .. => .nameTooLong
  | .permissionDenied .. => .denied
  | _ => .notText

/-- What a file reads as. -/
def contentsOf (path : String) : IO (Except FileFault String) := do
  try
    return .ok (← IO.FS.readFile path)
  catch e => return .error (.ofError e)

/-- Write the file of an outcome, if it has one. -/
def Outcome.write (outcome : Outcome) : IO Outcome := do
  match outcome.file with
  | none => return outcome
  | some (path, text) =>
    try
      IO.FS.writeFile path text
      return outcome
    catch e => return outcome.unwritten (.ofError e)

end SsaLowering

open SsaLowering

/-- Carry out the command that the arguments spell, and print its result. -/
def main (args : List String) : IO UInt32 := do
  match Command.ofArguments? args with
  | none =>
    IO.eprintln Command.usage
    return 2
  | some command =>
    let outcome ← (command.run (← contentsOf command.input)).write
    IO.eprint outcome.stderr
    IO.print outcome.stdout
    return UInt32.ofNat outcome.code
