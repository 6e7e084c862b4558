import SsaLowering.Directory
import SsaLowering.Lowering.Unit
import SsaLowering.Program.Input

/-!
# The command

The command line names a file and says what to do with it. A run is a function of the
arguments and of what the file reads as; its result says what to print and what to write.
A run in a directory also carries out the reading and the writing there.
-/

namespace SsaLowering

/-- The form in which a module is written. -/
inductive Emit where
  | code
  | data
deriving DecidableEq, Inhabited

/-- What the command line asks for. -/
inductive Command where
  /-- Lower a file and write the module to a file or to the standard output. -/
  | lower (input : String) (output : Option String) (emit : Emit)
      (moduleName : Option String) (warnUnused : Bool)
  /-- Lower a file and report only the diagnostics. -/
  | check (input : String)
deriving DecidableEq, Inhabited

/-- What a run prints and writes. -/
structure Outcome where
  code : Nat
  stdout : String
  stderr : String
  file : Option (String × String)
deriving DecidableEq, Inhabited

/-- The result of a run whose file could not be written. -/
def Outcome.unwritten (outcome : Outcome) (fault : FileFault) : Outcome :=
  { outcome with
    code := 1
    stderr := outcome.stderr ++ "error: " ++ fault.message ++ "\n"
    file := none }

namespace Command

/-- The arguments read so far. -/
structure Arguments where
  mode : Option String
  input : Option String
  output : Option String
  emit : Option Emit
  moduleName : Option String
  quiet : Bool
deriving Inhabited

/-- The value of an option that may be given once. -/
def once {α : Type} (old : Option α) (value : α) : Option (Option α) :=
  if old.isNone then some (some value) else none

/-- A path names something, so it is not empty. -/
def path? (value : String) : Option String :=
  if value.isEmpty then none else some value

def emit? : String → Option Emit
  | "ir" => some .code
  | "json" => some .data
  | _ => none

/-- Take an argument that is not an option: first the mode, then the file. -/
def Arguments.positional (a : Arguments) (value : String) : Option Arguments :=
  match a.mode with
  | none => if value = "lower" ∨ value = "check" then some { a with mode := some value } else none
  | some _ => do return { a with input := ← once a.input (← path? value) }

/-- Take an option with its value. Options with a value belong to the first mode. -/
def Arguments.option (a : Arguments) (name value : String) : Option Arguments := do
  if a.mode = some "lower" then
    match name with
    | "output" => return { a with output := ← once a.output (← path? value) }
    | "emit" => return { a with emit := ← once a.emit (← emit? value) }
    | "module-name" => return { a with moduleName := ← once a.moduleName value }
    | _ => none
  else none

/-- Whether an argument can be the value of an option before it. -/
def isValue (arg : String) : Bool := !arg.startsWith "-" || arg == "-"

/-- Take a group of options of one letter. The value of the last one may follow it
directly, or be the next argument. -/
def Arguments.letters (a : Arguments) : List Char → List String →
    Option (Arguments × List String)
  | [], rest => some (a, rest)
  | 'v' :: more, rest => a.letters more rest
  | 'o' :: [], value :: rest => do
    if isValue value then return (← a.option "output" value, rest) else none
  | 'o' :: '=' :: more, rest => do
    return (← a.option "output" (String.ofList more), rest)
  | 'o' :: more, rest => do
    if more.isEmpty then none
    return (← a.option "output" (String.ofList more), rest)
  | _, _ => none

/-- Take a long option. Its value follows an equals sign, or is the next argument. -/
def Arguments.long (a : Arguments) (name : List Char) (rest : List String) :
    Option (Arguments × List String) :=
  let key := String.ofList (name.takeWhile (· != '='))
  match name.dropWhile (· != '='), rest with
  | [], rest =>
    match key, rest with
    | "verbose", rest => some (a, rest)
    | "no-unused-warnings", rest =>
      if a.mode = some "lower" ∧ !a.quiet then some ({ a with quiet := true }, rest) else none
    | key, value :: rest =>
      if isValue value then (a.option key value).map (·, rest) else none
    | _, [] => none
  | _ :: value, rest => (a.option key (String.ofList value)).map (·, rest)

/-- Read all arguments. After two hyphens every argument is positional, and the mode has to
stand before them. Every step takes at least one, so their number bounds the steps. -/
def Arguments.read (a : Arguments) : Nat → List String → Option Arguments
  | _, [] => some a
  | 0, _ => none
  | fuel + 1, arg :: rest => do
    match arg.toList with
    | ['-', '-'] => if a.mode.isSome then rest.foldlM Arguments.positional a else none
    | '-' :: '-' :: name =>
      let (a, rest) ← a.long name rest
      a.read fuel rest
    | '-' :: c :: more =>
      let (a, rest) ← a.letters (c :: more) rest
      a.read fuel rest
    | _ => (← a.positional arg).read fuel rest

/-- The command that arguments spell, if they spell one. -/
def ofArguments? (args : List String) : Option Command := do
  let a ← (default : Arguments).read args.length args
  let input ← a.input
  match a.mode with
  | some "lower" => return .lower input a.output (a.emit.getD .code) a.moduleName (!a.quiet)
  | some "check" => return .check input
  | _ => none

/-- What the command line may look like. -/
def usage : String :=
  "usage: lower INPUT [-o OUTPUT] [--emit ir|json] [--module-name NAME] [--no-unused-warnings]"
    ++ " | check INPUT"

/-- The last part of a path that names something. -/
def fileName? (path : String) : Option String :=
  match (((path.splitOn "/").filter fun part => part != "" && part != ".").getLast?) with
  | some ".." => none
  | other => other

/-- A file name without its last extension. A point at the start of a name does not begin
an extension. -/
def stem (name : String) : String :=
  match (name.splitOn ".").reverse with
  | _ :: rest =>
    let before := ".".intercalate rest.reverse
    if before.isEmpty then name else before
  | [] => name

/-- The name of a module that is not named on the command line. -/
def moduleNameFor (input : String) : String :=
  match fileName? input with
  | some name => stem name
  | none => "main"

/-- A run that failed, after printing some lines. -/
def failed (printed : String) (message : String) : Outcome :=
  ⟨1, "", printed ++ "error: " ++ message ++ "\n", none⟩

/-- The lines that a run prints about its diagnostics: each one, and the summary. -/
def logText (log : DiagnosticLog) : String :=
  if log.entries.isEmpty then ""
  else String.join (log.entries.map fun d => d.text ++ "\n") ++ log.summary ++ "\n"

/-- Lower the contents of a file, and go on with the module and what was printed. -/
def lowerText (options : LoweringOptions) (contents : Except FileFault String)
    (next : CodeModule → String → Outcome) : Outcome :=
  match contents with
  | .error fault => failed "" (Failure.file fault.message).text
  | .ok text =>
    match Arena.parse text with
    | .error e => failed "" e.text
    | .ok arena =>
      let (result, log) := arena.lower options .empty
      match result with
      | .error e => failed (logText log) e.text
      | .ok code => next code (logText log)

/-- The text of a module in the given form. -/
def Emit.text (emit : Emit) (code : CodeModule) : String :=
  match emit with
  | .code => code.text
  | .data => (code.toJson Binary64.toNumeral).indented

/-- The file that a command reads. -/
def input : Command → String
  | .lower input .. | .check input => input

/-- The result of a command for the contents of its file. -/
def run (command : Command) (contents : Except FileFault String) : Outcome :=
  match command with
  | .lower input output emit moduleName warnUnused =>
    lowerText ⟨moduleName.getD (moduleNameFor input), warnUnused⟩ contents fun code printed =>
      match output with
      | some path => ⟨0, "", printed, some (path, Emit.text emit code)⟩
      | none => ⟨0, Emit.text emit code, printed, none⟩
  | .check input =>
    lowerText ⟨moduleNameFor input, true⟩ contents fun _ printed => ⟨0, "", printed, none⟩

/-- The result of a command in a directory, and the directory after it. -/
def runIn (command : Command) (d : Directory) : Outcome × Directory :=
  let outcome := command.run (d.read command.input)
  match outcome.file with
  | none => (outcome, d)
  | some (path, text) =>
    match d.write path text with
    | .ok d => (outcome, d)
    | .error fault => (outcome.unwritten fault, d)

end Command

end SsaLowering
