/-!
# Directories

A directory as the files that are known below it. A path is walked step by step: every
step but the last has to end in a directory, and a walk that leaves the directory finds
nothing there.
-/

namespace SsaLowering

/-- Why a file cannot be read or written. -/
inductive FileFault where
  | notFound
  | isDirectory
  | notDirectory
  | nameTooLong
  | denied
  | notText
deriving DecidableEq, Inhabited

def FileFault.message : FileFault → String
  | .notFound => "No such file or directory (os error 2)"
  | .isDirectory => "Is a directory (os error 21)"
  | .notDirectory => "Not a directory (os error 20)"
  | .nameTooLong => "File name too long (os error 36)"
  | .denied => "Permission denied (os error 13)"
  | .notText => "stream did not contain valid UTF-8"

/-- A path as its steps. A slash at its end says that it means a directory. -/
structure Path where
  absolute : Bool
  steps : List String
  slash : Bool
deriving DecidableEq, Inhabited

namespace Path

/-- A path has fewer bytes than this. -/
def byteBound : Nat := 4096

/-- A step has at most this many bytes. -/
def stepBytes : Nat := 255

/-- The steps between the slashes of a text. Several slashes in a row count as one. -/
def stepsOf (text : String) : List String := (text.splitOn "/").filter (· != "")

/-- The path that a text spells. -/
def ofText (text : String) : Except FileFault Path :=
  if text.isEmpty then .error .notFound
  else if byteBound ≤ text.utf8ByteSize then .error .nameTooLong
  else .ok ⟨text.startsWith "/", stepsOf text, text.endsWith "/"⟩

/-- A step to the same directory or to the one above. -/
def isDots (step : String) : Bool := step == "." || step == ".."

end Path

/-- A file: the names on the way to it, and its contents. -/
structure File where
  way : List String
  text : String
deriving DecidableEq, Inhabited

/-- The files below a directory, in the order in which they were added. -/
structure Directory where
  files : List File
deriving DecidableEq, Inhabited

/-- Where a walk has got to: a directory that is not below the known one, a directory
below it, or a file. -/
inductive Place where
  | outside
  | directory (way : List String)
  | file (file : File)
deriving DecidableEq, Inhabited

namespace Directory

/-- The directory whose files have the given paths and contents. -/
def ofFiles (files : List (String × String)) : Directory :=
  ⟨files.map fun (path, text) => ⟨Path.stepsOf path, text⟩⟩

/-- The file or directory at the end of a way. -/
def find? (d : Directory) (way : List String) : Option Place :=
  match d.files.find? (·.way == way) with
  | some file => some (.file file)
  | none => if d.files.any (way.isPrefixOf ·.way) then some (.directory way) else none

/-- The place one step after another one. -/
def step (d : Directory) (place : Place) (name : String) : Except FileFault Place :=
  match place with
  | .file _ => .error .notDirectory
  | .outside =>
    if Path.isDots name then .ok .outside
    else if Path.stepBytes < name.utf8ByteSize then .error .nameTooLong
    else .error .notFound
  | .directory way =>
    if name == "." then .ok (.directory way)
    else if name == ".." then .ok (if way.isEmpty then .outside else .directory way.dropLast)
    else if Path.stepBytes < name.utf8ByteSize then .error .nameTooLong
    else match d.find? (way ++ [name]) with
      | some next => .ok next
      | none => .error .notFound

/-- The place at the end of some steps. -/
def walk (d : Directory) (absolute : Bool) (steps : List String) : Except FileFault Place :=
  steps.foldlM d.step (if absolute then .outside else .directory [])

/-- What the file at a path reads as. -/
def read (d : Directory) (path : String) : Except FileFault String := do
  let p ← Path.ofText path
  match ← d.walk p.absolute p.steps with
  | .file file => if p.slash then .error .notDirectory else .ok file.text
  | .outside | .directory _ => .error .isDirectory

/-- The directory in which the file at the end of a way has new contents. -/
def put (d : Directory) (file : File) : Directory :=
  if d.files.any (·.way == file.way) then
    ⟨d.files.map fun old => if old.way = file.way then file else old⟩
  else ⟨d.files ++ [file]⟩

/-- Write the file with a name in a place. One that is written outside is not among the
known files. -/
def writeIn (d : Directory) (place : Place) (name text : String) :
    Except FileFault Directory :=
  match place, d.step place name with
  | _, .ok (.file old) => .ok (d.put { old with text })
  | _, .ok _ => .error .isDirectory
  | .directory way, .error .notFound => .ok (d.put ⟨way ++ [name], text⟩)
  | .outside, .error .notFound => .ok d
  | _, .error fault => .error fault

/-- Write the file at a path. Its last step names the file, in the place at the end of the
steps before it. -/
def write (d : Directory) (path text : String) : Except FileFault Directory := do
  let p ← Path.ofText path
  match p.steps.getLast? with
  | none => .error .isDirectory
  | some last =>
    match ← d.walk p.absolute p.steps.dropLast with
    | .file _ => .error .notDirectory
    | place => if p.slash then .error .isDirectory else d.writeIn place last text

end Directory

end SsaLowering
