import SsaLowering.Source.Location

/-!
# Diagnostics and their log

A run never stops at a problem it can recover from. It records a diagnostic in the
log, which counts what it records. The counts are those of its entries at all times.
-/

namespace SsaLowering

inductive Severity where
  | error
  | warning
  | note
deriving DecidableEq, Inhabited

namespace Severity

def text : Severity → String
  | .error => "error"
  | .warning => "warning"
  | .note => "note"

def all : List Severity := [.error, .warning, .note]

/-- The name of a severity in structured data. -/
def name : Severity → String
  | .error => "Error"
  | .warning => "Warning"
  | .note => "Note"

def toJson (s : Severity) : Json := .string s.name

def ofJson? (j : Json) : Option Severity := j.named? all name

end Severity

/-- One finding, with remarks that are printed below it. -/
structure Diagnostic where
  severity : Severity
  message : String
  location : Option Location
  notes : List String
deriving DecidableEq, Inhabited

namespace Diagnostic

def error (message : String) (location : Option Location) : Diagnostic :=
  ⟨.error, message, location, []⟩

def warning (message : String) (location : Option Location) : Diagnostic :=
  ⟨.warning, message, location, []⟩

def note (message : String) (location : Option Location) : Diagnostic :=
  ⟨.note, message, location, []⟩

/-- The diagnostic with one more remark below it. -/
def withNote (d : Diagnostic) (remark : String) : Diagnostic :=
  { d with notes := d.notes ++ [remark] }

/-- The finding on one line, led by its place if that is known, and a line for every
remark. -/
def text (d : Diagnostic) : String :=
  let place := match d.location with
    | some l => l.text ++ ": "
    | none => ""
  let remarks := d.notes.map ("\n  note: " ++ ·)
  place ++ d.severity.text ++ ": " ++ d.message ++ String.join remarks

def toJson (d : Diagnostic) : Json :=
  .object [("severity", d.severity.toJson), ("message", .string d.message),
    ("location", .ofOption Location.toJson d.location), ("notes", .ofList .string d.notes)]

def ofJson? (j : Json) : Option Diagnostic := do
  match ← j.record? ["severity", "message", "location", "notes"] 0 with
  | [severity, message, location, notes] =>
    return ⟨← Severity.ofJson? severity, ← message.text?,
      ← location.optional? Location.ofJson?, ← notes.list? Json.text?⟩
  | _ => none

end Diagnostic

/-- How many of some diagnostics have a severity. -/
def Severity.countIn (s : Severity) (entries : List Diagnostic) : Nat :=
  entries.countP (·.severity == s)

theorem Severity.countIn_append (s : Severity) (entries reported : List Diagnostic) :
    s.countIn (entries ++ reported) = s.countIn entries + s.countIn reported :=
  List.countP_append

theorem Severity.countIn_concat (s : Severity) (entries : List Diagnostic) (d : Diagnostic) :
    s.countIn (entries ++ [d]) = s.countIn entries + if d.severity = s then 1 else 0 := by
  rw [countIn_append]
  by_cases h : d.severity = s <;> simp [countIn, h]

/-- The diagnostics of a run, in the order in which they were reported. Errors and warnings are
counted as they come in. -/
structure DiagnosticLog where
  entries : List Diagnostic
  errorCount : Nat
  warningCount : Nat
  errorCount_eq : errorCount = Severity.error.countIn entries
  warningCount_eq : warningCount = Severity.warning.countIn entries
deriving DecidableEq

namespace DiagnosticLog

/-- The counts are those of the entries, so the entries make the log. -/
@[ext] theorem ext {log log' : DiagnosticLog} (h : log.entries = log'.entries) : log = log' := by
  obtain ⟨entries, errors, warnings, herrors, hwarnings⟩ := log
  obtain ⟨entries', errors', warnings', herrors', hwarnings'⟩ := log'
  obtain rfl : entries = entries' := h
  obtain rfl : errors = errors' := herrors.trans herrors'.symm
  obtain rfl : warnings = warnings' := hwarnings.trans hwarnings'.symm
  rfl

/-- The log that has some entries, and the counts that belong to them. -/
def ofEntries (entries : List Diagnostic) : DiagnosticLog := ⟨entries, _, _, rfl, rfl⟩

theorem errorCount_ofEntries (entries : List Diagnostic) :
    (ofEntries entries).errorCount = Severity.error.countIn entries := rfl

def empty : DiagnosticLog := ofEntries []

instance : Inhabited DiagnosticLog := ⟨empty⟩

/-- Record a diagnostic, and count it if it is an error or a warning. -/
def report (log : DiagnosticLog) (d : Diagnostic) : DiagnosticLog where
  entries := log.entries ++ [d]
  errorCount := if d.severity = .error then log.errorCount + 1 else log.errorCount
  warningCount := if d.severity = .warning then log.warningCount + 1 else log.warningCount
  errorCount_eq := by
    rw [log.errorCount_eq, Severity.countIn_concat]
    split <;> rfl
  warningCount_eq := by
    rw [log.warningCount_eq, Severity.countIn_concat]
    split <;> rfl

@[simp] theorem entries_report (log : DiagnosticLog) (d : Diagnostic) :
    (log.report d).entries = log.entries ++ [d] := rfl

/-- The diagnostics of one severity, in order. -/
def ofSeverity (log : DiagnosticLog) (s : Severity) : List Diagnostic :=
  log.entries.filter (·.severity == s)

/-- How many diagnostics of one severity there are. -/
def count (log : DiagnosticLog) (s : Severity) : Nat := s.countIn log.entries

theorem count_error (log : DiagnosticLog) : log.count .error = log.errorCount :=
  log.errorCount_eq.symm

def hasErrors (log : DiagnosticLog) : Bool := decide (0 < log.errorCount)

/-- A number and its noun, with an `s` unless the number is one. -/
def counted (n : Nat) (noun : String) : String :=
  toString n ++ " " ++ noun ++ (if n = 1 then "" else "s")

/-- How many errors and warnings there are, in words. Notes do not count. -/
def summary (log : DiagnosticLog) : String :=
  match log.errorCount, log.warningCount with
  | 0, 0 => "No errors or warnings"
  | 0, w => counted w "warning"
  | e, 0 => counted e "error"
  | e, w => counted e "error" ++ " and " ++ counted w "warning"

end DiagnosticLog

end SsaLowering
