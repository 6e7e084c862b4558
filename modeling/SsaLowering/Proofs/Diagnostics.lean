import SsaLowering.Lowering.Error
import SsaLowering.Proofs.Steady

/-!
# What is reported

A log only grows, and what it grows by can be of one kind: warnings, or findings about the
program. An internal error is no such finding, but it may be one of a few faults of the lowering
that are known. It can be told from its message.
-/

namespace SsaLowering

/-- An assumption of the lowering itself does not hold. -/
def LoweringError.IsInternal (e : LoweringError) : Prop := ∃ message, e.cause = .internal message

/-- An internal error was reported. -/
def Diagnostic.IsInternal (d : Diagnostic) : Prop :=
  ∃ e : LoweringError, e.IsInternal ∧ e.toDiagnostic = d

/-- If an assumption of the lowering itself does not hold, it is one of the given faults. -/
def LoweringError.Within (faults : String → Prop) (e : LoweringError) : Prop :=
  ∀ message, e.cause = .internal message → faults message

/-- If an internal error was reported, it is one of the given faults. -/
def Diagnostic.Within (faults : String → Prop) (d : Diagnostic) : Prop :=
  ∀ e : LoweringError, e.toDiagnostic = d → e.Within faults

/-- Texts that start differently are different. -/
theorem append_ne_append {first second : String} (rest rest' : String)
    (hfirst : 3 ≤ first.toList.length) (hsecond : 3 ≤ second.toList.length)
    (h : first.toList.take 3 ≠ second.toList.take 3) : first ++ rest ≠ second ++ rest' := by
  intro heq
  have htake := congrArg (fun message => message.toList.take 3) heq
  simp only [String.toList_append] at htake
  rw [List.take_append_of_le_length hfirst, List.take_append_of_le_length hsecond] at htake
  exact h htake

/-- No other message starts like that of an internal error. -/
theorem Cause.eq_internal_of_message {cause : Cause} {rest : String}
    (h : cause.message = "Internal error: " ++ rest) : cause = .internal rest := by
  cases cause with
  | internal message => exact congrArg internal (String.append_right_inj _ |>.mp h)
  | _ =>
    unfold Cause.message at h
    simp -failIfUnchanged only [String.append_assoc] at h
    exact absurd h (append_ne_append _ _ (by decide) (by decide) (by decide))

namespace LoweringError

variable {e : LoweringError} {location : Option Location} {cause : Cause}

@[simp] theorem cause_orAt (e : LoweringError) (location : Option Location) :
    (e.orAt location).cause = e.cause := by
  obtain ⟨cause, _ | _⟩ := e <;> rfl

@[simp] theorem isInternal_orAt : (e.orAt location).IsInternal ↔ e.IsInternal := by
  simp [IsInternal]

@[simp] theorem within_orAt {faults : String → Prop} :
    (e.orAt location).Within faults ↔ e.Within faults := by
  simp [Within]

theorem Within.of_not_isInternal {faults : String → Prop} (h : ¬ e.IsInternal) :
    e.Within faults := fun message hcause => absurd ⟨message, hcause⟩ h

/-- A diagnostic shows which assumption does not hold. -/
theorem cause_eq_of_toDiagnostic {e' : LoweringError} {message : String}
    (h : e'.toDiagnostic = e.toDiagnostic) (hcause : e'.cause = .internal message) :
    e.cause = .internal message := by
  have hmessage : e'.cause.message = e.cause.message := congrArg Diagnostic.message h
  rw [hcause] at hmessage
  exact Cause.eq_internal_of_message hmessage.symm

@[simp] theorem isInternal_toDiagnostic : e.toDiagnostic.IsInternal ↔ e.IsInternal :=
  ⟨fun ⟨_, ⟨message, hcause⟩, heq⟩ => ⟨message, cause_eq_of_toDiagnostic heq hcause⟩,
    fun h => ⟨e, h, rfl⟩⟩

@[simp] theorem within_toDiagnostic {faults : String → Prop} :
    e.toDiagnostic.Within faults ↔ e.Within faults :=
  ⟨fun h => h e rfl,
    fun h _ heq message hcause => h message (cause_eq_of_toDiagnostic heq hcause)⟩

end LoweringError

/-- A numeral that stands for no number is a fault of the program. -/
theorem not_isInternal_of_lowerNumeral {numeral : String} {e : LoweringError}
    (h : lowerNumeral numeral = .error e) : ¬ e.IsInternal := by
  unfold lowerNumeral at h
  rintro ⟨message, hmessage⟩
  split at h <;> split at h <;> cases h <;> cases hmessage

/-- Warnings are no errors. -/
theorem Diagnostic.not_isInternal_of_warning {d : Diagnostic} (h : d.severity = .warning) :
    ¬ d.IsInternal := by
  rintro ⟨e, -, rfl⟩
  cases h

namespace DiagnosticLog

variable {kind kind' : Diagnostic → Prop} {log log' log'' : DiagnosticLog} {d : Diagnostic}

/-- The log goes on with diagnostics of one kind. -/
def Extends (kind : Diagnostic → Prop) (log log' : DiagnosticLog) : Prop :=
  ∃ reported, log'.entries = log.entries ++ reported ∧ ∀ d ∈ reported, kind d

theorem Extends.refl (log : DiagnosticLog) : log.Extends kind log := ⟨[], by simp, by simp⟩

theorem Extends.of_eq (h : log' = log) : log.Extends kind log' := h ▸ refl log'

theorem Extends.trans (h : log.Extends kind log') (h' : log'.Extends kind log'') :
    log.Extends kind log'' := by
  obtain ⟨first, hfirst, hkind⟩ := h
  obtain ⟨second, hsecond, hkind'⟩ := h'
  refine ⟨first ++ second, by rw [hsecond, hfirst, List.append_assoc], fun d hd => ?_⟩
  exact (List.mem_append.mp hd).elim (hkind d) (hkind' d)

theorem Extends.mono (h : log.Extends kind log') (hkind : ∀ d, kind d → kind' d) :
    log.Extends kind' log' := by
  obtain ⟨reported, heq, hall⟩ := h
  exact ⟨reported, heq, fun d hd => hkind d (hall d hd)⟩

/-- Whatever is reported one after the other. -/
theorem Extends.foldl {α : Type} {report : DiagnosticLog → α → DiagnosticLog} {entries : List α}
    (h : ∀ (log : DiagnosticLog) a, log.Extends kind (report log a)) :
    log.Extends kind (entries.foldl report log) :=
  List.foldlRecOn (motive := log.Extends kind) entries report (.refl log)
    fun log' hlog a _ => hlog.trans (h log' a)

theorem extends_report (log : DiagnosticLog) (h : kind d) : log.Extends kind (log.report d) :=
  ⟨[d], rfl, by simpa using h⟩

/-- Whatever is reported, no errors are forgotten. -/
theorem Extends.count_le (h : log.Extends kind log') (severity : Severity) :
    log.count severity ≤ log'.count severity := by
  obtain ⟨reported, heq, -⟩ := h
  simp [count, heq, Severity.countIn_append]

/-- The log goes on with warnings only. -/
abbrev Warned (log log' : DiagnosticLog) : Prop := log.Extends (·.severity = .warning) log'

theorem warned_report (log : DiagnosticLog) (w : Warning) (location : Option Location) :
    log.Warned (log.report (w.toDiagnostic location)) := extends_report log rfl

/-- The log goes on with findings about the program. -/
abbrev Judges (log log' : DiagnosticLog) : Prop := log.Extends (fun d => ¬ d.IsInternal) log'

theorem Warned.judges (h : log.Warned log') : log.Judges log' :=
  h.mono fun _ => Diagnostic.not_isInternal_of_warning

/-- The log goes on with findings about the program, or with some of the given faults. -/
abbrev JudgesUpTo (faults : String → Prop) (log log' : DiagnosticLog) : Prop :=
  log.Extends (·.Within faults) log'

theorem Judges.upTo {faults : String → Prop} (h : log.Judges log') : log.JudgesUpTo faults log' :=
  h.mono fun _ hd _ heq message hcause => absurd ⟨_, ⟨message, hcause⟩, heq⟩ hd

theorem judges_report (log : DiagnosticLog) {e : LoweringError} (h : ¬ e.IsInternal) :
    log.Judges (log.report e.toDiagnostic) :=
  extends_report log (mt LoweringError.isInternal_toDiagnostic.mp h)

theorem judgesUpTo_report {faults : String → Prop} (log : DiagnosticLog) {e : LoweringError}
    (h : e.Within faults) : log.JudgesUpTo faults (log.report e.toDiagnostic) :=
  extends_report log (LoweringError.within_toDiagnostic.mpr h)

end DiagnosticLog

end SsaLowering
