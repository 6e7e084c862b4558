import SsaLowering.Proofs.StatementComparison
import SsaLowering.Proofs.TypeAgreement

/-!
# Whole bodies side by side

One body is lowered in two units. If what it can refer to is the same in both, then the same is
reported, the functions that come from it are alike, and either both are kept or none is.
-/

namespace SsaLowering

open StringPool

namespace Comparison

/-- Two units in which the same can be referred to, at the beginning of the comparison. -/
structure Fits (c : Comparison) (s s' : UnitState) : Prop where
  before : s.log.entries = c.before
  before' : s'.log.entries = c.before'
  exact : c.exact → s'.code.globals = s.code.globals
  structs : s'.structs = s.structs
  globals : s'.globals = s.globals
  functions : ∀ name,
    Option.Rel Signature.SameFace (s.functions.lookup name) (s'.functions.lookup name)
  places : ∀ entry ∈ s.globals, c.FixedPlace entry.2.storage

/-- The texts in the pools of two units. -/
def pools (s s' : UnitState) : PoolTexts := ⟨texts s.code.globals, texts s'.code.globals⟩

variable {c : Comparison} {s s' : UnitState} {d : DeclaredFunction}

theorem Fits.coupled_start (h : c.Fits s s') : c.Coupled (pools s s') (s.start d) (s'.start d) where
  left := rfl
  right := rfl
  exact := h.exact
  builder := ⟨.some ⟨rfl, .nil⟩, rfl, rfl, rfl⟩
  scope := rfl
  places := by
    intro entry hentry
    obtain ⟨param, type, index, -, -, -, heq⟩ := UnitState.mem_parameterScope hentry
    rw [heq]
    exact fixed_temp rfl
  log := ⟨[], by rw [← h.before, List.append_nil]; rfl, by rw [← h.before', List.append_nil]; rfl,
    by simp⟩

/-- In both units, the body is lowered to functions that are alike. -/
theorem Fits.exists_coupled (h : c.Fits s s') (d : DeclaredFunction) (body : Statement) :
    ∃ w, pools s s' ≤ w ∧ c.Coupled w (s.lowerBody d body) (s'.lowerBody d body) := by
  have henv : s'.environment d = { s.environment d with functions := s'.functions } := by
    rw [UnitState.environment, h.structs, h.globals]
    rfl
  have hmeets : c.Meets (s.environment d) s'.functions := ⟨h.functions, h.places⟩
  have hbody : c.LikeAction
      (Lower.recovering (Lower.functionBody (s.environment d) (UnitState.context d) body))
      (Lower.recovering (Lower.functionBody { s.environment d with functions := s'.functions }
        (UnitState.context d) body)) := recovers (functionBody hmeets body)
  obtain ⟨w, hw, hcoupled, -⟩ := hbody (pools s s') _ _ (h.coupled_start (d := d))
  refine ⟨w, hw, ?_⟩
  rw [UnitState.lowerBody_eq, UnitState.lowerBody_eq, henv]
  exact hcoupled

end Comparison

namespace UnitState

variable {s s' : UnitState} {d : DeclaredFunction} {body : Statement} {f f' : Option FunctionDef}

/-- The diagnostics about variables that were never read. -/
def unusedWarnings (scope : Scope) : List Diagnostic :=
  scope.unused.map fun entry => (Warning.unusedVariable entry.1).toDiagnostic entry.2.location

theorem isUnused_of_mem {scope : Scope} {d : Diagnostic} (h : d ∈ unusedWarnings scope) :
    d.IsUnused := by
  obtain ⟨entry, -, rfl⟩ := List.mem_map.mp h
  exact ⟨entry.1, entry.2.location, rfl⟩

/-- What is reported about a function that is not kept. -/
def rejection (d : DeclaredFunction) : Option FunctionDef → List LoweringError
  | none => [.unplaced (.internal ("lost track of function '" ++ d.decl.name ++ "'"))]
  | some f => (f.finalize.fault?.map fun fault =>
      (⟨.verification f.name fault, d.decl.location⟩ : LoweringError)).toList

theorem rejection_eq {R : Value → Value → Prop} (h : Option.Rel (FunctionDef.Like R) f f') :
    rejection d f' = rejection d f := by
  cases h with
  | none => rfl
  | some h => rw [rejection, rejection, h.finalize.fault?, h.head]

theorem entries_bodyLog (options : LoweringOptions) (s : UnitState) (d : DeclaredFunction)
    (body : Statement) : (s.bodyLog options d body).entries = (s.lowerBody d body).log.entries ++
      if options.warnUnused then unusedWarnings (s.lowerBody d body).scope else [] := by
  unfold bodyLog
  dsimp only
  split
  · exact DiagnosticLog.entries_foldl_report _ _ _
  · exact (List.append_nil _).symm

/-- Behind a body, the warnings about its variables come first, and then why it is not kept. -/
theorem entries_addBody (options : LoweringOptions) (s : UnitState) (d : DeclaredFunction)
    (body : Statement) : (s.addBody options d body).log.entries =
      (s.bodyLog options d body).entries ++
        (rejection d (s.lowerBody d body).builder.function).map (·.toDiagnostic) := by
  cases hf : (s.lowerBody d body).builder.function with
  | none =>
    simp only [addBody, hf]
    rfl
  | some f =>
    cases hfault : f.finalize.fault? with
    | none =>
      rw [addBody_of_sound hf hfault, rejection, hfault]
      exact (List.append_nil _).symm
    | some fault =>
      rw [addBody_of_fault hf hfault, rejection, hfault]
      rfl

end UnitState

namespace Comparison

variable {c : Comparison} {s s' : UnitState} {d : DeclaredFunction}

/-- In both units, the same is reported about the body, with the warnings about its variables if
they are wanted. -/
theorem Fits.exists_reported (h : c.Fits s s') (d : DeclaredFunction) (body : Statement) :
    ∃ reported unused rejected : List Diagnostic,
      (∀ e ∈ reported, ¬ e.IsUnused) ∧ (∀ e ∈ unused, e.IsUnused) ∧
      (∀ e ∈ rejected, ¬ e.IsUnused) ∧
      (∀ options, (s.addBody options d body).log.entries = s.log.entries ++
        (reported ++ (if options.warnUnused then unused else []) ++ rejected)) ∧
      ∀ options, (s'.addBody options d body).log.entries = s'.log.entries ++
        (reported ++ (if options.warnUnused then unused else []) ++ rejected) := by
  obtain ⟨w, -, hcoupled⟩ := h.exists_coupled d body
  obtain ⟨reported, hlog, hlog', hreported⟩ := hcoupled.log
  refine ⟨reported, UnitState.unusedWarnings (s.lowerBody d body).scope,
    (UnitState.rejection d (s.lowerBody d body).builder.function).map (·.toDiagnostic), hreported,
    fun e => UnitState.isUnused_of_mem, ?_, fun options => ?_, fun options => ?_⟩
  · intro e he
    obtain ⟨error, -, rfl⟩ := List.mem_map.mp he
    exact error.not_isUnused
  · rw [UnitState.entries_addBody, UnitState.entries_bodyLog, hlog, h.before]
    simp only [List.append_assoc]
  · rw [UnitState.entries_addBody, UnitState.entries_bodyLog, hlog', h.before', hcoupled.scope,
      UnitState.rejection_eq hcoupled.builder.function]
    simp only [List.append_assoc]

end Comparison

end SsaLowering
