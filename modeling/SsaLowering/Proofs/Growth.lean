import SsaLowering.Proofs.Courses
import SsaLowering.Proofs.Declaration

/-!
# The log grows

What was reported is never taken back, neither by the parts of a body nor by the declarations and
bodies of a unit. So what is reported on the way is in the log at the end.
-/

namespace SsaLowering

open Lower BodyState

namespace DiagnosticLog

variable {log log' log'' : DiagnosticLog} {kind : Diagnostic → Prop} {d : Diagnostic}

/-- The log goes on, with whatever diagnostics. -/
abbrev Grows (log log' : DiagnosticLog) : Prop := log.Extends (fun _ => True) log'

theorem Extends.grows (h : log.Extends kind log') : log.Grows log' := h.mono fun _ _ => trivial

/-- Between the two logs the diagnostic is reported. -/
def Reports (log log' : DiagnosticLog) (d : Diagnostic) : Prop :=
  ∃ reported, log'.entries = log.entries ++ reported ∧ d ∈ reported

theorem reports_report (log : DiagnosticLog) (d : Diagnostic) : log.Reports (log.report d) d :=
  ⟨[d], rfl, List.mem_singleton_self d⟩

theorem Reports.before (h : log'.Reports log'' d) (hfirst : log.Extends kind log') :
    log.Reports log'' d := by
  obtain ⟨reported, heq, hd⟩ := h
  obtain ⟨first, hfirst, -⟩ := hfirst
  exact ⟨first ++ reported, by rw [heq, hfirst, List.append_assoc], List.mem_append_right _ hd⟩

theorem Reports.after (h : log.Reports log' d) (hlast : log'.Extends kind log'') :
    log.Reports log'' d := by
  obtain ⟨reported, heq, hd⟩ := h
  obtain ⟨last, hlast, -⟩ := hlast
  exact ⟨reported ++ last, by rw [hlast, heq, List.append_assoc], List.mem_append_left _ hd⟩

section

variable {σ δ : Type} {logOf : σ → DiagnosticLog} {add : σ → δ → σ}
  (h : ∀ s decl, (logOf s).Grows (logOf (add s decl)))

include h

/-- A pass over declarations keeps what was reported, if each of them does. -/
theorem grows_foldl (decls : List δ) (s : σ) : (logOf s).Grows (logOf (decls.foldl add s)) :=
  List.foldlRecOn (motive := fun s' => (logOf s).Grows (logOf s')) decls add (.refl _)
    fun s' hs decl _ => hs.trans (h s' decl)

/-- So does the rest of a pass. -/
theorem grows_from_first {first decls : List δ} (hfirst : first <+: decls) (s : σ) :
    (logOf (first.foldl add s)).Grows (logOf (decls.foldl add s)) := by
  obtain ⟨rest, rfl⟩ := hfirst
  rw [List.foldl_append]
  exact grows_foldl h rest _

end

end DiagnosticLog

open DiagnosticLog

namespace Visit

variable {env : Environment} {context : FunctionContext} {v w : Visit} {a b : BodyState}

theorem Move.grows (h : v.Move env a b) : a.log.Grows b.log := by
  cases h with
  | step hstep =>
    cases hstep with
    | report d => exact extends_report a.log trivial
    | use | turn | add => exact .refl a.log
  | intern => exact .refl a.log
  | @bind _ decl source type initial =>
    rcases exec_bindVariable decl source type initial a with
      ⟨-, heq⟩ | ⟨b, -, -, heq | ⟨b', -, heq⟩⟩
    all_goals
      rw [heq]
      exact .refl a.log

theorem grows_of_moves (h : v.Moves env a b) : a.log.Grows b.log := by
  induction h with
  | refl => exact .refl a.log
  | tail _ hmove ih => exact ih.trans hmove.grows

theorem grows_after (v : Visit) : v.state.log.Grows (v.after env context).log :=
  across (S := fun a b => a.log.Grows b.log) course (fun _ _ _ => .trans) v
    fun _ _ _ _ => grows_of_moves

theorem grows_inside (hw : v.Contains env context w) : v.state.log.Grows w.state.log ∧
    (w.after env context).log.Grows (v.after env context).log :=
  within (S := fun a b => a.log.Grows b.log) course (fun _ _ _ => .trans) (fun a => .refl a.log) hw
    fun _ _ _ _ => grows_of_moves

end Visit

namespace UnitState

variable {s : UnitState} {d : DeclaredFunction} {body : Statement} {options : LoweringOptions}

theorem grows_lowerBody (s : UnitState) (d : DeclaredFunction) (body : Statement) :
    s.log.Grows (s.lowerBody d body).log := by
  have hvisit : s.log.Grows
      (exec (lowerBlock (s.environment d) (context d) body.parts) (s.opened d)).2.log :=
    (s.bodyVisit d body).grows_after
  rw [lowerBody_eq, exec_recovering, exec_functionBody]
  rcases hexec : exec (lowerBlock (s.environment d) (context d) body.parts) (s.opened d) with
    ⟨e | ⟨⟩, s'⟩
  all_goals rw [hexec] at hvisit
  · exact hvisit.trans (extends_report s'.log trivial)
  · exact hvisit

theorem grows_addBody (options : LoweringOptions) (s : UnitState) (d : DeclaredFunction)
    (body : Statement) : (s.lowerBody d body).log.Grows (s.addBody options d body).log := by
  cases hf : (s.lowerBody d body).builder.function with
  | some f => exact (judges_addBody hf options).grows
  | none =>
    rw [addBody]
    simp only [hf]
    exact (s.warned_bodyLog options d body).grows.trans (extends_report _ trivial)

theorem grows_addBodyOf (options : LoweringOptions) (s : UnitState) (d : DeclaredFunction) :
    s.log.Grows (s.addBodyOf options d).log := by
  rw [addBodyOf]
  split
  · exact (s.grows_lowerBody d _).trans (grows_addBody options s d _)
  · exact .refl s.log

theorem grows_addStruct (s : UnitState) (decl : StructDecl) :
    s.log.Grows (s.addStruct decl).log := by
  have hwarnings : s.log.Grows ((s.structs.warnings decl).foldl
      (fun log w => log.report (w.toDiagnostic decl.location)) s.log) :=
    .foldl fun log w => extends_report log trivial
  rw [addStruct, StructTable.define]
  cases hcontains : s.structs.contains decl.name with
  | true => exact extends_report s.log trivial
  | false =>
    cases hlayout : s.structs.layout? decl with
    | some layout => exact hwarnings
    | none => exact hwarnings.trans (extends_report _ trivial)

end UnitState

end SsaLowering
