import SsaLowering.Proofs.Courses
import SsaLowering.Proofs.Findings
import SsaLowering.Proofs.FirstDeclarations
import SsaLowering.Proofs.Growth
import SsaLowering.Proofs.Inventory
import SsaLowering.Proofs.SourceTypes

/-!
# Types agree in every state

A struct that names an unknown type is laid out with a byte in its place, and a later struct of
that name makes the field disagree with its source type. If no unknown type is reported, the
fields of all structs agree with the final table. Then the types of all names and values agree in
every state that the lowering of a program goes through.
-/

namespace SsaLowering

open DiagnosticLog Lower BodyState

/-- The warning is about a type name that stands for nothing. -/
def Warning.isUnknownType : Warning → Bool
  | .undeclaredInterface .. | .unusedVariable _ => false
  | _ => true

/-- A type name that stands for nothing was reported. -/
def Diagnostic.IsUnknownType (d : Diagnostic) : Prop :=
  ∃ w location, Warning.isUnknownType w = true ∧ w.toDiagnostic location = d

namespace DiagnosticLog

variable {kind any any' : Diagnostic → Prop} {log log' log'' : DiagnosticLog}

/-- What a log goes on with, it goes on with from every log in between. -/
theorem Extends.between (h : log.Extends kind log'') (hfirst : log.Extends any log')
    (hsecond : log'.Extends any' log'') : log.Extends kind log' ∧ log'.Extends kind log'' := by
  obtain ⟨reported, heq, hkind⟩ := h
  obtain ⟨first, hfirst, -⟩ := hfirst
  obtain ⟨second, hsecond, -⟩ := hsecond
  obtain rfl : reported = first ++ second := by
    rw [hsecond, hfirst, List.append_assoc] at heq
    exact (List.append_cancel_left heq).symm
  exact ⟨⟨first, hfirst, fun d hd => hkind d (by simp [hd])⟩,
    ⟨second, hsecond, fun d hd => hkind d (by simp [hd])⟩⟩

/-- Diagnostics that are reported one after the other. -/
theorem entries_foldl_report {α : Type} (diagnose : α → Diagnostic) (as : List α)
    (log : DiagnosticLog) : (as.foldl (fun log a => log.report (diagnose a)) log).entries =
      log.entries ++ as.map diagnose := by
  induction as generalizing log with
  | nil => simp
  | cons a as ih =>
    rw [List.foldl_cons, ih, report, List.map_cons, List.append_assoc, List.singleton_append]

end DiagnosticLog

/-! ## The fields of structs -/

namespace StructTable

variable {table : StructTable} {layout : StructLayout} {t : SourceType} {decl : StructDecl}

/-- What the type stands for is decided, whatever structs are still to come. -/
def Fixes (table : StructTable) (t : SourceType) : Prop :=
  t.isPointer = true ∨ (SourceType.builtin? t.name).isSome = true ∨ table.contains t.name = true

theorem fixes_of_fieldWarning? {field : FieldDecl} (h : table.fieldWarning? decl field = none) :
    table.Fixes field.type := by
  unfold fieldWarning? at h
  dsimp only at h
  split at h
  · next hknown =>
    simp only [isKnown, Bool.or_eq_true, Bool.and_eq_true] at hknown
    rcases hknown with ⟨hpointer, -⟩ | (hbuiltin | hcontains) | ⟨hpointer, -⟩
    · exact .inl hpointer
    · exact .inr (.inl hbuiltin)
    · exact .inr (.inr hcontains)
    · exact .inl hpointer
  · cases h

/-- A struct that joins the table leaves what is decided. -/
theorem Fixes.append (h : table.Fixes t) (layout : StructLayout) :
    Fixes { table with layouts := table.layouts ++ [layout] } t ∧
      resolve { table with layouts := table.layouts ++ [layout] } t = table.resolve t := by
  rcases h with hpointer | hbuiltin | hcontains
  · exact ⟨.inl hpointer, by rw [resolve_of_pointer hpointer, resolve_of_pointer hpointer]⟩
  · refine ⟨.inr (.inl hbuiltin), ?_⟩
    obtain ⟨type, htype⟩ := Option.isSome_iff_exists.mp hbuiltin
    simp [resolve, htype]
  · have hfind : find? { table with layouts := table.layouts ++ [layout] } t.name =
        table.find? t.name := by
      rw [find?, List.find?_append]
      exact Option.or_of_isSome hcontains
    exact ⟨.inr (.inr (by rw [contains, hfind]; exact hcontains)),
      by rw [resolve, resolve, hfind]⟩

/-- The types of all fields agree, and they are decided. -/
def FieldsFixed (table : StructTable) : Prop :=
  ∀ layout ∈ table.layouts, ∀ field ∈ layout.fields,
    field.type = table.resolve field.source ∧ table.Fixes field.source

theorem FieldsFixed.append (h : table.FieldsFixed)
    (hfields : ∀ field ∈ layout.fields,
      field.type = table.resolve field.source ∧ table.Fixes field.source) :
    FieldsFixed { table with layouts := table.layouts ++ [layout] } := by
  intro l hl field hfield
  obtain ⟨heq, hfixes⟩ : field.type = table.resolve field.source ∧ table.Fixes field.source := by
    rcases List.mem_append.mp hl with hl | hl
    · exact h l hl field hfield
    · exact hfields field (List.mem_singleton.mp hl ▸ hfield)
  exact ⟨heq.trans (hfixes.append layout).2.symm, (hfixes.append layout).1⟩

end StructTable

namespace UnitState

variable {s : UnitState} {decl : StructDecl}

/-- The warnings about a new struct are reported one after the other. -/
theorem entries_addStruct (hc : s.structs.Consistent)
    (hnew : s.structs.contains decl.name = false) :
    (s.addStruct decl).log.entries =
      s.log.entries ++ (s.structs.warnings decl).map (·.toDiagnostic decl.location) := by
  obtain ⟨layout, hlayout, -⟩ := hc.exists_layout decl
  simp [addStruct, StructTable.define, hnew, hlayout, DiagnosticLog.entries_foldl_report]

/-- A struct without unknown types keeps the fields of the table decided. -/
theorem fieldsFixed_addStruct (hc : s.structs.Consistent) (hfixed : s.structs.FieldsFixed)
    (hclean : s.log.Extends (fun d => ¬ d.IsUnknownType) (s.addStruct decl).log) :
    (s.addStruct decl).structs.FieldsFixed := by
  rcases addStruct_cases hc decl with ⟨e, -, heq⟩ | ⟨layout, log, hnew, hlayout, -, heq⟩
  · rw [heq]
    exact hfixed
  · obtain ⟨reported, hreported, hkind⟩ := hclean
    rw [entries_addStruct hc hnew] at hreported
    obtain rfl := List.append_cancel_left hreported
    rw [heq]
    refine hfixed.append fun field hfield => ?_
    obtain ⟨layout', hlayout', -, -, hsources, hresolved⟩ := hc.exists_layout decl
    obtain rfl := Option.some.inj (hlayout.symm.trans hlayout')
    refine ⟨hresolved field hfield, ?_⟩
    have hmem : field.source ∈ decl.fields.map (·.type) := hsources ▸ List.mem_map_of_mem hfield
    obtain ⟨declared, hdeclared, htype⟩ := List.mem_map.mp hmem
    rw [← htype]
    apply @StructTable.fixes_of_fieldWarning? s.structs decl
    cases hwarning : s.structs.fieldWarning? decl declared with
    | none => rfl
    | some w =>
      -- A warning about a field is one about an unknown type.
      have hunknown : Warning.isUnknownType w = true := by
        unfold StructTable.fieldWarning? at hwarning
        dsimp only at hwarning
        split at hwarning <;> cases hwarning
        rfl
      have hw : w ∈ s.structs.warnings decl :=
        List.mem_append_right _ (List.mem_filterMap.mpr ⟨declared, hdeclared, hwarning⟩)
      exact absurd ⟨w, decl.location, hunknown, rfl⟩ (hkind _ (List.mem_map_of_mem hw))

end UnitState

/-! ## The states of a body -/

namespace Visit

variable {env : Environment} {context : FunctionContext} {v w : Visit}

/-- The changes that a node makes by itself keep the types of names. -/
theorem agrees_move (henv : env.Agrees) (v : Visit) (hv : v.state.Agrees env) (a b : BodyState)
    (h : v.Move env a b) (ha : a.Agrees env) : b.Agrees env := by
  cases h with
  | step hstep => exact ha.step hstep
  | intern => exact ha.of_scope rfl
  | @bind _ decl source type initial _ hvalue =>
    have htypes : type = env.structs.resolve source :=
      (KeepsTypes.variableValue henv decl v.state hv).2 _ (by rw [hvalue])
    rcases exec_bindVariable decl source type initial a with
      ⟨-, heq⟩ | ⟨b, -, -, heq | ⟨b', -, heq⟩⟩
    · exact ha.of_scope (by rw [heq])
    · exact ha.of_scope (by rw [heq])
    · rw [heq]
      have hdeclared := ha.declare (b := ⟨.stack (.temp a.builder.nextTemp), source, type,
        decl.isMutable, false, decl.location⟩) htypes decl.name
      exact hdeclared.of_scope rfl

theorem agrees_moves (henv : env.Agrees) (v : Visit) (hv : v.state.Agrees env) (a b : BodyState)
    (h : v.Moves env a b) (ha : a.Agrees env) : b.Agrees env := by
  induction h with
  | refl => exact ha
  | tail _ h ih => exact agrees_move henv v hv _ _ h ih

end Visit

/-! ## Units -/

namespace UnitState

variable {table : StructTable} {s : UnitState} {d : DeclaredFunction} {body : Statement}

/-- The unit has the table of structs, and the types of its global variables agree with it. -/
structure Agrees (table : StructTable) (s : UnitState) : Prop where
  structs : s.structs = table
  globals : ∀ entry ∈ s.globals, entry.2.Agrees table

theorem Agrees.of_eq {s' : UnitState} (h : s.Agrees table) (hstructs : s'.structs = s.structs)
    (hglobals : s'.globals = s.globals) : s'.Agrees table :=
  ⟨hstructs.trans h.structs, hglobals ▸ h.globals⟩

theorem Agrees.addGlobal (h : s.Agrees table) (decl : VariableDecl Term) :
    (s.addGlobal decl).Agrees table := by
  obtain ⟨globals, log, -, -, ⟨e, -, heq⟩ | ⟨-, source, value, -, heq⟩⟩ := s.addGlobal_cases decl
  all_goals rw [heq]
  · exact h.of_eq rfl rfl
  · refine ⟨h.structs, fun entry hentry => ?_⟩
    rcases List.mem_cons.mp hentry with rfl | hentry
    · exact congrArg (·.resolve source) h.structs
    · exact h.globals entry hentry

theorem Agrees.addFunction {declared : List DeclaredFunction} (h : s.Agrees table)
    (decl : FunctionDecl Statement) :
    (UnitState.addFunction (s, declared) decl).1.Agrees table := by
  rcases s.addFunction_cases declared decl with ⟨-, e, -, heq⟩ | ⟨-, d, log, -, -, -, heq⟩
  all_goals
    rw [heq]
    exact h.of_eq rfl rfl

theorem Agrees.addBodyOf (h : s.Agrees table) (options : LoweringOptions)
    (d : DeclaredFunction) : (s.addBodyOf options d).Agrees table := by
  rw [UnitState.addBodyOf]
  split
  · exact h.of_eq (addBody_keeps ..).1 (globals_addBody ..)
  · exact h

/-- Structs declare no names. -/
theorem bare_foldl_addStruct (decls : List StructDecl) (hs : s.Bare False) :
    (decls.foldl addStruct s).Bare False :=
  List.foldlRecOn decls _ hs fun _ hs _ _ => hs.addStruct False.elim

theorem judges_foldl_addStruct (decls : List StructDecl) (hs : s.Bare False) :
    s.log.Judges (decls.foldl addStruct s).log :=
  (List.foldlRecOn (motive := fun s' : UnitState => s'.Bare False ∧ s.log.Judges s'.log) decls _
    ⟨hs, .refl _⟩ fun _ hs' decl _ => ⟨hs'.1.addStruct False.elim,
      hs'.2.trans (judges_addStruct hs'.1.consistent decl)⟩).2

/-- If no struct of a list names an unknown type, then the fields in the table stay decided. -/
theorem fieldsFixed_foldl_addStruct (decls : List StructDecl) (hbare : s.Bare False)
    (hfixed : s.structs.FieldsFixed)
    (hclean : s.log.Extends (fun d => ¬ d.IsUnknownType) (decls.foldl addStruct s).log) :
    (decls.foldl addStruct s).structs.FieldsFixed := by
  induction decls generalizing s with
  | nil => exact hfixed
  | cons decl decls ih =>
    have hbare' : (s.addStruct decl).Bare False := hbare.addStruct False.elim
    obtain ⟨hfirst, hrest⟩ := hclean.between (judges_addStruct hbare.consistent decl)
      (judges_foldl_addStruct decls hbare')
    exact ih hbare' (fieldsFixed_addStruct hbare.consistent hfixed hfirst) hrest

/-- At the start of a body, the types of its parameters agree as well. -/
theorem Agrees.opened {exact : Prop} (h : s.Agrees table) (hd : Knows exact table d) :
    (s.opened d).Agrees (s.environment d) := by
  obtain ⟨rfl, hglobals⟩ := h
  rintro b ⟨name, hb | hb⟩
  · obtain ⟨param, type, index, hparam, htype, -, heq⟩ := mem_parameterScope hb
    dsimp only at heq
    rw [hd.signature] at htype
    rw [heq]
    show type = s.structs.resolve param.type
    simpa [Signature.ofSource, hparam, eq_comm] using htype
  · exact hglobals _ hb

end UnitState

/-! ## Programs -/

namespace Program

open UnitState

variable {p : Program} {options : LoweringOptions} {log : DiagnosticLog} {s : UnitState}
  {d : DeclaredFunction} {body : Statement}

/-- The unit from which the module of a program is taken. -/
def finished (p : Program) (options : LoweringOptions) (log : DiagnosticLog) : UnitState :=
  (p.declare options.moduleName log).2.foldl (addBodyOf options)
    (p.declare options.moduleName log).1

theorem generate_eq (p : Program) (options : LoweringOptions) (log : DiagnosticLog) :
    p.generate options log = ((p.finished options log).code, (p.finished options log).log) := rfl

/-- A state of the unit while a program is lowered: behind some of the declarations of one kind,
or behind the bodies of some functions. -/
inductive Reaches (p : Program) (options : LoweringOptions) (log : DiagnosticLog) :
    UnitState → Prop
  | interfaces {decls : List InterfaceDecl} : decls <+: p.interfaces →
    Reaches p options log (decls.foldl addInterface (initial options.moduleName log))
  | structs {decls : List StructDecl} : decls <+: p.structs → Reaches p options log
    (decls.foldl addStruct (p.interfaces.foldl addInterface (initial options.moduleName log)))
  | globals {decls : List (VariableDecl Term)} : decls <+: p.globals →
    Reaches p options log (decls.foldl addGlobal (p.laidOut options.moduleName log))
  | functions {decls : List (FunctionDecl Statement)} : decls <+: p.functions →
    Reaches p options log (decls.foldl addFunction
      (p.globals.foldl addGlobal (p.laidOut options.moduleName log), [])).1
  | bodies {ds : List DeclaredFunction} : ds <+: (p.declare options.moduleName log).2 →
    Reaches p options log (ds.foldl (addBodyOf options) (p.declare options.moduleName log).1)

/-- On the way to a state and from there to the end, the log only grows. -/
theorem Reaches.grows (h : p.Reaches options log s) :
    log.Grows s.log ∧ s.log.Grows (p.generate options log).2 := by
  have hinterface (s : UnitState) (decl : InterfaceDecl) : s.log.Grows (s.addInterface decl).log :=
    (s.judges_addInterface decl).grows
  have hglobal (s : UnitState) (decl : VariableDecl Term) : s.log.Grows (s.addGlobal decl).log :=
    (s.judges_addGlobal decl).grows
  have hfunction (acc : UnitState × List DeclaredFunction) (decl : FunctionDecl Statement) :
      acc.1.log.Grows (addFunction acc decl).1.log := (judges_addFunction acc.1 acc.2 decl).grows
  -- From each kind of declaration to the next, and on to the bodies.
  have hinterfaces := grows_foldl hinterface p.interfaces (initial options.moduleName log)
  have hstructs := grows_foldl grows_addStruct p.structs
    (p.interfaces.foldl addInterface (initial options.moduleName log))
  have hglobals := grows_foldl hglobal p.globals (p.laidOut options.moduleName log)
  have hfunctions := grows_foldl hfunction p.functions
    (p.globals.foldl addGlobal (p.laidOut options.moduleName log), [])
  have hbodies := grows_foldl (grows_addBodyOf options) (p.declare options.moduleName log).2
    (p.declare options.moduleName log).1
  rw [generate_eq]
  cases h with
  | interfaces hdecls =>
    exact ⟨grows_foldl hinterface _ _, (grows_from_first hinterface hdecls _).trans
      (hstructs.trans (hglobals.trans (hfunctions.trans hbodies)))⟩
  | structs hdecls =>
    exact ⟨hinterfaces.trans (grows_foldl grows_addStruct _ _),
      (grows_from_first grows_addStruct hdecls _).trans
        (hglobals.trans (hfunctions.trans hbodies))⟩
  | globals hdecls =>
    exact ⟨(hinterfaces.trans hstructs).trans (grows_foldl hglobal _ _),
      (grows_from_first hglobal hdecls _).trans (hfunctions.trans hbodies)⟩
  | functions hdecls =>
    exact ⟨((hinterfaces.trans hstructs).trans hglobals).trans (grows_foldl hfunction _ _),
      (grows_from_first hfunction hdecls _).trans hbodies⟩
  | bodies hds =>
    exact ⟨(((hinterfaces.trans hstructs).trans hglobals).trans hfunctions).trans
        (grows_foldl (grows_addBodyOf options) _ _),
      grows_from_first (grows_addBodyOf options) hds _⟩

theorem agrees_laidOut (p : Program) (moduleName : String) (log : DiagnosticLog) :
    (p.laidOut moduleName log).Agrees (p.laidOut moduleName log).structs := by
  have hbare : (p.laidOut moduleName log).Bare False := p.bare_laidOut False.elim moduleName log
  exact ⟨rfl, by simp [hbare.globals]⟩

theorem agrees_globals (moduleName : String) (decls : List (VariableDecl Term)) :
    (decls.foldl addGlobal (p.laidOut moduleName log)).Agrees
      (p.laidOut moduleName log).structs :=
  List.foldlRecOn decls _ (p.agrees_laidOut moduleName log) fun _ hs decl _ => hs.addGlobal decl

theorem agrees_functions (moduleName : String) (decls : List (FunctionDecl Statement)) :
    (decls.foldl addFunction (p.globals.foldl addGlobal (p.laidOut moduleName log), [])).1.Agrees
      (p.laidOut moduleName log).structs :=
  List.foldlRecOn (motive := fun acc : UnitState × List DeclaredFunction =>
    acc.1.Agrees (p.laidOut moduleName log).structs) decls _ (agrees_globals moduleName p.globals)
    fun _ hs decl _ => hs.addFunction decl

theorem agrees_bodies (ds : List DeclaredFunction) :
    (ds.foldl (addBodyOf options) (p.declare options.moduleName log).1).Agrees
      (p.laidOut options.moduleName log).structs :=
  List.foldlRecOn ds _ (agrees_functions options.moduleName p.functions)
    fun _ hs d _ => hs.addBodyOf options d

/-- The table is complete behind the structs. -/
theorem structs_finished (p : Program) (options : LoweringOptions) (log : DiagnosticLog) :
    (p.finished options log).structs = (p.laidOut options.moduleName log).structs :=
  (agrees_bodies _).structs

/-- In every state of the unit, the types of all global variables agree. -/
theorem Reaches.agrees (h : p.Reaches options log s) :
    ∀ entry ∈ s.globals, entry.2.Agrees (p.finished options log).structs := by
  rw [structs_finished]
  cases h with
  | @interfaces decls =>
    have hbare : Bare False (decls.foldl addInterface (initial options.moduleName log)) :=
      List.foldlRecOn decls _ (bare_initial _ log) fun _ hs decl _ => hs.addInterface decl
    simp [hbare.globals]
  | @structs decls =>
    have hbare := bare_foldl_addStruct decls (p.bare_interfaces options.moduleName log)
    simp [hbare.globals]
  | globals => exact (agrees_globals _ _).globals
  | functions => exact (agrees_functions _ _).globals
  | bodies => exact (agrees_bodies _).globals

/-! ### Programs without unknown types -/

/-- If no unknown type is reported, then all fields have the types that their source types stand
for in the whole table. -/
theorem fieldsAgree_laidOut
    (hclean : log.Extends (fun d => ¬ d.IsUnknownType) (p.generate options log).2) :
    (p.laidOut options.moduleName log).structs.FieldsAgree := by
  have hbare : Bare False (p.interfaces.foldl addInterface (initial options.moduleName log)) :=
    p.bare_interfaces options.moduleName log
  have hfirst : p.Reaches options log
      (p.interfaces.foldl addInterface (initial options.moduleName log)) := .structs List.nil_prefix
  have hlast : p.Reaches options log (p.laidOut options.moduleName log) :=
    .structs List.prefix_rfl
  have hclean := (hclean.between hfirst.grows.1 hfirst.grows.2).2
  have hfixed := fieldsFixed_foldl_addStruct p.structs hbare
    (by simp [StructTable.FieldsFixed, p.layouts_interfaces])
    (hclean.between (judges_foldl_addStruct p.structs hbare) hlast.grows.2).1
  exact fun layout hlayout field hfield => (hfixed layout hlayout field hfield).1

/-- The body of a function is lowered where all types agree. -/
theorem Turn.agrees (h : p.Turn options log s d body)
    (hclean : log.Extends (fun d => ¬ d.IsUnknownType) (p.generate options log).2) :
    s.structs = (p.finished options log).structs ∧ (s.environment d).Agrees ∧
      (s.opened d).Agrees (s.environment d) := by
  obtain ⟨hregular, hknows⟩ := h.regular False.elim
  have hfields := fieldsAgree_laidOut hclean
  have hunit : s.Agrees (p.laidOut options.moduleName log).structs := by
    obtain ⟨-, before, after, -, rfl⟩ := h
    exact agrees_bodies before
  refine ⟨hunit.structs.trans (p.structs_finished options log).symm, ⟨?_, ?_⟩,
    hunit.opened hknows⟩
  · show s.structs.FieldsAgree
    rw [hunit.structs]
    exact hfields
  · intro entry hentry
    show entry.2.Resolves s.structs
    rw [hunit.structs]
    exact (hregular.functions entry hentry).1

/-- If no unknown type is reported, then source types and machine types stay in step. In all
states of the unit and of its bodies, what is bound to a name has the machine type that its source
type stands for in the finished table of structs. So has every value with a source type to which an
expression is lowered, and a variable, a member, a cast, an allocation, an assignment, a step and a
call that returns something are lowered to such values. -/
theorem types_agree (p : Program) (options : LoweringOptions) (log : DiagnosticLog)
    (hclean : log.Extends (fun d => ¬ d.IsUnknownType) (p.generate options log).2) :
    (∀ s, p.Reaches options log s →
      ∀ entry ∈ s.globals, entry.2.Agrees (p.finished options log).structs) ∧
    ∀ s d body, p.Turn options log s d body →
      ∀ w, (s.bodyVisit d body).Contains (s.environment d) (context d) w →
        (∀ a b, w.GoesOn (s.environment d) (context d) a → w.Moves (s.environment d) a b →
          ∀ entry ∈ b.scope.entries ++ s.globals,
            entry.2.Agrees (p.finished options log).structs) ∧
        ∀ term v s', w.node = .term term →
          exec (lowerTerm (s.environment d) term) w.state = (.ok v, s') →
          (term.CarriesSource v.type → v.source.isSome = true) ∧
          ∀ source, v.source = some source →
            v.type = (p.finished options log).structs.resolve source := by
  refine ⟨fun s hs => hs.agrees, fun s d body hturn w hw => ?_⟩
  obtain ⟨hstructs, henv, hopened⟩ := hturn.agrees hclean
  have hmoves := Visit.agrees_moves henv
  have hstate := Visit.keeps_within Visit.course hmoves hw hopened
  rw [← hstructs]
  constructor
  · intro a b hgoes hab entry hentry
    have hb := hmoves w hstate a b hab (hgoes.keeps Visit.course hmoves hstate)
    exact hb entry.2 ⟨entry.1, List.mem_append.mp hentry⟩
  · intro term v s' hnode hexec
    have hvalue := (KeepsTypes.lowerTerm henv term w.state hstate).2 v (by rw [hexec])
    exact ⟨hvalue.source, hvalue.agrees.declared⟩

/-- A struct that points to one of its kind, and a function that follows the pointer. -/
def chain : Program where
  items := [.struct ⟨"Node", none, [⟨"next", .pointerTo "Node", true⟩], none⟩,
    .function ⟨"rest", [⟨"node", .pointerTo "Node"⟩], .pointerTo "Node",
      some (.ret none (some (.member none (.variable none "node") "next"))), none, none⟩]

theorem types_agree_chain : ∃ s d body, Turn chain .standard .empty s d body ∧
    ∃ w v s', (s.bodyVisit d body).Contains (s.environment d) (context d) w ∧
      w.node = .term (.member none (.variable none "node") "next") ∧
      exec (lowerTerm (s.environment d) (.member none (.variable none "node") "next")) w.state =
        (.ok v, s') ∧
      v.source = some (.pointerTo "Node") ∧
      v.type = (chain.finished .standard .empty).structs.resolve (.pointerTo "Node") := by
  have hclean : DiagnosticLog.empty.Extends (fun d => ¬ d.IsUnknownType)
      (chain.generate .standard .empty).2 := ⟨[], by decide +kernel, by simp⟩
  obtain ⟨s, d, body, hturn, hcontains, v, s', hexec, hsource⟩ :
      ∃ s d body, ∃ _ : Turn chain .standard .empty s d body,
        (s.bodyVisit d body).Contains (s.environment d) (context d)
          ⟨.term (.member none (.variable none "node") "next"), s.opened d⟩ ∧
        ∃ v s', exec (lowerTerm (s.environment d) (.member none (.variable none "node") "next"))
          (s.opened d) = (.ok v, s') ∧ v.source = some (.pointerTo "Node") :=
    ⟨_, _, _, ⟨rfl, [], [], rfl, rfl⟩,
      .tail (.single (List.mem_cons_self ..)) (List.mem_cons_self ..), _, _, rfl, rfl⟩
  obtain ⟨-, hbodies⟩ := types_agree chain .standard .empty hclean
  obtain ⟨-, hvalue⟩ := (hbodies s d body hturn _ hcontains).2 _ v s' rfl hexec
  exact ⟨s, d, body, hturn, _, v, s', hcontains, rfl, hexec, hsource, hvalue _ hsource⟩

end Program

end SsaLowering
