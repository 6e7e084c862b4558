import SsaLowering.Proofs.TypeAgreement

/-!
# No type becomes a byte in silence

A type that nothing was declared for stands for a byte. Wherever a declaration takes such a type,
a warning is reported there, unless the declaration is refused with an error. The one exception
is a parameter of type void: the exception that is made for void where a function is declared is
that of return types, but holds for parameters as well.
-/

namespace SsaLowering

open DiagnosticLog Lower BodyState

/-! ## Types that stand for nothing -/

namespace StructTable

variable {table : StructTable} {t : SourceType} {decl : StructDecl} {field : FieldDecl}

/-- Neither a pointer nor a built-in type nor a struct that is declared by now. -/
structure Degrades (table : StructTable) (t : SourceType) : Prop where
  value : t.isPointer = false
  builtin : SourceType.builtin? t.name = none
  undeclared : table.contains t.name = false

/-- Such a type is resolved by the fallback. -/
theorem Degrades.resolve_eq (h : table.Degrades t) : table.resolve t = fallback := by
  have hfind : table.find? t.name = none := by
    simpa [contains] using h.undeclared
  simp [resolve, h.value, h.builtin, hfind]

theorem Degrades.isKnown_eq (h : table.Degrades t) : table.isKnown t = false := by
  simp [isKnown, h.value, h.builtin, h.undeclared]

theorem Degrades.mem_warnings (h : table.Degrades field.type) (hfield : field ∈ decl.fields) :
    .unknownFieldType field.type field.name decl.name ∈ table.warnings decl := by
  refine List.mem_append_right _ (List.mem_filterMap.mpr ⟨field, hfield, ?_⟩)
  simp [fieldWarning?, h.value, h.isKnown_eq]

end StructTable

/-! ## Declarations -/

namespace Declare

variable {s : UnitState} {type : SourceType} {decl : VariableDecl Term}

theorem exec_checkKnown_of_degrades (h : s.structs.Degrades type) (hvoid : type.isVoid = false)
    (w : Warning) (location : Option Location) : exec (checkKnown type w location) s =
      (.ok (), { s with log := s.log.report (w.toDiagnostic location) }) := by
  unfold checkKnown
  rw [exec_bind, exec_get]
  simp only [hvoid, h.isKnown_eq]
  rfl

/-- The warning about a parameter is among those about all of them. -/
theorem exec_checkParams_of_degrades (decl : FunctionDecl Statement) {params : List Parameter}
    {param : Parameter} (hparam : param ∈ params) (h : s.structs.Degrades param.type)
    (hvoid : param.type.isVoid = false) :
    ∃ log, s.log.Reports log ((Warning.unknownParameterType param.type param.name
        decl.name).toDiagnostic decl.location) ∧
      exec (params.forM fun param => checkKnown param.type
        (.unknownParameterType param.type param.name decl.name) decl.location) s =
        (.ok (), { s with log }) := by
  induction params generalizing s with
  | nil => cases hparam
  | cons first params ih =>
    rcases List.mem_cons.mp hparam with rfl | hparam
    · have hfirst := exec_checkKnown_of_degrades h hvoid
        (.unknownParameterType param.type param.name decl.name) decl.location
      obtain ⟨log, hlog, hrest⟩ := exec_checkParams decl params { s with
        log := s.log.report ((Warning.unknownParameterType param.type param.name
          decl.name).toDiagnostic decl.location) }
      exact ⟨log, (reports_report _ _).after hlog, (exec_bind_of_ok hfirst).trans hrest⟩
    · obtain ⟨log, hlog, hfirst⟩ := exec_checkKnown first.type
        (.unknownParameterType first.type first.name decl.name) decl.location s
      obtain ⟨log', hreports, hrest⟩ := @ih { s with log } hparam h
      exact ⟨log', hreports.before hlog, (exec_bind_of_ok hfirst).trans hrest⟩

theorem exec_globalType_of_degrades (h : s.structs.Degrades decl.type)
    (hinferred : decl.type.isInferred = false) (initial : Option TypedValue) :
    exec (globalType decl initial) s = (.ok decl.type, { s with
      log := s.log.report ((Warning.unknownGlobalType decl.type decl.name).toDiagnostic
        decl.location) }) := by
  unfold globalType
  rw [if_neg (by simp [hinferred]), exec_bind, exec_get]
  simp only [h.isKnown_eq]
  rfl

/-- The initializer comes before the type. If it has no value, the variable is refused, and else
the warning is reported, whether the value fits or not. -/
theorem exec_globalVariable_of_degrades (hnew : s.globals.lookup decl.name = none)
    (hinferred : decl.type.isInferred = false) (h : s.structs.Degrades decl.type) :
    (∃ e s', exec (globalVariable decl) s = (.error e, s') ∧ s'.globals = s.globals ∧
      s'.log = s.log) ∨
    (exec (globalVariable decl) s).2.log = s.log.report
      ((Warning.unknownGlobalType decl.type decl.name).toDiagnostic decl.location) := by
  have hstart := exec_globalVariable_of_new hnew
  rcases exec_initial decl s rfl with ⟨e, -, hexec⟩ | ⟨initial, hinitial, -, hexec⟩
  · exact .inl ⟨e, _, hstart.trans (exec_bind_of_error hexec), rfl, rfl⟩
  · replace hstart := hstart.trans (exec_bind_of_ok hexec)
    have htype := exec_globalType_of_degrades (s := { s with code := { s.code with
      globals := StringPool.hold s.code.globals decl.literalText? } }) h hinferred initial
    replace hstart := hstart.trans ((exec_bind_of_ok htype).trans (exec_bind_of_ok rfl))
    right
    rcases exec_globalValue decl decl.type (s.structs.resolve decl.type) hinitial _ with
      ⟨e, -, hexec⟩ | ⟨value, -, -, hexec⟩
    · rw [hstart, exec_bind_of_error hexec]
    · rw [hstart, exec_bind_of_ok hexec]
      rfl

end Declare

namespace UnitState

variable {s : UnitState} {declared : List DeclaredFunction}

/-- What is answered to a declaration between two logs: the diagnostic, or an error, if the
declaration is refused. -/
def Answers (first last : DiagnosticLog) (refused : Prop) (d : Diagnostic) : Prop :=
  first.Reports last d ∨ refused ∧ ∃ e : LoweringError, first.Reports last e.toDiagnostic

theorem answers_addStruct (hc : s.structs.Consistent) {decl : StructDecl} {field : FieldDecl}
    (hfield : field ∈ decl.fields) (h : s.structs.Degrades field.type) :
    Answers s.log (s.addStruct decl).log ((s.addStruct decl).structs = s.structs)
      ((Warning.unknownFieldType field.type field.name decl.name).toDiagnostic decl.location) := by
  cases hcontains : s.structs.contains decl.name with
  | true =>
    rw [addStruct_of_repeated hcontains]
    exact .inr ⟨rfl, _, reports_report _ _⟩
  | false =>
    exact .inl ⟨_, entries_addStruct hc hcontains, List.mem_map_of_mem (h.mem_warnings hfield)⟩

theorem answers_addGlobal {decl : VariableDecl Term} (hinferred : decl.type.isInferred = false)
    (h : s.structs.Degrades decl.type) :
    Answers s.log (s.addGlobal decl).log ((s.addGlobal decl).globals = s.globals)
      ((Warning.unknownGlobalType decl.type decl.name).toDiagnostic decl.location) := by
  cases hlookup : s.globals.lookup decl.name with
  | some binding =>
    rw [addGlobal_of_repeated (by rw [hlookup]; rfl)]
    exact .inr ⟨rfl, _, reports_report _ _⟩
  | none =>
    rcases Declare.exec_globalVariable_of_degrades hlookup hinferred h with
      ⟨e, s', hexec, hglobals, hlog⟩ | hlog
    · rw [addGlobal_of_error hexec]
      exact .inr ⟨hglobals, e.orAt decl.location, hlog ▸ reports_report s'.log _⟩
    · have hreports := reports_report s.log
        ((Warning.unknownGlobalType decl.type decl.name).toDiagnostic decl.location)
      rw [← hlog] at hreports
      rcases hexec : exec (Declare.globalVariable decl) s with ⟨e | ⟨⟩, s'⟩
      all_goals rw [hexec] at hreports
      · rw [addGlobal_of_error hexec]
        exact .inl (hreports.after (extends_report s'.log trivial : DiagnosticLog.Grows _ _))
      · rw [addGlobal_of_ok hexec]
        exact .inl hreports

theorem answers_addFunction_return {decl : FunctionDecl Statement}
    (h : s.structs.Degrades decl.returnType) (hvoid : decl.returnType.isVoid = false) :
    Answers s.log (addFunction (s, declared) decl).1.log
      ((addFunction (s, declared) decl).2 = declared)
      ((Warning.unknownReturnType decl.returnType decl.name).toDiagnostic decl.location) := by
  by_cases hname : decl.name ∈ declared.map (·.decl.name)
  · rw [addFunction_of_repeated hname]
    exact .inr ⟨rfl, _, reports_report _ _⟩
  · have hreturn := Declare.exec_checkKnown_of_degrades h hvoid
      (.unknownReturnType decl.returnType decl.name) decl.location
    obtain ⟨log, hlog, hparams⟩ := Declare.exec_checkParams decl decl.params { s with
      log := s.log.report ((Warning.unknownReturnType decl.returnType decl.name).toDiagnostic
        decl.location) }
    obtain ⟨d, -, -, heq⟩ := addFunction_of_new hname hreturn hparams
    rw [heq]
    exact .inl ((reports_report _ _).after hlog)

theorem answers_addFunction_param {decl : FunctionDecl Statement} {param : Parameter}
    (hparam : param ∈ decl.params) (h : s.structs.Degrades param.type)
    (hvoid : param.type.isVoid = false) :
    Answers s.log (addFunction (s, declared) decl).1.log
      ((addFunction (s, declared) decl).2 = declared)
      ((Warning.unknownParameterType param.type param.name decl.name).toDiagnostic
        decl.location) := by
  by_cases hname : decl.name ∈ declared.map (·.decl.name)
  · rw [addFunction_of_repeated hname]
    exact .inr ⟨rfl, _, reports_report _ _⟩
  · obtain ⟨log, hlog, hreturn⟩ := Declare.exec_checkKnown decl.returnType
      (.unknownReturnType decl.returnType decl.name) decl.location s
    obtain ⟨log', hreports, hparams⟩ :=
      Declare.exec_checkParams_of_degrades (s := { s with log }) decl hparam h hvoid
    obtain ⟨d, -, -, heq⟩ := addFunction_of_new hname hreturn hparams
    rw [heq]
    exact .inl (hreports.before hlog)

end UnitState

/-! ## Local variables -/

namespace Visit

variable {env : Environment} {context : FunctionContext} {w : Visit} {location : Option Location}
  {decl : VariableDecl Term}

/-- A local variable is never refused for its type, and the warning comes before its initializer,
whatever becomes of that. -/
theorem reports_variable (hnode : w.node = .statement (.variable location decl))
    (hinferred : decl.type.isInferred = false) (h : env.structs.Degrades decl.type) :
    w.state.log.Reports (w.after env context).log
      ((Warning.unknownVariableType decl.type decl.name).toDiagnostic decl.location) := by
  let d := (Warning.unknownVariableType decl.type decl.name).toDiagnostic decl.location
  let s₁ : BodyState := { w.state with log := w.state.log.report d }
  have hreports : w.state.log.Reports s₁.log d := reports_report _ d
  suffices s₁.log.Grows (w.after env context).log from hreports.after this
  have hwarn : exec (warnUnknown env decl) w.state = (.ok (), s₁) := by
    rw [warnUnknown, hinferred, h.isKnown_eq]
    rfl
  cases hinitial : decl.initializer with
  | none =>
    have hvalue : exec (variableValue env decl) w.state =
        (.ok (decl.type, env.structs.resolve decl.type, none), s₁) := by
      rw [variableValue, if_neg (by simp [hinferred]), declaredVariable]
      simp only [h.isKnown_eq, hinitial]
      rfl
    rw [after_variable hnode hvalue]
    exact (Move.bind hnode hvalue).grows
  | some initializer =>
    have hparts : w.parts env context = [⟨.term initializer, s₁⟩] := by
      rw [parts, hnode]
      show partsOfVariable env decl w.state = _
      rw [partsOfVariable, hinitial]
      exact behind_of_ok hwarn
    have hcourse : Course env context (w.Moves env) w.state (w.parts env context)
      (w.after env context) := w.course
    rw [hparts] at hcourse
    exact (grows_after ⟨.term initializer, s₁⟩).trans (grows_of_moves hcourse.2)

end Visit

/-! ## Programs -/

/-- In a pass over declarations, the state in which it is the turn of one of them. -/
def Due {σ δ : Type} (add : σ → δ → σ) (start : σ) (decls : List δ) (s : σ) (decl : δ) : Prop :=
  ∃ before after, decls = before ++ decl :: after ∧ s = before.foldl add start

/-- What holds behind every first part of a pass holds before and behind the turn. -/
theorem Due.around {σ δ : Type} {add : σ → δ → σ} {start s : σ} {decls : List δ} {decl : δ}
    {P : σ → Prop} (h : Due add start decls s decl)
    (hP : ∀ first, first <+: decls → P (first.foldl add start)) : P s ∧ P (add s decl) := by
  obtain ⟨before, after, rfl, rfl⟩ := h
  refine ⟨hP before (List.prefix_append ..), ?_⟩
  have hlast := hP (before ++ [decl]) ⟨after, by simp⟩
  rwa [List.foldl_append] at hlast

namespace Program

open UnitState

variable {p : Program} {options : LoweringOptions} {log first last : DiagnosticLog}
  {s s' : UnitState} {d : DeclaredFunction} {body : Statement} {refused : Prop}
  {finding : Diagnostic}

/-- The run comes from one log to the other, and what is answered in between stays. -/
structure Answered (p : Program) (options : LoweringOptions) (log first last : DiagnosticLog)
    (refused : Prop) (finding : Diagnostic) : Prop where
  start : log.Grows first
  answer : Answers first last refused finding
  stays : last.Grows (p.generate options log).2

/-- What is not refused has the diagnostic in the log that the run ends with. -/
theorem Answered.reports (h : p.Answered options log first last refused finding)
    (haccepted : ¬ refused) : log.Reports (p.generate options log).2 finding := by
  rcases h.answer with hreports | ⟨hrefused, -⟩
  · exact (hreports.before h.start).after h.stays
  · exact absurd hrefused haccepted

theorem Reaches.answered (hs : p.Reaches options log s) (hs' : p.Reaches options log s')
    (h : Answers s.log s'.log refused finding) :
    p.Answered options log s.log s'.log refused finding :=
  ⟨hs.grows.1, h, hs'.grows.2⟩

/-- The unit is there before and behind the body of a function. -/
theorem Turn.reaches (h : p.Turn options log s d body) :
    p.Reaches options log s ∧ p.Reaches options log (s.addBody options d body) := by
  obtain ⟨hbody, before, after, heq, rfl⟩ := h
  have hdue : Due (addBodyOf options) (p.declare options.moduleName log).1
      (p.declare options.moduleName log).2 _ d := ⟨before, after, heq, rfl⟩
  obtain ⟨hbefore, hbehind⟩ := hdue.around (P := p.Reaches options log) fun _ => .bodies
  rw [addBodyOf, hbody] at hbehind
  exact ⟨hbefore, hbehind⟩

/-- What is reported inside of a body stays. -/
theorem Turn.answered (h : p.Turn options log s d body) {w : Visit}
    (hw : (s.bodyVisit d body).Contains (s.environment d) (context d) w)
    (hreports : w.state.log.Reports (w.after (s.environment d) (context d)).log finding) :
    p.Answered options log w.state.log (w.after (s.environment d) (context d)).log False
      finding := by
  obtain ⟨hbefore, hbehind⟩ := h.reaches
  obtain ⟨hto, hfrom⟩ := Visit.grows_inside hw
  rw [after_bodyVisit (h.sound.rooted.environment d)] at hfrom
  exact ⟨hbefore.grows.1.trans hto, .inl hreports,
    (hfrom.trans (grows_addBody options s d body)).trans hbehind.grows.2⟩

/-- No type becomes a byte in silence, except for void as the type of a parameter. Wherever a
field, a global variable, a result, a parameter or a local variable has a declared type that
nothing was declared for by then, a warning is reported for that declaration and stays in the log,
unless the declaration is refused with an error and leaves the table as it was. For a local
variable the warning is reported in any case. Void is no such type if it is the type of a result. -/
theorem fallback_reported (p : Program) (options : LoweringOptions) (log : DiagnosticLog) :
    (∀ s decl, Due addStruct (p.interfaces.foldl addInterface (initial options.moduleName log))
        p.structs s decl →
      ∀ field ∈ decl.fields, s.structs.Degrades field.type →
        p.Answered options log s.log (s.addStruct decl).log ((s.addStruct decl).structs = s.structs)
          ((Warning.unknownFieldType field.type field.name decl.name).toDiagnostic
            decl.location)) ∧
    (∀ s decl, Due addGlobal (p.laidOut options.moduleName log) p.globals s decl →
      decl.type.isInferred = false → s.structs.Degrades decl.type →
        p.Answered options log s.log (s.addGlobal decl).log ((s.addGlobal decl).globals = s.globals)
          ((Warning.unknownGlobalType decl.type decl.name).toDiagnostic decl.location)) ∧
    (∀ s declared decl, Due addFunction
        (p.globals.foldl addGlobal (p.laidOut options.moduleName log), []) p.functions
        (s, declared) decl →
      (decl.returnType.isVoid = false → s.structs.Degrades decl.returnType →
        p.Answered options log s.log (addFunction (s, declared) decl).1.log
          ((addFunction (s, declared) decl).2 = declared)
          ((Warning.unknownReturnType decl.returnType decl.name).toDiagnostic decl.location)) ∧
      ∀ param ∈ decl.params, param.type.isVoid = false → s.structs.Degrades param.type →
        p.Answered options log s.log (addFunction (s, declared) decl).1.log
          ((addFunction (s, declared) decl).2 = declared)
          ((Warning.unknownParameterType param.type param.name decl.name).toDiagnostic
            decl.location)) ∧
    ∀ s d body, p.Turn options log s d body → ∀ w location decl,
      (s.bodyVisit d body).Contains (s.environment d) (context d) w →
      w.node = .statement (.variable location decl) →
      decl.type.isInferred = false → s.structs.Degrades decl.type →
        p.Answered options log w.state.log (w.after (s.environment d) (context d)).log False
          ((Warning.unknownVariableType decl.type decl.name).toDiagnostic decl.location) := by
  refine ⟨fun s decl hdue field hfield h => ?_, fun s decl hdue hinferred h => ?_,
    fun s declared decl hdue => ?_, fun s d body hturn w location decl hw hnode hinferred h =>
      hturn.answered hw (Visit.reports_variable hnode hinferred h)⟩
  · have hconsistent : s.structs.Consistent := by
      obtain ⟨before, -, -, rfl⟩ := hdue
      exact (bare_foldl_addStruct before (p.bare_interfaces options.moduleName log)).consistent
    obtain ⟨hs, hs'⟩ := hdue.around (P := p.Reaches options log) fun _ => .structs
    exact hs.answered hs' (answers_addStruct hconsistent hfield h)
  · obtain ⟨hs, hs'⟩ := hdue.around (P := p.Reaches options log) fun _ => .globals
    exact hs.answered hs' (answers_addGlobal hinferred h)
  · obtain ⟨hs, hs'⟩ := hdue.around (P := fun acc => p.Reaches options log acc.1)
      fun _ => .functions
    exact ⟨fun hvoid h => hs.answered hs' (answers_addFunction_return h hvoid),
      fun param hparam hvoid h => hs.answered hs' (answers_addFunction_param hparam h hvoid)⟩

/-- A type that nothing is declared for. -/
def missing : SourceType := .named "Missing"

def box : StructDecl := ⟨"Box", none, [⟨"content", missing, true⟩], none⟩

def spare : VariableDecl Term := ⟨"spare", missing, true, none, none⟩

def copy : VariableDecl Term := ⟨"copy", missing, true, some (.variable none "content"), none⟩

/-- A function that gives back its parameter, by way of a local variable. -/
def keep : FunctionDecl Statement where
  name := "keep"
  params := [⟨"content", missing⟩]
  returnType := missing
  body := some (.block none [.variable none copy, .ret none (some (.variable none "copy"))])
  owner := none
  location := none

/-- A program in which every declaration takes the type. -/
def careless : Program := ⟨[.struct box, .variable spare, .function keep]⟩

theorem fallback_reported_careless : ∃ s₁ s₂ s₃ declared s d body w,
    Due addStruct (initial "main" .empty) careless.structs s₁ box ∧
    s₁.structs.Degrades missing ∧
    Due addGlobal (careless.laidOut "main" .empty) careless.globals s₂ spare ∧
    s₂.structs.Degrades missing ∧
    Due addFunction (careless.globals.foldl addGlobal (careless.laidOut "main" .empty), [])
      careless.functions (s₃, declared) keep ∧
    s₃.structs.Degrades missing ∧
    Turn careless .standard .empty s d body ∧
    (s.bodyVisit d body).Contains (s.environment d) (context d) w ∧
    w.node = .statement (.variable none copy) ∧ s.structs.Degrades missing ∧
    ∀ warning ∈ [Warning.unknownFieldType missing "content" "Box",
        .unknownGlobalType missing "spare", .unknownReturnType missing "keep",
        .unknownParameterType missing "content" "keep", .unknownVariableType missing "copy"],
      DiagnosticLog.empty.Reports (careless.generate .standard .empty).2
        (warning.toDiagnostic none) := by
  obtain ⟨s₁, hs₁, h₁, haccepted₁⟩ : ∃ s₁,
      Due addStruct (initial "main" .empty) careless.structs s₁ box ∧
      s₁.structs.Degrades missing ∧ ¬ (s₁.addStruct box).structs = s₁.structs :=
    ⟨_, ⟨[], [], rfl, rfl⟩, ⟨rfl, by decide +kernel, by decide +kernel⟩, by decide +kernel⟩
  obtain ⟨s₂, hs₂, h₂, haccepted₂⟩ : ∃ s₂,
      Due addGlobal (careless.laidOut "main" .empty) careless.globals s₂ spare ∧
      s₂.structs.Degrades missing ∧ ¬ (s₂.addGlobal spare).globals = s₂.globals :=
    ⟨_, ⟨[], [], rfl, rfl⟩, ⟨rfl, by decide +kernel, by decide +kernel⟩, by decide +kernel⟩
  obtain ⟨s₃, declared, hs₃, h₃, haccepted₃⟩ : ∃ s₃ declared,
      Due addFunction (careless.globals.foldl addGlobal (careless.laidOut "main" .empty), [])
        careless.functions (s₃, declared) keep ∧
      s₃.structs.Degrades missing ∧ ¬ (addFunction (s₃, declared) keep).2 = declared :=
    ⟨_, _, ⟨[], [], rfl, rfl⟩, ⟨rfl, by decide +kernel, by decide +kernel⟩,
      fun h => absurd (congrArg List.length h) (by decide +kernel)⟩
  obtain ⟨s, d, body, w, hturn, hw, hnode, h⟩ : ∃ s d body w,
      Turn careless .standard .empty s d body ∧
      (s.bodyVisit d body).Contains (s.environment d) (context d) w ∧
      w.node = .statement (.variable none copy) ∧ s.structs.Degrades missing :=
    ⟨_, _, _, _, ⟨rfl, [], [], rfl, rfl⟩, .single (List.mem_cons_self ..), rfl,
      ⟨rfl, by decide +kernel, by decide +kernel⟩⟩
  obtain ⟨hfields, hglobals, hfunctions, hlocals⟩ :=
    fallback_reported careless .standard .empty
  refine ⟨s₁, s₂, s₃, declared, s, d, body, w, hs₁, h₁, hs₂, h₂, hs₃, h₃, hturn, hw, hnode, h, ?_⟩
  simp only [List.forall_mem_cons]
  refine ⟨(hfields s₁ box hs₁ _ (List.mem_cons_self ..) h₁).reports haccepted₁,
    (hglobals s₂ spare hs₂ rfl h₂).reports haccepted₂,
    ((hfunctions s₃ declared keep hs₃).1 rfl h₃).reports haccepted₃,
    ((hfunctions s₃ declared keep hs₃).2 _ (List.mem_cons_self ..) rfl h₃).reports haccepted₃,
    (hlocals s d body hturn w none copy hw hnode rfl h).reports id, by simp⟩

/-- A function with a parameter of type void. -/
def takesVoid : Arena where
  exprs := #[]
  stmts := #[]
  items := [.function ⟨"f", [⟨"x", .named "void"⟩], .named "void", none, none, none⟩]

/-- The parameter becomes a byte, and nothing is reported. -/
theorem void_parameter_silent : ∃ p s decl, takesVoid.expand = .ok p ∧
    Due addFunction (p.globals.foldl addGlobal (p.laidOut "main" .empty), []) p.functions
      (s, []) decl ∧
    ⟨"x", .named "void"⟩ ∈ decl.params ∧ s.structs.Degrades (.named "void") ∧
    (addFunction (s, []) decl).2.map (·.signature.paramTypes) = [[.i8]] ∧
    (p.generate .standard .empty).2.entries = [] :=
  ⟨_, _, _, rfl, ⟨[], [], rfl, rfl⟩, List.mem_cons_self .., ⟨rfl, by decide +kernel,
    by decide +kernel⟩, rfl, rfl⟩

end Program

end SsaLowering
