import SsaLowering.Proofs.Findings
import SsaLowering.Proofs.StatementPlaces
import SsaLowering.Proofs.UnitTyping

/-!
# Where the findings about a program are placed

A declaration of a unit reports at its own place, or at an expression of its initializer. The body
of a function is lowered from a state in which no variable is left to be read, so the variables
that are never read are declared in it. Together, whatever is reported about a program stands at
one of its declarations or inside it.
-/

namespace SsaLowering

/-- The place of a function, and those of its body. -/
def FunctionDecl.locations (decl : FunctionDecl Statement) : List (Option Location) :=
  decl.location :: Statement.optionalLocations decl.body

theorem FunctionDecl.locations_subset_of_body {decl : FunctionDecl Statement} {body : Statement}
    (h : decl.body = some body) : body.locations ⊆ decl.locations := by
  rw [locations, h]
  exact List.subset_cons_self _ _

theorem Statement.allLocations_parts (body : Statement) :
    allLocations body.parts ⊆ body.locations := by
  cases body with
  | block => exact List.subset_cons_self _ _
  | _ => simp [parts, allLocations]

/-- The places of a declaration and of everything inside it. -/
def Declaration.locations : Declaration Term Statement → List (Option Location)
  | .interface decl => [decl.location]
  | .struct decl => [decl.location]
  | .function decl => decl.locations
  | .variable decl => decl.locations

/-- The places of a program. -/
def Program.locations (p : Program) : List (Option Location) :=
  p.items.flatMap Declaration.locations

/-! ## Initializers -/

namespace Fold

variable {α β : Type} {places places' : List (Option Location)} {x : Fold α}

/-- If the action fails, then at one of the places. -/
def Places (places : List (Option Location)) (x : Fold α) : Prop :=
  ∀ globals e, (exec x globals).1 = .error e → e.location ∈ places

theorem Places.mono (h : Places places x) (hsub : places ⊆ places') : Places places' x :=
  fun globals e he => hsub (h globals e he)

theorem Places.pure (a : α) : Places places (Pure.pure a : Fold α) := fun _ => nofun

theorem Places.throw {e : LoweringError} (he : e.location ∈ places) :
    Places places (throw e : Fold α) := by
  rintro _ _ ⟨⟩
  exact he

theorem Places.bind {f : α → Fold β} (hx : Places places x) (hf : ∀ a, Places places (f a)) :
    Places places (x >>= f) := by
  intro globals e he
  rcases hexec : exec x globals with ⟨e' | a, globals'⟩
  · rw [exec_bind_of_error hexec] at he
    obtain rfl := Except.error.inj he
    exact hx globals e' (congrArg Prod.fst hexec)
  · rw [exec_bind_of_ok hexec] at he
    exact hf a globals' e he

/-- An initializer fails at its own place or inside it, by recursion on the initializer. -/
theorem places_initializer (name : String) :
    (term : Term) → Places term.locations (initializer name term)
  | .literal location (.number numeral) => by
    rw [initializer]
    cases h : lowerNumeral numeral with
    | ok v => exact .pure v
    | error e =>
      refine .throw ?_
      rw [e.location_orAt, location_of_lowerNumeral h]
      exact List.mem_cons_self
  | .literal _ (.string _) => fun _ => nofun
  | .literal _ (.bool _) | .literal _ .null => .pure _
  | .unary location .minus operand => by
    rw [initializer]
    have hoperand := (places_initializer name operand).mono (List.subset_cons_self location _)
    refine hoperand.bind fun v => ?_
    split
    · exact .pure _
    · exact .pure _
    · exact .throw List.mem_cons_self
  | .cast location target operand => by
    rw [initializer]
    have hoperand := (places_initializer name operand).mono (List.subset_cons_self location _)
    split
    · refine hoperand.bind fun v => ?_
      split
      · exact .pure _
      · exact .throw List.mem_cons_self
    · exact .throw List.mem_cons_self
  | .variable .. | .call .. | .binary .. | .unary _ .logicalNot _ | .unary _ .preIncrement _
  | .unary _ .preDecrement _ | .unary _ .postIncrement _ | .unary _ .postDecrement _ | .alloc ..
  | .assign .. | .member .. => .throw List.mem_cons_self

end Fold

/-! ## Actions on a unit -/

/-- What the action reports stands at the given places, and if it fails, then there or at no
place. -/
def Declare.Confines {α : Type} (places : List (Option Location)) (x : Declare α) : Prop :=
  ∀ s : UnitState, s.log.Extends (·.location ∈ places) (exec x s).2.log ∧
    ∀ e, (exec x s).1 = .error e → e.location = none ∨ e.location ∈ places

namespace Declare.Confines

variable {α β : Type} {places : List (Option Location)} {x : Declare α}

theorem pure (a : α) : Confines places (Pure.pure a : Declare α) := fun s => ⟨.refl s.log, nofun⟩

theorem throw {e : LoweringError} (he : e.location = none ∨ e.location ∈ places) :
    Confines places (throw e : Declare α) := by
  refine fun s => ⟨.refl s.log, ?_⟩
  rintro _ ⟨⟩
  exact he

theorem get : Confines places (get : Declare UnitState) := fun s => ⟨.refl s.log, nofun⟩

theorem bind {f : α → Declare β} (hx : Confines places x) (hf : ∀ a, Confines places (f a)) :
    Confines places (x >>= f) := by
  intro s
  obtain ⟨hlog, herror⟩ := hx s
  rcases hexec : exec x s with ⟨e | a, s₁⟩
  all_goals rw [hexec] at hlog herror
  · rw [exec_bind_of_error hexec]
    exact ⟨hlog, by rintro _ ⟨⟩; exact herror e rfl⟩
  · rw [exec_bind_of_ok hexec]
    obtain ⟨hlog', herror'⟩ := hf a s₁
    exact ⟨hlog.trans hlog', herror'⟩

theorem map (hx : Confines places x) (f : α → β) : Confines places (f <$> x) := by
  rw [← bind_pure_comp]
  exact hx.bind fun a => pure (f a)

/-- An action that is carried out unless a condition holds. -/
theorem guarded' {c : Prop} [Decidable c] {e : LoweringError} {next : Unit → Declare α}
    (he : e.location = none ∨ e.location ∈ places) (h : Confines places (next ())) :
    Confines places (if c then MonadExcept.throw e >>= next else next ()) := by
  split
  · exact fun s => ⟨.refl s.log, by rintro _ ⟨⟩; exact he⟩
  · exact h

theorem warn (w : Warning) {location : Option Location} (h : location ∈ places) :
    Confines places (Declare.warn w location) :=
  fun s => ⟨DiagnosticLog.extends_report s.log h, nofun⟩

theorem checkKnown (type : SourceType) (w : Warning) {location : Option Location}
    (h : location ∈ places) : Confines places (Declare.checkKnown type w location) := by
  refine get.bind fun s => ?_
  split
  · exact pure ()
  · exact warn w h

theorem forM {f : α → Declare Unit} (hf : ∀ a, Confines places (f a)) (l : List α) :
    Confines places (l.forM f) := by
  induction l with
  | nil => exact pure ()
  | cons a l ih => exact (hf a).bind fun _ => ih

/-- A step in the evaluation of an initializer reports nothing. -/
theorem fold {action : Fold α} (h : Fold.Places places action) :
    Confines places (Declare.fold action) := by
  intro s
  rw [exec_fold]
  exact ⟨.refl s.log, fun e he => .inr (h s.code.globals e he)⟩

theorem globalType {decl : VariableDecl Term} (initial : Option TypedValue)
    (h : decl.location ∈ places) : Confines places (Declare.globalType decl initial) := by
  unfold Declare.globalType
  split
  · cases initial with
    | some v => exact pure v.inferredType
    | none => exact throw (.inr h)
  · refine get.bind fun s => ?_
    split
    · exact pure decl.type
    · exact (warn _ h).bind fun _ => pure decl.type

theorem globalValue (decl : VariableDecl Term) (source : SourceType) (type : MachineType)
    (initial : Option TypedValue) :
    Confines places (Declare.globalValue decl source type initial) := by
  cases initial with
  | none => exact pure none
  | some v =>
    rw [Declare.globalValue]
    split
    · exact pure _
    · exact throw (.inl rfl)

theorem initial {decl : VariableDecl Term} (h : decl.locations ⊆ places) :
    Confines places
      (decl.initializer.mapM fun term => Declare.fold (Fold.initializer decl.name term)) := by
  cases hinitializer : decl.initializer with
  | none => exact pure none
  | some term =>
    have hsub : term.locations ⊆ places := fun _ hl =>
      h (VariableDecl.locations_subset_of_initializer hinitializer hl)
    exact (fold ((Fold.places_initializer decl.name term).mono hsub)).map some

theorem globalVariable {decl : VariableDecl Term} (h : decl.locations ⊆ places) :
    Confines places (Declare.globalVariable decl) := by
  have hdecl : decl.location ∈ places := h List.mem_cons_self
  unfold Declare.globalVariable
  refine get.bind fun s => guarded' (.inr hdecl) ?_
  refine (initial h).bind fun initial => (globalType initial hdecl).bind fun source => ?_
  refine get.bind fun s => (globalValue decl source _ initial).bind fun value s => ?_
  exact ⟨.refl _, nofun⟩

/-- The warnings about the types of a function stand at the function. -/
theorem function (declared : List String) {decl : FunctionDecl Statement}
    (h : decl.location ∈ places) : Confines places (Declare.function declared decl) := by
  unfold Declare.function
  refine guarded' (.inr h) ((checkKnown _ _ h).bind fun _ => ?_)
  refine (forM (fun _ => checkKnown _ _ h) _).bind fun _ => get.bind fun s t => ?_
  exact ⟨.refl _, nofun⟩

end Declare.Confines

/-! ## Declarations -/

namespace UnitState

open Lower BodyState

variable {places : List (Option Location)} {s : UnitState} {d : DeclaredFunction}
  {body : Statement} {options : LoweringOptions}

theorem extends_addInterface {decl : InterfaceDecl} (h : decl.location ∈ places) (s : UnitState) :
    s.log.Extends (·.location ∈ places) (s.addInterface decl).log := by
  cases hinterface : s.structs.hasInterface decl.name with
  | true =>
    rw [addInterface_of_repeated hinterface]
    exact DiagnosticLog.extends_report s.log h
  | false =>
    rw [addInterface_of_new hinterface]
    exact .refl s.log

theorem extends_addStruct {decl : StructDecl} (h : decl.location ∈ places) (s : UnitState) :
    s.log.Extends (·.location ∈ places) (s.addStruct decl).log := by
  have hwarnings : s.log.Extends (·.location ∈ places) ((s.structs.warnings decl).foldl
      (fun log w => log.report (w.toDiagnostic decl.location)) s.log) :=
    .foldl fun log w => DiagnosticLog.extends_report log h
  rw [addStruct, StructTable.define]
  cases hcontains : s.structs.contains decl.name with
  | true => exact DiagnosticLog.extends_report s.log h
  | false =>
    cases hlayout : s.structs.layout? decl with
    | some layout => exact hwarnings
    | none => exact hwarnings.trans (DiagnosticLog.extends_report _ h)

theorem extends_addGlobal {decl : VariableDecl Term} (h : decl.locations ⊆ places)
    (s : UnitState) : s.log.Extends (·.location ∈ places) (s.addGlobal decl).log := by
  obtain ⟨hlog, herror⟩ := Declare.Confines.globalVariable h s
  rcases hexec : exec (Declare.globalVariable decl) s with ⟨e | ⟨⟩, s'⟩
  all_goals rw [hexec] at hlog herror
  · rw [addGlobal_of_error hexec]
    refine hlog.trans (DiagnosticLog.extends_report s'.log ?_)
    exact LoweringError.location_orAt_mem (herror e rfl) (h List.mem_cons_self)
  · rw [addGlobal_of_ok hexec]
    exact hlog

/-- A function fails only if it is declared again. -/
theorem extends_addFunction {decl : FunctionDecl Statement} (h : decl.location ∈ places)
    (acc : UnitState × List DeclaredFunction) :
    acc.1.log.Extends (·.location ∈ places) (UnitState.addFunction acc decl).1.log := by
  obtain ⟨s, declared⟩ := acc
  rcases s.addFunction_cases declared decl with ⟨hname, -⟩ | ⟨-, d, log, -, -, -, heq⟩
  · rw [addFunction_of_repeated hname]
    exact DiagnosticLog.extends_report s.log h
  · have hlog := (Declare.Confines.function (declared.map (·.decl.name)) h s).1
    rcases hexec : exec (Declare.function (declared.map (·.decl.name)) decl) s with ⟨e | d', s'⟩
    · rw [addFunction_of_error hexec] at heq
      simpa using congrArg Prod.snd heq
    · rw [addFunction_of_ok hexec]
      rwa [hexec] at hlog

/-! ## Bodies -/

/-- Whatever is found in a body stands in it. -/
theorem confined_lowerBody (henv : (s.environment d).Rooted) (body : Statement) :
    (s.opened d).Confined body.locations (s.lowerBody d body) := by
  have hready : (s.bodyVisit d body).Ready := steady_opened
  have hstays : Confines (Statement.allLocations body.parts)
      (lowerBlock (s.environment d) (context d) body.parts) (s.opened d) := hready.staysAt henv
  obtain ⟨hexec, -⟩ := exists_laid_lowerBody henv body
  have hstate := hstays.1
  rw [hexec] at hstate
  exact hstate.mono body.allLocations_parts

/-- A variable that is never read is declared in the body. -/
theorem location_mem_of_unused (henv : (s.environment d).Rooted) {entry : String × Binding}
    (h : entry ∈ (s.lowerBody d body).scope.unused) : entry.2.location ∈ body.locations := by
  obtain ⟨hentry, hunused⟩ := List.mem_filter.mp h
  have hused : entry.2.used = false := by simpa using (Bool.and_eq_true_iff.mp hunused).1
  refine ((confined_lowerBody henv body).scope entry hentry hused).resolve_left fun hparam => ?_
  obtain ⟨_, _, _, -, -, -, heq⟩ := mem_parameterScope hparam
  rw [heq] at hused
  cases hused

theorem extends_addBody (henv : (s.environment d).Rooted) (hbody : d.decl.body = some body)
    (h : d.decl.locations ⊆ places) (options : LoweringOptions) :
    s.log.Extends (·.location ∈ places) (s.addBody options d body).log := by
  have hinside : body.locations ⊆ places := fun _ hl =>
    h (FunctionDecl.locations_subset_of_body hbody hl)
  have hlog : s.log.Extends (·.location ∈ places) (s.bodyLog options d body) := by
    have hlowered := ((confined_lowerBody henv body).mono hinside).log
    rw [bodyLog]
    split
    · exact List.foldlRecOn (motive := s.log.Extends (·.location ∈ places)) _ _ hlowered
        fun log hlog entry hentry => hlog.trans
          (DiagnosticLog.extends_report log (hinside (location_mem_of_unused henv hentry)))
    · exact hlowered
  obtain ⟨f, -, -, hf, -⟩ := exists_draft_lowerBody henv body
  cases hfault : f.finalize.fault? with
  | none =>
    rw [addBody_of_sound hf hfault]
    exact hlog
  | some fault =>
    rw [addBody_of_fault hf hfault]
    exact hlog.trans (DiagnosticLog.extends_report _ (h List.mem_cons_self))

end UnitState

/-! ## Whole programs -/

namespace Program

open UnitState

variable {p : Program}

theorem locations_subset {item : Declaration Term Statement} (h : item ∈ p.items) :
    item.locations ⊆ p.locations := fun _ hl => List.mem_flatMap.mpr ⟨item, h, hl⟩

theorem location_mem_of_interface {decl : InterfaceDecl} (h : decl ∈ p.interfaces) :
    decl.location ∈ p.locations := by
  obtain ⟨item, hitem, heq⟩ := List.mem_filterMap.mp h
  cases item <;> cases heq
  exact locations_subset hitem List.mem_cons_self

theorem location_mem_of_struct {decl : StructDecl} (h : decl ∈ p.structs) :
    decl.location ∈ p.locations := by
  obtain ⟨item, hitem, heq⟩ := List.mem_filterMap.mp h
  cases item <;> cases heq
  exact locations_subset hitem List.mem_cons_self

theorem locations_subset_of_global {decl : VariableDecl Term} (h : decl ∈ p.globals) :
    decl.locations ⊆ p.locations := by
  obtain ⟨item, hitem, heq⟩ := List.mem_filterMap.mp h
  cases item <;> cases heq
  exact locations_subset hitem

theorem locations_subset_of_function {decl : FunctionDecl Statement} (h : decl ∈ p.functions) :
    decl.locations ⊆ p.locations := by
  obtain ⟨item, hitem, heq⟩ := List.mem_filterMap.mp h
  cases item <;> cases heq
  exact locations_subset hitem

theorem extends_declare (p : Program) (moduleName : String) (log : DiagnosticLog) :
    log.Extends (·.location ∈ p.locations) (p.declare moduleName log).1.log := by
  have hinterfaces := List.foldlRecOn
    (motive := fun s : UnitState => log.Extends (·.location ∈ p.locations) s.log)
    p.interfaces addInterface (.refl (initial moduleName log).log)
    fun s hs decl hdecl => hs.trans (s.extends_addInterface (location_mem_of_interface hdecl))
  have hstructs := List.foldlRecOn
    (motive := fun s : UnitState => log.Extends (·.location ∈ p.locations) s.log)
    p.structs addStruct hinterfaces
    fun s hs decl hdecl => hs.trans (s.extends_addStruct (location_mem_of_struct hdecl))
  have hglobals := List.foldlRecOn
    (motive := fun s : UnitState => log.Extends (·.location ∈ p.locations) s.log)
    p.globals addGlobal hstructs
    fun s hs decl hdecl => hs.trans (s.extends_addGlobal (locations_subset_of_global hdecl))
  exact List.foldlRecOn
    (motive := fun acc : UnitState × List DeclaredFunction =>
      log.Extends (·.location ∈ p.locations) acc.1.log)
    p.functions UnitState.addFunction hglobals
    fun acc hacc decl hdecl => hacc.trans
      (extends_addFunction (locations_subset_of_function hdecl List.mem_cons_self) acc)

/-- Whatever is visited in a body stands inside the program. -/
theorem Turn.locations_subset {options : LoweringOptions} {log : DiagnosticLog} {s : UnitState}
    {d : DeclaredFunction} {body : Statement} {w : Visit} (h : p.Turn options log s d body)
    (hw : (s.bodyVisit d body).Contains (s.environment d) (context d) w) :
    w.node.locations ⊆ p.locations := by
  intro l hl
  have hbody : l ∈ body.locations := body.allLocations_parts (hw.locations_subset hl)
  exact locations_subset_of_function (mem_functions_of_mem_declare h.mem)
    (FunctionDecl.locations_subset_of_body h.body_eq hbody)

/-- Whatever is reported about a program stands at one of its declarations or inside it. -/
theorem extends_generate (p : Program) (options : LoweringOptions) (log : DiagnosticLog) :
    log.Extends (·.location ∈ p.locations) (p.generate options log).2 := by
  obtain ⟨-, s, hs, heq⟩ := p.induction_turns options log
    (motive := fun s => log.Extends (·.location ∈ p.locations) s.log)
    (p.extends_declare options.moduleName log) fun s d body hturn hs =>
      have hdecl := locations_subset_of_function (mem_functions_of_mem_declare hturn.mem)
      hs.trans (extends_addBody (hturn.sound.rooted.environment d) hturn.body_eq hdecl options)
  rw [heq]
  exact hs

end Program

end SsaLowering
