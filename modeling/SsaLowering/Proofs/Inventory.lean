import SsaLowering.Proofs.FunctionTable
import SsaLowering.Proofs.ReachedTexts

/-!
# What a module holds

No declaration is lost and none counts twice. The functions, the types and the global variables of
a module are those of the first declarations of its program, together with the predeclared functions
and the constants of the texts that were reached. What is declared again is reported and changes
nothing else.
-/

namespace SsaLowering

open StringPool

namespace UnitState

variable {s : UnitState} {options : LoweringOptions} {d : DeclaredFunction} {body : Statement}

/-! ## Global variables and bodies -/

/-- A body changes functions, global variables and the log only. -/
theorem addBody_keeps (options : LoweringOptions) (s : UnitState) (d : DeclaredFunction)
    (body : Statement) : (s.addBody options d body).structs = s.structs ∧
      (s.addBody options d body).code.types = s.code.types ∧
      (s.addBody options d body).code.globals = (s.lowerBody d body).globals := by
  unfold addBody
  dsimp only
  split
  · exact ⟨rfl, rfl, rfl⟩
  · split <;> exact ⟨rfl, rfl, rfl⟩

theorem interned_lowerBody (s : UnitState) (d : DeclaredFunction) (body : Statement) :
    Interned s.code.globals (s.lowerBody d body).globals := by
  rw [globals_lowerBody]
  exact (s.bodyVisit d body).interned_after

theorem isPrefix_addBodyOf (options : LoweringOptions) (s : UnitState) (d : DeclaredFunction) :
    s.code.globals <+: (s.addBodyOf options d).code.globals := by
  rw [UnitState.addBodyOf]
  split
  · rw [(addBody_keeps ..).2.2]
    exact (s.interned_lowerBody d _).isPrefix_of
  · exact List.prefix_rfl

theorem isPrefix_foldl_addBodyOf (options : LoweringOptions) (s : UnitState)
    (ds : List DeclaredFunction) :
    s.code.globals <+: (ds.foldl (addBodyOf options) s).code.globals :=
  List.foldlRecOn (motive := fun s' : UnitState => s.code.globals <+: s'.code.globals) ds _
    List.prefix_rfl fun s' hs d _ => hs.trans (isPrefix_addBodyOf options s' d)

/-- A function declaration changes functions and the log only. -/
theorem addFunction_keeps (acc : UnitState × List DeclaredFunction)
    (decls : List (FunctionDecl Statement)) :
    (decls.foldl addFunction acc).1.structs = acc.1.structs ∧
      (decls.foldl addFunction acc).1.code.types = acc.1.code.types ∧
      (decls.foldl addFunction acc).1.code.globals = acc.1.code.globals := by
  refine List.foldlRecOn (motive := fun acc' : UnitState × List DeclaredFunction =>
    acc'.1.structs = acc.1.structs ∧ acc'.1.code.types = acc.1.code.types ∧
      acc'.1.code.globals = acc.1.code.globals) decls _ ⟨rfl, rfl, rfl⟩ ?_
  rintro ⟨s, declared⟩ hs decl -
  rcases s.addFunction_cases declared decl with ⟨-, e, -, heq⟩ | ⟨-, d, log, -, -, -, heq⟩
  all_goals
    rw [heq]
    exact hs

theorem types_addGlobal (s : UnitState) (decl : VariableDecl Term) :
    (s.addGlobal decl).code.types = s.code.types := by
  obtain ⟨globals, log, -, -, ⟨e, -, heq⟩ | ⟨-, source, value, -, heq⟩⟩ := s.addGlobal_cases decl
  all_goals rw [heq]
  rfl

/-! ## Types -/

/-- The named types of a unit are those of its structs, in the order of their names. -/
structure Typed (s : UnitState) : Prop where
  perm : s.code.types.Perm (s.structs.layouts.map fun layout => (layout.name, layout.type))
  sorted : s.code.types.Pairwise fun a b => a.1 < b.1

theorem Typed.of_eq {s' : UnitState} (h : s.Typed) (htypes : s'.code.types = s.code.types)
    (hstructs : s'.structs.layouts = s.structs.layouts) : s'.Typed :=
  ⟨by rw [htypes, hstructs]; exact h.perm, htypes ▸ h.sorted⟩

theorem Typed.addStruct (h : s.Typed) (hc : s.structs.Consistent) (decl : StructDecl) :
    (s.addStruct decl).Typed := by
  rcases addStruct_cases hc decl with ⟨e, -, heq⟩ | ⟨layout, log, hnew, hlayout, -, heq⟩
  all_goals rw [heq]
  · exact h.of_eq rfl rfl
  · have hname : layout.name = decl.name := (StructTable.draws_of_layout? hlayout).name
    have hnew : layout.name ∉ s.code.types.map Prod.fst := by
      rw [(h.perm.map Prod.fst).mem_iff, List.map_map, hname]
      intro hmem
      rw [(StructTable.contains_iff _ _).mpr hmem] at hnew
      cases hnew
    refine ⟨?_, CodeModule.sorted_insertType _ _ h.sorted⟩
    refine (CodeModule.perm_insertType _ hnew).trans ((h.perm.cons _).trans ?_)
    rw [List.map_append, List.map_singleton]
    exact (List.perm_append_singleton _ _).symm

end UnitState

/-! ## The module -/

namespace Program

open UnitState

variable {p : Program} {options : LoweringOptions} {log : DiagnosticLog} {s : UnitState}
  {d : DeclaredFunction} {body : Statement}

theorem typed_laidOut (p : Program) (moduleName : String) (log : DiagnosticLog) :
    (p.laidOut moduleName log).Typed := by
  have hinterfaces : (p.interfaces.foldl UnitState.addInterface (initial moduleName log)).Typed :=
    List.foldlRecOn (motive := UnitState.Typed) p.interfaces _ ⟨.refl _, .nil⟩
      fun s hs decl _ => by
        rcases s.addInterface_cases decl with ⟨e, -, heq⟩ | ⟨interfaces, heq⟩
        all_goals
          rw [heq]
          exact hs.of_eq rfl rfl
  exact (List.foldlRecOn (motive := fun s : UnitState => s.Bare False ∧ s.Typed) p.structs _
    ⟨p.bare_interfaces moduleName log, hinterfaces⟩ fun s hs decl _ =>
      ⟨hs.1.addStruct False.elim, hs.2.addStruct hs.1.consistent decl⟩).2

/-- A text is reached: the initializer of a global variable comes to it, or the lowering of a body
visits a literal of it. -/
inductive ReachesText (p : Program) (options : LoweringOptions) (log : DiagnosticLog)
    (text : String) : Prop
  | global : (p.laidOut options.moduleName log).Needs p.globals text →
    ReachesText p options log text
  | body {s : UnitState} {d : DeclaredFunction} {body : Statement} :
    p.Turn options log s d body → (s.bodyVisit d body).Reaches (s.environment d) (context d) text →
    ReachesText p options log text

/-- Behind the declarations of a program, its types and global variables are listed. -/
theorem lists_declare (p : Program) (moduleName : String) (log : DiagnosticLog) :
    (p.declare moduleName log).1.Typed ∧
      (p.declare moduleName log).1.structs = (p.laidOut moduleName log).structs ∧
      (p.declare moduleName log).1.Lists (p.acceptedGlobals moduleName log)
        ((p.laidOut moduleName log).Needs p.globals) := by
  have hlaid : (p.laidOut moduleName log).Bare False := p.bare_laidOut False.elim moduleName log
  obtain ⟨hstructs, hlists⟩ := lists_foldl_addGlobal hlaid.constants p.globals
  have htypes : (p.globals.foldl UnitState.addGlobal (p.laidOut moduleName log)).code.types =
      (p.laidOut moduleName log).code.types :=
    List.foldlRecOn (motive := fun s : UnitState =>
      s.code.types = (p.laidOut moduleName log).code.types) p.globals _ rfl
      fun s hs decl _ => (s.types_addGlobal decl).trans hs
  obtain ⟨hstructs', htypes', hglobals'⟩ := addFunction_keeps
    (p.globals.foldl UnitState.addGlobal (p.laidOut moduleName log), []) p.functions
  have hall : (p.declare moduleName log).1.structs = (p.laidOut moduleName log).structs :=
    hstructs'.trans hstructs
  exact ⟨(p.typed_laidOut moduleName log).of_eq (htypes'.trans htypes)
    (congrArg StructTable.layouts hall), hall, hlists.of_eq hstructs' hglobals'⟩

/-- What a body adds to the pool stays there. -/
theorem Turn.isPrefix_generate (h : p.Turn options log s d body) :
    (s.lowerBody d body).globals <+: (p.generate options log).1.globals := by
  obtain ⟨hbody, before, after, heq, rfl⟩ := h
  have hlast := isPrefix_foldl_addBodyOf options
    ((before.foldl (addBodyOf options) (p.declare options.moduleName log).1).addBodyOf options d)
    after
  simp only [generate, heq, List.foldl_append, List.foldl_cons]
  rw [UnitState.addBodyOf, hbody] at hlast ⊢
  dsimp only at hlast ⊢
  rwa [(addBody_keeps ..).2.2] at hlast

/-- A body adds the texts that it reaches. -/
theorem Turn.mem_texts (h : p.Turn options log s d body) {text : String}
    (htext : text ∈ texts (s.lowerBody d body).globals) :
    text ∈ texts s.code.globals ∨ p.ReachesText options log text := by
  rw [globals_lowerBody, Visit.mem_texts_after] at htext
  exact htext.imp_right fun hreached => .body h hreached

theorem Turn.pooled (h : p.Turn options log s d body) : Pooled s.code.globals :=
  (p.induction_turns options log (motive := fun s => Pooled s.code.globals)
    (p.lists_declare _ log).2.2.pooled fun s d body _ hs => by
      rw [(addBody_keeps ..).2.2]
      exact (s.interned_lowerBody d body).pooled hs).1 s d body h

/-- The types and global variables of a module are listed. -/
theorem lists_generate (p : Program) (options : LoweringOptions) (log : DiagnosticLog) :
    ∃ s : UnitState, p.generate options log = (s.code, s.log) ∧ s.Typed ∧
      s.structs = (p.laidOut options.moduleName log).structs ∧
      s.Lists (p.acceptedGlobals options.moduleName log) (p.ReachesText options log) := by
  obtain ⟨htyped, hstructs, hlists⟩ := p.lists_declare options.moduleName log
  obtain ⟨-, s, ⟨htyped, hstructs, hlists, hreached⟩, heq⟩ := p.induction_turns options log
    (motive := fun s => s.Typed ∧ s.structs = (p.laidOut options.moduleName log).structs ∧
      s.Lists (p.acceptedGlobals options.moduleName log) (· ∈ texts s.code.globals) ∧
      ∀ text ∈ texts s.code.globals, p.ReachesText options log text)
    ⟨htyped, hstructs, hlists.imp fun text => (hlists.texts text).symm,
      fun text htext => .global ((hlists.texts text).mp htext)⟩
    fun s d body hturn ⟨htyped, hstructs, hlists, hreached⟩ => by
      obtain ⟨hstructs', htypes', hglobals'⟩ := addBody_keeps options s d body
      rw [hglobals']
      refine ⟨htyped.of_eq htypes' (congrArg StructTable.layouts hstructs'),
        hstructs'.trans hstructs, ?_, fun text htext => ?_⟩
      · exact (hlists.intern (s.interned_lowerBody d body)).of_eq hstructs' hglobals'
      · exact (hturn.mem_texts htext).elim (hreached text) id
  refine ⟨s, heq, htyped, hstructs, hlists.imp fun text => ⟨hreached text, fun h => ?_⟩⟩
  have hcode : s.code = (p.generate options log).1 := by rw [heq]
  rw [hcode]
  -- What was reached at some time is in the pool, which only grows.
  cases h with
  | global hneeds =>
    refine texts_subset ?_ (((p.lists_declare _ log).2.2.texts text).mpr hneeds)
    exact isPrefix_foldl_addBodyOf options _ _
  | @body s d body hturn hreaches =>
    refine texts_subset hturn.isPrefix_generate ?_
    rw [globals_lowerBody, Visit.mem_texts_after]
    exact .inr hreaches

/-- What is in the module of a program. -/
structure Inventory (p : Program) (options : LoweringOptions) (log : DiagnosticLog)
    (m : CodeModule) : Prop where
  /-- The predeclared functions come first, and behind them those that only the program declares,
  in the order of their first declarations. Each name occurs once. -/
  functions : m.functions.map (·.name) = predeclared.map Prod.fst ++
    ((firstsBy (·.name) p.functions).map (·.name)).filter (· ∉ predeclared.map Prod.fst)
  functions_nodup : (m.functions.map (·.name)).Nodup
  /-- The program declares no function of the name, so the predeclared one stays. -/
  untouched : ∀ name ∉ p.functions.map (·.name),
    m.function? name = (predeclared.lookup name).map (·.declaration name none)
  /-- The first declaration counts, also for the name of a predeclared function. -/
  declared : ∀ decl ∈ firstsBy (·.name) p.functions, ∃ f, m.function? decl.name = some f ∧
    p.Settles options log (p.declaredAs options.moduleName log decl) f
  sound : ∀ f ∈ m.functions, f.fault? = none
  /-- The types are those of the first declarations of structs, in the order of their names. -/
  types : ∃ layouts, List.Forall₂ StructLayout.Draws layouts (firstsBy (·.name) p.structs) ∧
    m.types.Perm (layouts.map fun layout => (layout.name, layout.type))
  types_sorted : m.types.Pairwise fun a b => a.1 < b.1
  /-- The accepted global variables are there in order. Their names are different. -/
  globals : List.Forall₂ (Enters (p.laidOut options.moduleName log).structs m.globals)
    (m.globals.filter fun g => (text? g).isNone) (p.acceptedGlobals options.moduleName log)
  globals_nodup : ((p.acceptedGlobals options.moduleName log).map (·.name)).Nodup
  /-- The other global variables are the private constants of different texts: of all texts that
  were reached. -/
  constants : m.globals.filter (fun g => (text? g).isSome) = (texts m.globals).mapIdx constant
  texts_nodup : (texts m.globals).Nodup
  mem_texts : ∀ text, text ∈ texts m.globals ↔ p.ReachesText options log text
  /-- Where a body uses a text, its constant is there, and stays at its place. -/
  uses : ∀ s d body, p.Turn options log s d body → ∀ w location text,
    (s.bodyVisit d body).Contains (s.environment d) (context d) w →
    w.node = .term (.literal location (.string text)) →
    (w.after (s.environment d) (context d)).globals <+: m.globals ∧
      ∃ c ∈ (w.after (s.environment d) (context d)).globals, text? c = some text ∧
        exec (Lower.lowerTerm (s.environment d) (.literal location (.string text))) w.state =
          (.ok (stringValue c.name), w.after (s.environment d) (context d))

/-- The log has one entry more, the error that something was declared before. The rest of the state
is the same. -/
structure ReportsRedefinition (entity : Entity) (name : String) (location : Option Location)
    (s s' : UnitState) : Prop where
  entries : s'.log.entries = s.log.entries ++
    [⟨.error, "Redefinition of " ++ entity.text ++ " '" ++ name ++ "'", location, []⟩]
  rest : s' = { s with log := s'.log }

theorem reportsRedefinition_reportError (entity : Entity) (name : String)
    (location : Option Location) (s : UnitState) :
    ReportsRedefinition entity name location s
      (s.reportError ⟨.redefinition entity name, location⟩) := ⟨rfl, rfl⟩

/-- The pass refuses a declaration that is repeated. -/
def Refuses {σ δ : Type} (add : σ → δ → σ) (start : σ) (decls : List δ)
    (repeated : List δ → δ → Prop) (refused : δ → σ → σ → Prop) : Prop :=
  ∀ before decl after, decls = before ++ decl :: after → repeated before decl →
    refused decl (before.foldl add start) (add (before.foldl add start) decl)

/-- What is declared again is reported once, and changes nothing else. -/
structure RefusesRepeated (p : Program) (moduleName : String) (log : DiagnosticLog) : Prop where
  interfaces : Refuses addInterface (initial moduleName log) p.interfaces
    (fun before decl => decl.name ∈ before.map (·.name))
    fun decl => ReportsRedefinition .interface decl.name decl.location
  structs : Refuses addStruct (p.interfaces.foldl addInterface (initial moduleName log)) p.structs
    (fun before decl => decl.name ∈ before.map (·.name))
    fun decl => ReportsRedefinition .struct decl.name decl.location
  globals : Refuses addGlobal (p.laidOut moduleName log) p.globals
    (fun before decl => decl.name ∈ ((p.laidOut moduleName log).accepted before).map (·.name))
    fun decl => ReportsRedefinition .global decl.name decl.location
  functions : Refuses addFunction
    (p.globals.foldl UnitState.addGlobal (p.laidOut moduleName log), []) p.functions
    (fun before decl => decl.name ∈ before.map (·.name))
    fun decl acc acc' =>
      ReportsRedefinition .function decl.name decl.location acc.1 acc'.1 ∧ acc'.2 = acc.2

theorem refusesRepeated (p : Program) (moduleName : String) (log : DiagnosticLog) :
    p.RefusesRepeated moduleName log where
  interfaces := by
    intro before decl after _ hname
    rw [addInterface_of_repeated ((hasInterface_iff _ _).mpr ?_)]
    · exact reportsRedefinition_reportError ..
    · rwa [interfaces_foldl_addInterface, mem_map_firstsBy]
  structs := by
    intro before decl after _ hname
    rw [addStruct_of_repeated ((StructTable.contains_iff _ _).mpr ?_)]
    · exact reportsRedefinition_reportError ..
    · rwa [StructTable.names_of_draws (p.draws_foldl_addStruct moduleName log before),
        mem_map_firstsBy]
  globals := by
    intro before decl after _ hname
    obtain ⟨other, hother, hname⟩ := List.mem_map.mp hname
    have hkey : declaredKey other ∈
        (before.foldl UnitState.addGlobal (p.laidOut moduleName log)).globals.map globalKey := by
      rw [keys_foldl_addGlobal]
      exact List.mem_append_left _ (List.mem_reverse.mpr (List.mem_map_of_mem hother))
    obtain ⟨entry, hentry, heq⟩ := List.mem_map.mp hkey
    have hentry' : entry.1 = decl.name := (congrArg Prod.fst heq).trans hname
    rw [addGlobal_of_repeated (Option.isSome_iff_ne_none.mpr fun hnone => ?_)]
    · exact reportsRedefinition_reportError ..
    · exact absurd hentry'.symm (bne_iff_ne.mp (List.lookup_eq_none_iff.mp hnone entry hentry))
  functions := by
    intro before decl after _ hname
    have hdecls := congrArg (List.map (·.name)) (decls_foldl_addFunction
      (p.globals.foldl UnitState.addGlobal (p.laidOut moduleName log)) before)
    rw [List.map_map] at hdecls
    rw [addFunction_of_repeated ?_]
    · exact ⟨reportsRedefinition_reportError .., rfl⟩
    · rw [show (·.decl.name) = (fun d : FunctionDecl Statement => d.name) ∘ DeclaredFunction.decl
        from rfl, hdecls, mem_map_firstsBy]
      exact hname

theorem inventory_generate (p : Program) (options : LoweringOptions) (log : DiagnosticLog) :
    p.Inventory options log (p.generate options log).1 := by
  obtain ⟨s, heq, htyped, hstructs, hlists⟩ := p.lists_generate options log
  have hcode : s.code = (p.generate options log).1 := by rw [heq]
  have hfunctions := p.names_generate_functions options log
  exact {
    functions := hfunctions
    functions_nodup := hfunctions ▸ p.nodup_functionTable
    untouched := fun name hname => p.function?_of_predeclared options log hname
    declared := by
      intro decl hdecl
      have hd : p.declaredAs options.moduleName log decl ∈
          (p.declare options.moduleName log).2 := by
        rw [p.declared_eq]
        exact List.mem_map_of_mem hdecl
      exact exists_settles hd
    sound := by
      intro f hf
      cases hext : f.isExternal with
      | true => simp [FunctionDef.fault?, hext]
      | false => exact (exists_draft_generate hf hext).2
    types := ⟨_, p.draws_laidOut _ log, hcode ▸ hstructs ▸ htyped.perm⟩
    types_sorted := hcode ▸ htyped.sorted
    globals := hcode ▸ hstructs ▸ hlists.entries
    globals_nodup := p.nodup_acceptedGlobals _ log
    constants := hcode ▸ hlists.pooled.literals_eq
    texts_nodup := hcode ▸ hlists.pooled.nodup
    mem_texts := hcode ▸ hlists.texts
    uses := by
      intro s d body hturn w location text hw hnode
      obtain ⟨hbefore, hafter⟩ := Visit.interned_inside hw
      rw [← globals_lowerBody] at hafter
      refine ⟨hafter.isPrefix_of.trans hturn.isPrefix_generate, ?_⟩
      obtain ⟨hexec, hglobals⟩ : exec (Lower.lowerTerm (s.environment d) _) w.state =
          (.ok _, w.after (s.environment d) (context d)) ∧ _ := Visit.exec_literal hnode
      obtain ⟨c, hc, htext, hname⟩ := (hbefore.pooled hturn.pooled).exists_constant text
      exact ⟨c, hglobals ▸ hc, htext, hname ▸ hexec⟩ }

/-- No declaration is lost and none counts twice, with or without errors: the module holds what
the first declarations stand for, and what is declared again is only reported. -/
theorem declarations_kept (p : Program) (options : LoweringOptions) (log : DiagnosticLog) :
    p.Inventory options log (p.generate options log).1 ∧
      p.RefusesRepeated options.moduleName log :=
  ⟨p.inventory_generate options log, p.refusesRepeated options.moduleName log⟩

end Program

end SsaLowering
