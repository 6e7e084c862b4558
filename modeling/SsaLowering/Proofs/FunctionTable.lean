import SsaLowering.Proofs.Calls
import SsaLowering.Proofs.FirstDeclarations

/-!
# The functions of a module

The predeclared functions come first, and behind them the functions of the program, in the order in
which their names are declared first. A predeclared function that the program declares stays at its
place. A function of the program is defined if it has a body and no fault of it is reported.
-/

namespace SsaLowering

namespace CodeModule

/-- A function takes the place of the one with its name, or a new one. -/
theorem names_replaceIn (f : FunctionDef) (functions : List FunctionDef) :
    (replaceIn f functions).map (·.name) = if f.name ∈ functions.map (·.name)
      then functions.map (·.name) else functions.map (·.name) ++ [f.name] := by
  induction functions with
  | nil => rfl
  | cons e functions ih =>
    by_cases he : e.name = f.name
    · rw [replaceIn, if_pos (by simpa using he)]
      simp [he]
    · rw [replaceIn, if_neg (by simpa using he), List.map_cons, ih]
      by_cases hmem : f.name ∈ functions.map (·.name)
      · simp [hmem]
      · simp [hmem, Ne.symm he]

end CodeModule

/-- The log is longer than before. -/
theorem DiagnosticLog.report_ne (log : DiagnosticLog) (d : Diagnostic) : log.report d ≠ log := by
  intro heq
  have hentries : log.entries ++ [d] = log.entries := congrArg DiagnosticLog.entries heq
  simp at hentries

namespace UnitState

variable {s : UnitState} {d : DeclaredFunction} {body : Statement} {f : FunctionDef}

/-- The functions of the program are added to those that are there. -/
theorem names_foldl_addFunction (s : UnitState) (decls : List (FunctionDecl Statement)) :
    (decls.foldl addFunction (s, [])).1.code.functions.map (·.name) =
      s.code.functions.map (·.name) ++ ((firstsBy (·.name) decls).map (·.name)).filter
        (· ∉ s.code.functions.map (·.name)) := by
  induction decls using List.reverseRecOn with
  | nil => simp
  | append_singleton decls decl ih =>
    have hdecls := Program.decls_foldl_addFunction s decls
    rw [List.foldl_append, List.foldl_cons, List.foldl_nil, firstsBy_append_singleton]
    generalize decls.foldl UnitState.addFunction (s, []) = acc at ih hdecls ⊢
    obtain ⟨s', declared⟩ := acc
    have hnames : declared.map (·.decl.name) = (firstsBy (·.name) decls).map (·.name) := by
      rw [← hdecls, List.map_map]
      rfl
    rcases s'.addFunction_cases declared decl with
      ⟨hmem, e, -, heq⟩ | ⟨hmem, d, log, -, rfl, -, heq⟩
    all_goals
      have hfirst := hmem
      rw [hnames, mem_map_firstsBy] at hfirst
      rw [heq]
    · rw [if_pos hfirst]
      exact ih
    · rw [hnames] at hmem
      dsimp only at ih ⊢
      rw [if_neg hfirst, CodeModule.replaceFunction, CodeModule.names_replaceIn, ih, List.map_append,
        List.filter_append, List.map_singleton, show d.declaration.name = d.decl.name from rfl]
      -- The name is new among the functions of the program, so only the others matter.
      by_cases hold : d.decl.name ∈ s.code.functions.map (·.name)
      · have hfilter : [d.decl.name].filter (· ∉ s.code.functions.map (·.name)) = [] := by
          simpa using hold
        rw [hfilter, List.append_nil, if_pos (List.mem_append_left _ hold)]
      · have hfilter : [d.decl.name].filter (· ∉ s.code.functions.map (·.name)) =
            [d.decl.name] := by
          simpa using hold
        rw [hfilter, ← List.append_assoc, if_neg fun h => ?_]
        rcases List.mem_append.mp h with h | h
        · exact hold h
        · exact hmem (List.mem_filter.mp h).1

/-- A body leaves the names of the functions as they are. -/
theorem names_addBody (hf : (s.lowerBody d body).builder.function = some f)
    (hname : f.name ∈ s.code.functions.map (·.name)) (options : LoweringOptions) :
    (s.addBody options d body).code.functions.map (·.name) = s.code.functions.map (·.name) := by
  cases hfault : f.finalize.fault? with
  | some fault => rw [addBody_of_fault hf hfault]
  | none =>
    rw [addBody_of_sound hf hfault]
    exact (CodeModule.names_replaceIn ..).trans (if_pos hname)

/-- Declarations of other functions leave a function as it is. -/
theorem function?_foldl_addFunction (acc : UnitState × List DeclaredFunction)
    (decls : List (FunctionDecl Statement)) {name : String} (hname : name ∉ decls.map (·.name)) :
    (decls.foldl addFunction acc).1.code.function? name = acc.1.code.function? name := by
  refine List.foldlRecOn (motive := fun acc' : UnitState × List DeclaredFunction =>
    acc'.1.code.function? name = acc.1.code.function? name) decls _ rfl ?_
  rintro ⟨s, declared⟩ hs decl hdecl
  rcases s.addFunction_cases declared decl with ⟨-, e, -, heq⟩ | ⟨-, d, log, -, rfl, -, heq⟩
  all_goals rw [heq]
  · exact hs
  · have hne : d.declaration.name ≠ name := fun h => hname (h ▸ List.mem_map_of_mem hdecl)
    exact (CodeModule.function?_replaceFunction ..).trans ((if_neg hne).trans hs)

end UnitState

namespace Program

open UnitState

variable {p : Program} {options : LoweringOptions} {log : DiagnosticLog} {s : UnitState}
  {d : DeclaredFunction} {body : Statement}

/-- The names of the functions of a module, in order. -/
def functionTable (p : Program) : List String :=
  predeclared.map Prod.fst ++ ((firstsBy (·.name) p.functions).map (·.name)).filter
    (· ∉ predeclared.map Prod.fst)

theorem nodup_functionTable (p : Program) : p.functionTable.Nodup := by
  refine List.nodup_append.mpr ⟨by decide, (nodup_firstsBy _ _).filter _, ?_⟩
  rintro name hname _ hmem rfl
  exact absurd hname (by simpa using (List.mem_filter.mp hmem).2)

theorem names_declare_functions (p : Program) (moduleName : String) (log : DiagnosticLog) :
    (p.declare moduleName log).1.code.functions.map (·.name) = p.functionTable := by
  have hkeeps := p.keeps_declareGlobals (initial moduleName log)
  have hstart : (p.globals.foldl UnitState.addGlobal
      (p.laidOut moduleName log)).code.functions.map (·.name) = predeclared.map Prod.fst :=
    (congrArg (List.map (·.name)) hkeeps.functions).trans rfl
  have hnames := names_foldl_addFunction
    (p.globals.foldl UnitState.addGlobal (p.laidOut moduleName log)) p.functions
  rw [hstart] at hnames
  exact hnames

/-- The function of a turn has its place already. -/
theorem Turn.name_mem (h : p.Turn options log s d body) :
    d.decl.name ∈ s.code.functions.map (·.name) :=
  List.mem_map.mpr ⟨_, List.mem_of_find?_eq_some h.function?_eq, rfl⟩

theorem names_generate_functions (p : Program) (options : LoweringOptions) (log : DiagnosticLog) :
    (p.generate options log).1.functions.map (·.name) = p.functionTable := by
  obtain ⟨-, s, hnames, heq⟩ := p.induction_turns options log
    (motive := fun s => s.code.functions.map (·.name) = p.functionTable)
    (p.names_declare_functions _ log) fun s d body hturn hs => by
      obtain ⟨f, -, -, hf, ⟨blocks, hsignature⟩, -⟩ :=
        exists_draft_lowerBody (hturn.sound.rooted.environment d) body
      have hname : f.name ∈ s.code.functions.map (·.name) := by
        rw [hsignature]
        exact hturn.name_mem
      exact (names_addBody hf hname options).trans hs
  rw [heq]
  exact hnames

/-- A predeclared function that the program does not declare is the one that it was. -/
theorem function?_of_predeclared (p : Program) (options : LoweringOptions) (log : DiagnosticLog)
    {name : String} (hname : name ∉ p.functions.map (·.name)) :
    (p.generate options log).1.function? name =
      (predeclared.lookup name).map (·.declaration name none) := by
  have hkeeps := p.keeps_declareGlobals (initial options.moduleName log)
  have hdeclared : name ∉ (p.declare options.moduleName log).2.map (·.decl.name) := by
    have hnames : (p.declare options.moduleName log).2.map (·.decl.name) =
        (firstsBy (·.name) p.functions).map (·.name) := by
      rw [← p.decls_declare options.moduleName log, List.map_map]
      rfl
    rwa [hnames, mem_map_firstsBy]
  have hbodies := ((p.sound_declare options.moduleName log).foldl options
    (p.declare options.moduleName log).2).2 name hdeclared
  have hfunctions := function?_foldl_addFunction
    (p.globals.foldl UnitState.addGlobal (p.laidOut options.moduleName log), []) p.functions hname
  refine hbodies.trans (hfunctions.trans ?_)
  rw [CodeModule.function?, ← find?_declarations]
  exact congrArg (List.find? _) hkeeps.functions

/-- What a declaration of a function stands for. -/
def declaredAs (p : Program) (moduleName : String) (log : DiagnosticLog)
    (decl : FunctionDecl Statement) : DeclaredFunction :=
  ⟨decl, .ofSource (p.laidOut moduleName log).structs (decl.params.map (·.type)) decl.returnType
    false decl.owner⟩

/-- The first declarations of functions are the declared functions of the program. -/
theorem declared_eq (p : Program) (moduleName : String) (log : DiagnosticLog) :
    (p.declare moduleName log).2 =
      (firstsBy (·.name) p.functions).map (p.declaredAs moduleName log) := by
  obtain ⟨-, hknows⟩ := p.regular_declare (fun hfalse : False => hfalse.elim) moduleName log
  rw [← p.decls_declare moduleName log, List.map_map]
  refine (List.map_id _).symm.trans (List.map_congr_left fun d hd => ?_)
  exact congrArg (DeclaredFunction.mk d.decl) (hknows d hd).signature

/-- Behind the body of the function, a fault of it is reported. -/
def Rejects (p : Program) (options : LoweringOptions) (log : DiagnosticLog)
    (d : DeclaredFunction) : Prop :=
  ∃ s body fault, p.Turn options log s d body ∧ (s.addBody options d body).log =
    (s.bodyLog options d body).report
      (LoweringError.toDiagnostic ⟨.verification d.decl.name fault, d.decl.location⟩)

/-- What is in the module for a function of the program: its declaration, or a definition with the
declared signature. -/
structure Settles (p : Program) (options : LoweringOptions) (log : DiagnosticLog)
    (d : DeclaredFunction) (f : FunctionDef) : Prop where
  signature : ∃ blocks isExternal, f = { d.declaration with blocks, isExternal }
  sound : f.fault? = none
  declaration : f.isExternal = true → f = d.declaration
  definition : f.isExternal = false ↔ d.decl.body.isSome = true ∧ ¬ p.Rejects options log d

/-- A function without a body stays a declaration. -/
theorem function?_of_no_body (hd : d ∈ (p.declare options.moduleName log).2)
    (hbody : d.decl.body = none) :
    (p.generate options log).1.function? d.decl.name = some d.declaration := by
  have hdeclares := p.declares options.moduleName log
  have hfound := hdeclares.found d hd
  obtain ⟨before, after, heq⟩ := List.append_of_mem hd
  have hnodup := hdeclares.names_nodup
  rw [heq, List.map_append, List.map_cons, List.nodup_append, List.nodup_cons] at hnodup
  have hbefore := (p.sound_declare options.moduleName log).foldl options before
  have hlast := (hbefore.1.foldl options after).2 _ hnodup.2.1.1
  have hname : d.decl.name ∉ before.map (·.decl.name) := fun hmem =>
    hnodup.2.2 _ hmem _ List.mem_cons_self rfl
  simp only [generate, heq, List.foldl_append, List.foldl_cons]
  rw [UnitState.addBodyOf, hbody, hlast, hbefore.2 _ hname, hfound]

/-- At its turn, a function is defined, or its fault is reported. -/
theorem Turn.function?_cases (h : p.Turn options log s d body) :
    (∃ f blocks, f = { d.declaration with blocks, isExternal := false } ∧ f.fault? = none ∧
      (p.generate options log).1.function? d.decl.name = some f ∧
      (s.addBody options d body).log = s.bodyLog options d body) ∨
    ∃ fault, (p.generate options log).1.function? d.decl.name = some d.declaration ∧
      (s.addBody options d body).log = (s.bodyLog options d body).report
        (LoweringError.toDiagnostic ⟨.verification d.decl.name fault, d.decl.location⟩) := by
  obtain ⟨g, -, -, hg, ⟨blocks, rfl⟩, -⟩ :=
    exists_draft_lowerBody (h.sound.rooted.environment d) body
  rw [h.generate_function?]
  cases hfault : FunctionDef.fault? (FunctionDef.finalize _) with
  | none =>
    rw [addBody_of_sound hg hfault]
    exact .inl ⟨_, _, rfl, hfault, (CodeModule.function?_replaceFunction ..).trans (if_pos rfl), rfl⟩
  | some fault =>
    rw [addBody_of_fault hg hfault]
    exact .inr ⟨fault, h.function?_eq, rfl⟩

/-- In the end, all functions of the program are settled. -/
theorem exists_settles (hd : d ∈ (p.declare options.moduleName log).2) :
    ∃ f, (p.generate options log).1.function? d.decl.name = some f ∧
      p.Settles options log d f := by
  cases hbody : d.decl.body with
  | none =>
    exact ⟨_, function?_of_no_body hd hbody, ⟨_, _, rfl⟩, rfl, fun _ => rfl,
      by simp [hbody, DeclaredFunction.declaration, Signature.declaration, FunctionDef.declaration]⟩
  | some body =>
    obtain ⟨s, hturn⟩ := exists_turn hd hbody
    rcases hturn.function?_cases with ⟨f, blocks, rfl, hfault, hf, -⟩ | ⟨fault, hf, hlog⟩
    · refine ⟨_, hf, ⟨_, _, rfl⟩, hfault, (fun hext => by cases hext),
        fun _ => ⟨by simp [hbody], ?_⟩, fun _ => rfl⟩
      rintro ⟨s', body', fault, hturn', hlog⟩
      rcases hturn'.function?_cases with ⟨-, -, -, -, -, hlog'⟩ | ⟨-, hf', -⟩
      · exact DiagnosticLog.report_ne _ _ (hlog.symm.trans hlog')
      · have hext := congrArg FunctionDef.isExternal (Option.some.inj (hf.symm.trans hf'))
        cases hext
    · refine ⟨_, hf, ⟨_, _, rfl⟩, rfl, fun _ => rfl, (fun hext => by cases hext), fun h => ?_⟩
      exact absurd ⟨s, body, fault, hturn, hlog⟩ h.2

end Program

end SsaLowering
