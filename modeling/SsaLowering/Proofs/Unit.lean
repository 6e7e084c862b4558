import SsaLowering.Proofs.Body
import SsaLowering.Proofs.Shape

/-!
# Units

The passes over the declarations of a unit leave every function of the program declared and
none defined. Then one body after the other is lowered. A body changes its own function
only, so what holds when it is its turn holds for the module in the end.
-/

namespace SsaLowering

namespace CodeModule

variable {f g : FunctionDef} {functions : List FunctionDef}

theorem eq_or_mem_of_mem_replaceIn (h : g ∈ replaceIn f functions) : g = f ∨ g ∈ functions := by
  induction functions with
  | nil => exact .inl (by simpa [replaceIn] using h)
  | cons e functions ih =>
    rw [replaceIn] at h
    split at h
    · rcases List.mem_cons.mp h with rfl | h
      · exact .inl rfl
      · exact .inr (by simp [h])
    · rcases List.mem_cons.mp h with rfl | h
      · exact .inr (by simp)
      · exact (ih h).imp id fun h => by simp [h]

theorem find?_replaceIn (f : FunctionDef) (functions : List FunctionDef) (name : String) :
    (replaceIn f functions).find? (·.name == name) =
      if f.name = name then some f else functions.find? (·.name == name) := by
  induction functions with
  | nil => by_cases h : f.name = name <;> simp [replaceIn, h]
  | cons e functions ih =>
    by_cases he : e.name = f.name
    · rw [replaceIn, if_pos (by simpa using he), List.find?_cons, List.find?_cons, he]
      by_cases h : f.name = name
      · simp [h]
      · have hname : (f.name == name) = false := by simpa using h
        simp only [hname, h, if_false]
    · rw [replaceIn, if_neg (by simpa using he), List.find?_cons, List.find?_cons, ih]
      by_cases h : f.name = name
      · have hname : (e.name == name) = false := by simpa [← h] using he
        simp [h, hname]
      · simp [h]

/-- A function that takes a place in a module is found under its name. -/
theorem function?_replaceFunction (m : CodeModule) (f : FunctionDef) (name : String) :
    (m.replaceFunction f).function? name =
      if f.name = name then some f else m.function? name :=
  find?_replaceIn f m.functions name

end CodeModule

namespace UnitState

/-- Between two states no function was added, and only global variables that live at a name of
their own. -/
structure Keeps (s s' : UnitState) : Prop where
  functions : s'.code.functions = s.code.functions
  globals : ∀ entry ∈ s'.globals, entry ∈ s.globals ∨ entry.2.storage.temps = ∅

namespace Keeps

variable {s s' s'' : UnitState}

theorem refl (s : UnitState) : s.Keeps s := ⟨rfl, fun _ h => .inl h⟩

theorem trans (h : s.Keeps s') (h' : s'.Keeps s'') : s.Keeps s'' where
  functions := h'.functions.trans h.functions
  globals := fun entry hentry => (h'.globals entry hentry).elim (h.globals entry) .inr

/-- A sequence of steps that keep functions and global variables keeps them. -/
theorem foldl {α : Type} {step : UnitState → α → UnitState}
    (hstep : ∀ (s : UnitState) a, s.Keeps (step s a)) (s : UnitState) (l : List α) :
    s.Keeps (l.foldl step s) := by
  induction l generalizing s with
  | nil => exact refl s
  | cons a l ih => exact (hstep s a).trans (ih (step s a))

theorem reportError (s : UnitState) (e : LoweringError) : s.Keeps (s.reportError e) :=
  ⟨rfl, fun _ h => .inl h⟩

theorem addInterface (s : UnitState) (decl : InterfaceDecl) : s.Keeps (s.addInterface decl) := by
  rw [UnitState.addInterface]
  cases s.structs.declareInterface decl with
  | ok structs => exact ⟨rfl, fun _ h => .inl h⟩
  | error e => exact reportError s e

theorem addStruct (s : UnitState) (decl : StructDecl) : s.Keeps (s.addStruct decl) := by
  rw [UnitState.addStruct]
  rcases s.structs.define decl s.log with ⟨e | ⟨layout, structs⟩, log⟩
  · exact ⟨rfl, fun _ h => .inl h⟩
  · exact ⟨rfl, fun _ h => .inl h⟩

end Keeps

/-! ## Actions on a unit -/

/-- An action that adds no function and only global variables that live at names of their
own, whether it succeeds or not. -/
def Modest {α : Type} (action : Declare α) : Prop :=
  ∀ s : UnitState, s.Keeps (exec action s).2

namespace Modest

open Declare

variable {α β : Type} {x : Declare α} {f : α → Declare β}

theorem pure (a : α) : Modest (pure a : Declare α) := Keeps.refl

theorem throw (e : LoweringError) : Modest (throw e : Declare α) := Keeps.refl

theorem get : Modest (get : Declare UnitState) := Keeps.refl

theorem bind (hx : Modest x) (hf : ∀ a, Modest (f a)) : Modest (x >>= f) := by
  intro s
  rcases hexec : exec x s with ⟨e | a, s'⟩
  · rw [exec_bind_of_error hexec]
    simpa [hexec] using hx s
  · rw [exec_bind_of_ok hexec]
    have h : s.Keeps s' := by simpa [hexec] using hx s
    exact h.trans (hf a s')

theorem map (hx : Modest x) (f : α → β) : Modest (f <$> x) := by
  intro s
  have h := hx s
  rw [exec_map]
  generalize exec x s = result at h ⊢
  rcases result with ⟨e | a, s'⟩
  · exact h
  · exact h

theorem warn (w : Warning) (location : Option Location) : Modest (Declare.warn w location) :=
  fun _ => ⟨rfl, fun _ h => .inl h⟩

theorem fold (action : Fold α) : Modest (Declare.fold action) := by
  intro s
  have h : exec (Declare.fold action) s = exec (match exec action s.code.globals with
      | (result, globals) => do
        set { s with code := { s.code with globals := globals } }
        liftExcept result) s := rfl
  rw [h]
  rcases exec action s.code.globals with ⟨e | a, globals⟩
  · exact ⟨rfl, fun _ h => .inl h⟩
  · exact ⟨rfl, fun _ h => .inl h⟩

theorem checkKnown (type : SourceType) (w : Warning) (location : Option Location) :
    Modest (Declare.checkKnown type w location) := by
  refine get.bind fun s => ?_
  split
  · exact pure ()
  · exact warn w location

theorem forM {f : α → Declare Unit} (hf : ∀ a, Modest (f a)) (l : List α) :
    Modest (l.forM f) := by
  induction l with
  | nil => exact pure ()
  | cons a l ih => exact (hf a).bind fun _ => ih

theorem globalType (decl : VariableDecl Term) (initial : Option TypedValue) :
    Modest (Declare.globalType decl initial) := by
  unfold Declare.globalType
  split
  · cases initial with
    | some v => exact pure v.inferredType
    | none => exact throw _
  · refine get.bind fun s => ?_
    split
    · exact pure decl.type
    · exact (warn _ decl.location).bind fun _ => pure decl.type

theorem globalValue (decl : VariableDecl Term) (source : SourceType) (type : MachineType)
    (initial : Option TypedValue) : Modest (Declare.globalValue decl source type initial) := by
  cases initial with
  | none => exact pure none
  | some v =>
    cases h : convertConstant? v type with
    | some value =>
      simp only [Declare.globalValue, h]
      exact pure (some value)
    | none =>
      simp only [Declare.globalValue, h]
      exact throw _

/-- A global variable is bound to its name. -/
theorem globalVariable (decl : VariableDecl Term) : Modest (Declare.globalVariable decl) := by
  unfold Declare.globalVariable
  refine get.bind fun s => ?_
  split
  · exact throw _
  · refine bind (β := Unit) ?_ fun initial => ?_
    · cases decl.initializer with
      | none => exact pure none
      | some term => exact (fold (Fold.initializer decl.name term)).map some
    · refine (globalType decl initial).bind fun source => get.bind fun s => ?_
      refine (globalValue decl source _ initial).bind fun value s => ⟨rfl, ?_⟩
      intro entry hentry
      rcases List.mem_cons.mp hentry with rfl | hentry
      · exact .inr (by simp [Storage.temps])
      · exact .inl hentry

end Modest

/-! ## Declarations -/

/-- Every global variable lives at a name. -/
def Rooted (s : UnitState) : Prop := ∀ entry ∈ s.globals, entry.2.storage.temps = ∅

theorem Rooted.of_keeps {s s' : UnitState} (h : s.Rooted) (hk : s.Keeps s') : s'.Rooted :=
  fun entry hentry => (hk.globals entry hentry).elim (h entry) id

theorem Rooted.environment {s : UnitState} (h : s.Rooted) (d : DeclaredFunction) :
    (s.environment d).Rooted := h

/-- A unit that defines no function yet, and in which some functions of the program are
declared under names of their own. -/
structure Declares (s : UnitState) (declared : List DeclaredFunction) : Prop where
  rooted : s.Rooted
  external : ∀ f ∈ s.code.functions, f.isExternal = true
  names_nodup : (declared.map (·.decl.name)).Nodup
  found : ∀ d ∈ declared, s.code.function? d.decl.name = some d.declaration

theorem Declares.of_keeps {s s' : UnitState} {declared : List DeclaredFunction}
    (h : s.Declares declared) (hk : s.Keeps s') : s'.Declares declared where
  rooted := h.rooted.of_keeps hk
  external := by
    rw [hk.functions]
    exact h.external
  names_nodup := h.names_nodup
  found := by
    simp only [CodeModule.function?, hk.functions]
    exact h.found

section

variable {s s' : UnitState} {decl : VariableDecl Term} {declared : List DeclaredFunction}
  {function : FunctionDecl Statement} {d : DeclaredFunction} {e : LoweringError}

theorem addGlobal_of_ok (h : exec (Declare.globalVariable decl) s = (.ok (), s')) :
    s.addGlobal decl = s' := by
  rw [UnitState.addGlobal, show (Declare.globalVariable decl).run.run s = _ from h]

theorem addGlobal_of_error (h : exec (Declare.globalVariable decl) s = (.error e, s')) :
    s.addGlobal decl = s'.reportError (e.orAt decl.location) := by
  rw [UnitState.addGlobal, show (Declare.globalVariable decl).run.run s = _ from h]

theorem addFunction_of_ok
    (h : exec (Declare.function (declared.map (·.decl.name)) function) s = (.ok d, s')) :
    UnitState.addFunction (s, declared) function = (s', declared ++ [d]) := by
  simp only [UnitState.addFunction,
    show (Declare.function (declared.map (·.decl.name)) function).run.run s = _ from h]

theorem addFunction_of_error
    (h : exec (Declare.function (declared.map (·.decl.name)) function) s = (.error e, s')) :
    UnitState.addFunction (s, declared) function = (s'.reportError e, declared) := by
  simp only [UnitState.addFunction,
    show (Declare.function (declared.map (·.decl.name)) function).run.run s = _ from h]

end

/-- A function is declared under a new name, or not at all. -/
theorem exec_function (names : List String) (decl : FunctionDecl Statement) (s : UnitState) :
    (∃ e s', exec (Declare.function names decl) s = (.error e, s') ∧ s.Keeps s') ∨
    (decl.name ∉ names ∧ ∃ signature s', s.Keeps s' ∧
      exec (Declare.function names decl) s = (.ok ⟨decl, signature⟩, { s' with
        code := s'.code.replaceFunction (DeclaredFunction.declaration ⟨decl, signature⟩)
        functions := (decl.name, signature) :: s'.functions })) := by
  unfold Declare.function
  by_cases hname : names.contains decl.name = true
  · exact .inl ⟨_, s, by rw [if_pos hname]; rfl, .refl s⟩
  · rw [if_neg hname]
    beta_reduce
    have hreturn := Modest.checkKnown decl.returnType
      (.unknownReturnType decl.returnType decl.name) decl.location s
    rcases hexec : exec (Declare.checkKnown decl.returnType
      (.unknownReturnType decl.returnType decl.name) decl.location) s with ⟨e | ⟨⟩, s₁⟩
    · rw [hexec] at hreturn
      exact .inl ⟨e, s₁, exec_bind_of_error hexec, hreturn⟩
    · rw [hexec] at hreturn
      rw [exec_bind_of_ok hexec]
      have hparams := Modest.forM (fun param : Parameter => Modest.checkKnown param.type
        (.unknownParameterType param.type param.name decl.name) decl.location) decl.params s₁
      rcases hexec' : exec (decl.params.forM fun param => Declare.checkKnown param.type
        (.unknownParameterType param.type param.name decl.name) decl.location) s₁
        with ⟨e | ⟨⟩, s₂⟩
      · rw [hexec'] at hparams
        exact .inl ⟨e, s₂, exec_bind_of_error hexec', hreturn.trans hparams⟩
      · rw [hexec'] at hparams
        exact .inr ⟨by simpa using hname, _, s₂, hreturn.trans hparams, exec_bind_of_ok hexec'⟩

/-- Declaring one more function. -/
theorem Declares.addFunction {s : UnitState} {declared : List DeclaredFunction}
    (h : s.Declares declared) (decl : FunctionDecl Statement) :
    (UnitState.addFunction (s, declared) decl).1.Declares
      (UnitState.addFunction (s, declared) decl).2 := by
  rcases exec_function (declared.map (·.decl.name)) decl s with
    ⟨e, s', hexec, hk⟩ | ⟨hname, signature, s', hk, hexec⟩
  · rw [addFunction_of_error hexec]
    exact h.of_keeps (hk.trans (.reportError s' e))
  · rw [addFunction_of_ok hexec]
    have h' := h.of_keeps hk
    refine ⟨h'.rooted, ?_, ?_, ?_⟩
    · intro f hf
      rcases CodeModule.eq_or_mem_of_mem_replaceIn hf with rfl | hf
      · rfl
      · exact h'.external f hf
    · rw [List.map_append, List.nodup_append]
      refine ⟨h.names_nodup, by simp, ?_⟩
      rintro name hmem _ hmem' rfl
      obtain rfl : name = decl.name := by simpa using hmem'
      exact hname hmem
    · intro d hd
      rw [CodeModule.function?_replaceFunction]
      rcases List.mem_append.mp hd with hd | hd
      · have hne : decl.name ≠ d.decl.name := fun heq => hname (heq ▸ List.mem_map_of_mem hd)
        rw [if_neg (by exact hne)]
        exact h'.found d hd
      · obtain rfl : d = ⟨decl, signature⟩ := by simpa using hd
        exact if_pos rfl

end UnitState

open UnitState

/-- Up to its global variables, the declarations of a program add no functions. -/
theorem Program.keeps_declareGlobals (p : Program) (s : UnitState) :
    s.Keeps (p.globals.foldl UnitState.addGlobal (p.structs.foldl UnitState.addStruct
      (p.interfaces.foldl UnitState.addInterface s))) := by
  refine ((Keeps.foldl Keeps.addInterface _ p.interfaces).trans
    (Keeps.foldl Keeps.addStruct _ p.structs)).trans (Keeps.foldl ?_ _ p.globals)
  intro s decl
  have h := Modest.globalVariable decl s
  rcases hexec : exec (Declare.globalVariable decl) s with ⟨e | ⟨⟩, s'⟩
  all_goals rw [hexec] at h
  · rw [addGlobal_of_error hexec]
    exact h.trans (.reportError s' _)
  · rw [addGlobal_of_ok hexec]
    exact h

/-- Behind the declarations of a program, its functions are declared and none is defined. -/
theorem Program.declares (p : Program) (moduleName : String) (log : DiagnosticLog) :
    (p.declare moduleName log).1.Declares (p.declare moduleName log).2 := by
  have hfunctions : ∀ (decls : List (FunctionDecl Statement)) (acc : UnitState × _),
      acc.1.Declares acc.2 →
      (decls.foldl UnitState.addFunction acc).1.Declares
        (decls.foldl UnitState.addFunction acc).2 := by
    intro decls
    induction decls with
    | nil => exact fun acc h => h
    | cons decl decls ih => exact fun acc h => ih _ (h.addFunction decl)
  refine hfunctions _ _ (Declares.of_keeps (s := UnitState.initial moduleName log) ?_ ?_)
  · refine ⟨by simp [UnitState.initial, Rooted], ?_, List.nodup_nil, by simp⟩
    simp [UnitState.initial, predeclared, CodeModule.addFunction, CodeModule.empty,
      Signature.declaration, FunctionDef.declaration]
  · exact keeps_declareGlobals p _

namespace UnitState

/-! ## Bodies -/

variable {s : UnitState} {d : DeclaredFunction} {body : Statement} {options : LoweringOptions}
  {f : FunctionDef}

/-- The log behind a body, before its function is checked. -/
def bodyLog (options : LoweringOptions) (s : UnitState) (d : DeclaredFunction)
    (body : Statement) : DiagnosticLog :=
  let final := s.lowerBody d body
  if options.warnUnused then warnUnused final.scope final.log else final.log

/-- A function without a fault takes the place of its declaration. -/
theorem addBody_of_sound (hf : (s.lowerBody d body).builder.function = some f)
    (hfault : f.finalize.fault? = none) : s.addBody options d body = { s with
      code := { s.code with globals := (s.lowerBody d body).globals }.replaceFunction f.finalize
      log := s.bodyLog options d body } := by
  simp only [addBody, hf, hfault]
  rfl

/-- A fault is reported, and only the declaration remains. -/
theorem addBody_of_fault (hf : (s.lowerBody d body).builder.function = some f)
    {fault : ShapeFault} (hfault : f.finalize.fault? = some fault) :
    s.addBody options d body = { s with
      code := { s.code with globals := (s.lowerBody d body).globals }
      log := (s.bodyLog options d body).report
        (LoweringError.toDiagnostic ⟨.verification f.name fault, d.decl.location⟩) } := by
  simp only [addBody, hf, hfault]
  rfl

/-- The functions that can be called stay the same. -/
@[simp] theorem functions_addBody (options : LoweringOptions) (s : UnitState)
    (d : DeclaredFunction) (body : Statement) :
    (s.addBody options d body).functions = s.functions := by
  cases hf : (s.lowerBody d body).builder.function with
  | none =>
    simp only [addBody, hf]
  | some f =>
    cases hfault : f.finalize.fault? with
    | none => rw [addBody_of_sound hf hfault]
    | some fault => rw [addBody_of_fault hf hfault]

/-- Functions that are defined are drafts without a fault. -/
structure Sound (s : UnitState) : Prop where
  rooted : s.Rooted
  defined : ∀ f ∈ s.code.functions, f.isExternal = false →
    (∃ avail sources, f.Draft avail sources) ∧ f.fault? = none

/-- A function of the program is lowered in a unit, and the other functions of the unit stay
what they are. -/
theorem Sound.addBodyOf (h : s.Sound) (options : LoweringOptions) (d : DeclaredFunction) :
    (s.addBodyOf options d).Sound ∧ ∀ name, name ≠ d.decl.name →
      (s.addBodyOf options d).code.function? name = s.code.function? name := by
  rw [UnitState.addBodyOf]
  cases hbody : d.decl.body with
  | none => exact ⟨h, fun _ _ => rfl⟩
  | some body =>
    obtain ⟨f, avail, sources, hf, ⟨blocks, hsignature⟩, hdraft⟩ :=
      exists_draft_lowerBody (h.rooted.environment d) body
    have hname : f.finalize.name = d.decl.name := by rw [hsignature]; rfl
    cases hfault : f.finalize.fault? with
    | none =>
      simp only [addBody_of_sound hf hfault]
      refine ⟨⟨h.rooted, fun g hg hext => ?_⟩, fun name hne => ?_⟩
      · rcases CodeModule.eq_or_mem_of_mem_replaceIn hg with rfl | hg
        · exact ⟨⟨avail, sources, hdraft.finalize⟩, hfault⟩
        · exact h.defined g hg hext
      · rw [CodeModule.function?_replaceFunction, hname, if_neg hne.symm]
        rfl
    | some fault =>
      simp only [addBody_of_fault hf hfault]
      exact ⟨⟨h.rooted, h.defined⟩, fun _ _ => rfl⟩

/-- Bodies are lowered one after the other. -/
theorem Sound.foldl (h : s.Sound) (options : LoweringOptions) (ds : List DeclaredFunction) :
    (ds.foldl (UnitState.addBodyOf options) s).Sound ∧ ∀ name, name ∉ ds.map (·.decl.name) →
      (ds.foldl (UnitState.addBodyOf options) s).code.function? name = s.code.function? name := by
  induction ds generalizing s with
  | nil => exact ⟨h, fun _ _ => rfl⟩
  | cons d ds ih =>
    obtain ⟨hsound, hstep⟩ := h.addBodyOf options d
    obtain ⟨hlast, hrest⟩ := ih hsound
    refine ⟨hlast, fun name hname => ?_⟩
    simp only [List.map_cons, List.mem_cons, not_or] at hname
    exact (hrest name hname.2).trans (hstep name hname.1)

end UnitState

namespace Program

variable {p : Program} {options : LoweringOptions} {log : DiagnosticLog} {s : UnitState}
  {d : DeclaredFunction} {body : Statement}

/-- The unit in which a body is lowered: behind the declarations of the program, and behind the
bodies of the functions declared before. -/
structure Turn (p : Program) (options : LoweringOptions) (log : DiagnosticLog) (s : UnitState)
    (d : DeclaredFunction) (body : Statement) : Prop where
  body_eq : d.decl.body = some body
  unit_eq : ∃ before after, (p.declare options.moduleName log).2 = before ++ d :: after ∧
    s = before.foldl (addBodyOf options) (p.declare options.moduleName log).1

theorem sound_declare (p : Program) (moduleName : String) (log : DiagnosticLog) :
    (p.declare moduleName log).1.Sound where
  rooted := (p.declares moduleName log).rooted
  defined := by
    intro f hf hext
    rw [(p.declares moduleName log).external f hf] at hext
    cases hext

/-- It is the turn of every function with a body. -/
theorem exists_turn (hd : d ∈ (p.declare options.moduleName log).2)
    (hbody : d.decl.body = some body) : ∃ s, p.Turn options log s d body := by
  obtain ⟨before, after, heq⟩ := List.append_of_mem hd
  exact ⟨_, hbody, before, after, heq, rfl⟩

/-- What holds behind the declarations of a program and is kept by every turn holds at each turn,
and in the end. -/
theorem induction_turns (p : Program) (options : LoweringOptions) (log : DiagnosticLog)
    {motive : UnitState → Prop} (start : motive (p.declare options.moduleName log).1)
    (step : ∀ s d body, p.Turn options log s d body → motive s →
      motive (s.addBody options d body)) :
    (∀ s d body, p.Turn options log s d body → motive s) ∧
      ∃ s, motive s ∧ p.generate options log = (s.code, s.log) := by
  have hbefore : ∀ before after, (p.declare options.moduleName log).2 = before ++ after →
      motive (before.foldl (addBodyOf options) (p.declare options.moduleName log).1) := by
    intro before
    induction before using List.reverseRecOn with
    | nil => exact fun _ _ => start
    | append_singleton before d ih =>
      intro after heq
      rw [List.append_assoc] at heq
      have hlast := ih _ heq
      rw [List.foldl_append, List.foldl_cons, List.foldl_nil, addBodyOf]
      cases hbody : d.decl.body with
      | none => exact hlast
      | some body => exact step _ d body ⟨hbody, before, after, heq, rfl⟩ hlast
  refine ⟨?_, _, hbefore _ [] (List.append_nil _).symm, rfl⟩
  rintro s d body ⟨-, before, after, heq, rfl⟩
  exact hbefore before _ heq

/-- A turn is that of a function of the program. -/
theorem Turn.mem (h : p.Turn options log s d body) :
    d ∈ (p.declare options.moduleName log).2 := by
  obtain ⟨-, before, after, heq, -⟩ := h
  simp [heq]

namespace Turn

theorem sound (h : p.Turn options log s d body) : s.Sound := by
  obtain ⟨-, before, after, -, rfl⟩ := h
  exact ((p.sound_declare _ log).foldl options before).1

/-- The function is not defined before its turn. -/
theorem function?_eq (h : p.Turn options log s d body) :
    s.code.function? d.decl.name = some d.declaration := by
  obtain ⟨-, before, after, heq, rfl⟩ := h
  have hdeclares := p.declares options.moduleName log
  have hnodup := hdeclares.names_nodup
  rw [heq, List.map_append, List.map_cons, List.nodup_append] at hnodup
  have hname : d.decl.name ∉ before.map (·.decl.name) := fun hmem =>
    hnodup.2.2 _ hmem _ (by simp) rfl
  rw [((p.sound_declare _ log).foldl options before).2 _ hname]
  exact hdeclares.found d (by simp [heq])

/-- What the function is behind its own turn, it is in the module. -/
theorem generate_function? (h : p.Turn options log s d body) :
    (p.generate options log).1.function? d.decl.name =
      (s.addBody options d body).code.function? d.decl.name := by
  have hsound := h.sound
  obtain ⟨hbody, before, after, heq, rfl⟩ := h
  have hnodup := (p.declares options.moduleName log).names_nodup
  rw [heq, List.map_append, List.map_cons, List.nodup_append, List.nodup_cons] at hnodup
  have hstep := (hsound.addBodyOf options d).1
  have hlast := (hstep.foldl options after).2 _ hnodup.2.1.1
  simp only [generate, heq, List.foldl_append, List.foldl_cons]
  rw [hlast, UnitState.addBodyOf, hbody]

end Turn

/-- Every function that a module defines is a draft without a fault. -/
theorem exists_draft_generate {f : FunctionDef} (hf : f ∈ (p.generate options log).1.functions)
    (hext : f.isExternal = false) : (∃ avail sources, f.Draft avail sources) ∧ f.fault? = none :=
  ((p.sound_declare _ log).foldl options _).1.defined f hf hext

/-! ## Finished functions -/

/-- Whatever fails in a body, only the last block of its function can be left open. A function
without a result is always defined; one with a result is defined unless its last block is open and
can be entered, which is then the fault that is reported. -/
theorem only_last_block_open (h : p.Turn options log s d body) :
    ∃ f done last, (s.lowerBody d body).builder.function = some f ∧
      f = { d.declaration with blocks := done ++ [last], isExternal := false } ∧
      f.labels.Nodup ∧
      (∀ b ∈ f.blocks, ∀ i ∈ b.body, ∀ target ∈ i.successors, target ∈ f.labels) ∧
      (∀ b ∈ f.blocks, ∀ i ∈ b.body.dropLast, i.isTerminator = false) ∧
      (∀ b ∈ done, ∃ i, b.body.getLast? = some i ∧ i.isTerminator = true) ∧
      (d.signature.returnType = .void → f.finalize.fault? = none) ∧
      (d.signature.returnType ≠ .void → ∀ fault, f.finalize.fault? = some fault ↔
        last.isTerminated = false ∧ (done = [] ∨ f.predecessors last.label ≠ []) ∧
          fault = if last.body = [] then .emptyBlock last.label
            else .missingTerminator last.label) ∧
      match f.finalize.fault? with
      | none => (p.generate options log).1.function? d.decl.name = some f.finalize
      | some fault => (p.generate options log).1.function? d.decl.name = some d.declaration ∧
          (s.addBody options d body).log = (s.bodyLog options d body).report
            (LoweringError.toDiagnostic
              ⟨.verification d.decl.name fault, d.decl.location⟩) := by
  obtain ⟨f, avail, sources, hf, ⟨blocks, hsignature⟩, hdraft⟩ :=
    exists_draft_lowerBody (h.sound.rooted.environment d) body
  obtain ⟨done, last, hblocks⟩ := hdraft.exists_last
  have hext : f.isExternal = false := by rw [hsignature]
  have hname : f.name = d.decl.name := by rw [hsignature]; rfl
  have htype : f.returnType = d.signature.returnType := by rw [hsignature]; rfl
  refine ⟨f, done, last, hf, ?_, hdraft.labels_nodup, fun b hb i hi l hl =>
    hdraft.target_mem hb hi hl, fun b hb => hdraft.no_early_terminator hb, ?_, ?_, ?_, ?_⟩
  · rw [← hblocks, hsignature]
  · intro b hb
    obtain ⟨front, i, hbody, hi⟩ := Block.isTerminated_iff.mp
      (hdraft.terminated b (by simpa [hblocks] using hb))
    exact ⟨i, by simp [hbody], hi⟩
  · intro hvoid
    exact hdraft.fault?_finalize_of_void hext (htype.trans hvoid)
  · intro hresult fault
    rw [hdraft.fault?_finalize_of_result hext hblocks (htype ▸ hresult)]
    split
    · rename_i hlast
      simp only [Option.some.injEq, hlast, true_and]
      exact eq_comm
    · rename_i hlast
      simp only [reduceCtorEq, false_iff]
      exact fun hall => hlast ⟨hall.1, hall.2.1⟩
  · rw [h.generate_function?]
    cases hfault : f.finalize.fault? with
    | none =>
      rw [addBody_of_sound hf hfault]
      exact (CodeModule.function?_replaceFunction _ _ _).trans (if_pos hname)
    | some fault =>
      rw [addBody_of_fault hf hfault, hname]
      exact ⟨h.function?_eq, rfl⟩

/-- A function with a result whose end can be reached. -/
def onlySometimes : FunctionDecl Statement where
  name := "onlySometimes"
  params := [⟨"flag", .named "bool"⟩]
  returnType := .named "bool"
  body := some (.branch none (.variable none "flag")
    (.ret none (some (.literal none (.bool true)))) none)
  owner := none
  location := none

theorem only_last_block_open_onlySometimes :
    ∃ s d body, Turn ⟨[.function onlySometimes]⟩ .standard .empty s d body ∧
      ∃ f done last, (s.lowerBody d body).builder.function = some f ∧
        f.blocks = done ++ [last] ∧
        ∀ b ∈ done, ∃ i, b.body.getLast? = some i ∧ i.isTerminator = true := by
  have hturn : Turn ⟨[.function onlySometimes]⟩ .standard .empty
      (declare ⟨[.function onlySometimes]⟩ "main" .empty).1
      ⟨onlySometimes, .ofSource .empty [.named "bool"] (.named "bool") false none⟩
      (.branch none (.variable none "flag") (.ret none (some (.literal none (.bool true)))) none) :=
    ⟨rfl, [], [], rfl, rfl⟩
  obtain ⟨f, done, last, hf, hblocks, -, -, -, hterminated, -⟩ := only_last_block_open hturn
  exact ⟨_, _, _, hturn, f, done, last, hf, by rw [hblocks], hterminated⟩

end Program

end SsaLowering
