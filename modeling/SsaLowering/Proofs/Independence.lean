import SsaLowering.Proofs.BodyComparison

/-!
# Options and earlier diagnostics

No part of the lowering looks at the name of the module or at what was reported before, and only
one place looks at the options: the end of a body, where the variables that were never read are
reported or not. So all runs of a program follow one run, with other names and other logs.
-/

namespace SsaLowering

open StringPool

/-- What stands between two texts. -/
def between (before after text : String) : String :=
  .ofList ((text.toList.drop before.toList.length).take
    (text.toList.length - before.toList.length - after.toList.length))

theorem between_append (before after text : String) :
    between before after (before ++ text ++ after) = text := by
  have hlength : (before ++ text ++ after).toList.length - before.toList.length -
      after.toList.length = text.toList.length := by
    simp only [String.toList_append, List.length_append]
    omega
  rw [between, hlength, String.toList_append, String.toList_append, List.append_assoc,
    List.drop_left, List.take_left, String.ofList_toList]

/-- The name in the warning about an unused variable. -/
def Diagnostic.unusedName (d : Diagnostic) : String := between "unused variable '" "'" d.message

instance : DecidablePred Diagnostic.IsUnused := fun d =>
  decidable_of_iff ((Warning.unusedVariable d.unusedName).toDiagnostic d.location = d)
    ⟨fun h => ⟨_, _, h⟩, by
      rintro ⟨name, location, rfl⟩
      have hname : ((Warning.unusedVariable name).toDiagnostic location).unusedName = name :=
        between_append _ _ name
      rw [hname]
      rfl⟩

/-- What is left of the diagnostics of a run if some are not wanted. -/
def LoweringOptions.announced (options : LoweringOptions) (reported : List Diagnostic) :
    List Diagnostic :=
  if options.warnUnused then reported else reported.filter (¬ ·.IsUnused)

namespace LoweringOptions

variable {options : LoweringOptions} {reported reported' : List Diagnostic}

theorem announced_append : options.announced (reported ++ reported') =
    options.announced reported ++ options.announced reported' := by
  unfold announced
  split
  · rfl
  · exact List.filter_append ..

theorem announced_of_used (h : ∀ d ∈ reported, ¬ d.IsUnused) :
    options.announced reported = reported := by
  unfold announced
  split
  · rfl
  · exact List.filter_eq_self.mpr fun d hd => decide_eq_true (h d hd)

theorem announced_of_unused (h : ∀ d ∈ reported, d.IsUnused) :
    options.announced reported = if options.warnUnused then reported else [] := by
  unfold announced
  split
  · rfl
  · exact List.filter_eq_nil_iff.mpr fun d hd hused => of_decide_eq_true hused (h d hd)

/-- All errors are announced. -/
theorem count_announced (options : LoweringOptions) (reported : List Diagnostic) :
    Severity.error.countIn (options.announced reported) = Severity.error.countIn reported := by
  unfold announced
  split
  · rfl
  · rw [Severity.countIn, List.countP_filter]
    refine List.countP_congr fun d _ => ?_
    by_cases hunused : d.IsUnused
    · obtain ⟨name, location, rfl⟩ := hunused
      simp [Warning.toDiagnostic]
    · simp [hunused]

end LoweringOptions

namespace UnitState

variable {options : LoweringOptions} {before : List Diagnostic} {s s' : UnitState}

/-- The second unit is the first one in a module of another name, behind a log that was there
before. -/
structure Follows (options : LoweringOptions) (before : List Diagnostic) (s s' : UnitState) :
    Prop where
  code : s'.code = { s.code with name := options.moduleName }
  structs : s'.structs = s.structs
  functions : s'.functions = s.functions
  globals : s'.globals = s.globals
  log : s'.log.entries = before ++ options.announced s.log.entries

theorem Follows.report (h : Follows options before s s') {d : Diagnostic} (hd : ¬ d.IsUnused) :
    Follows options before { s with log := s.log.report d } { s' with log := s'.log.report d } where
  code := h.code
  structs := h.structs
  functions := h.functions
  globals := h.globals
  log := by
    have hone : options.announced [d] = [d] := LoweringOptions.announced_of_used (by simpa using hd)
    rw [DiagnosticLog.entries_report, DiagnosticLog.entries_report,
      LoweringOptions.announced_append, h.log, hone, List.append_assoc]

theorem Follows.reportError (h : Follows options before s s') (e : LoweringError) :
    Follows options before (s.reportError e) (s'.reportError e) :=
  h.report e.not_isUnused

/-! ## Actions on a unit -/

/-- The action does the same in a unit that follows. -/
def Blind {α : Type} (x : Declare α) : Prop :=
  ∀ options before,
    Parallel (fun _ : Still => Follows options before) .still x x fun _ a a' => a' = a

namespace Blind

variable {α β : Type} {x : Declare α} {f : α → Declare β}

theorem pure (a : α) : Blind (Pure.pure a : Declare α) := fun _ _ => .pure rfl

theorem throw (e : LoweringError) : Blind (MonadExcept.throw e : Declare α) := fun _ _ => .throw e

theorem bind (hx : Blind x) (hf : ∀ a, Blind (f a)) : Blind (x >>= f) := by
  refine fun options before => (hx options before).bind ?_
  rintro _ a _ - rfl
  exact hf _ options before

/-- What is looked up is the same in both units. -/
theorem get_bind {f : UnitState → Declare β}
    (hsame : ∀ options before s s', Follows options before s s' → f s' = f s)
    (hf : ∀ s, Blind (f s)) : Blind (get >>= f) := by
  intro options before s s' hs
  rw [exec_bind_of_ok (exec_get s), exec_bind_of_ok (exec_get s'), hsame options before s s' hs]
  exact hf s options before s s' hs

theorem modify {change : UnitState → UnitState}
    (h : ∀ options before s s', Follows options before s s' →
      Follows options before (change s) (change s')) : Blind (modify change) :=
  fun options before _ _ hs => ⟨.still, le_rfl, h options before _ _ hs, .ok rfl⟩

theorem warn {w : Warning} (hw : w.remarks = []) (location : Option Location) :
    Blind (Declare.warn w location) :=
  modify fun _ _ _ _ hs => hs.report (Warning.not_isUnused hw location)

/-- An initializer looks at the pool only. -/
theorem fold (action : Fold α) : Blind (Declare.fold action) := by
  intro options before s s' hs
  have hglobals : s'.code.globals = s.code.globals := by rw [hs.code]
  refine ⟨.still, le_rfl, ?_⟩
  rw [Declare.exec_fold, Declare.exec_fold, hglobals]
  refine ⟨⟨by rw [hs.code], hs.structs, hs.functions, hs.globals, hs.log⟩, ?_⟩
  cases (exec action s.code.globals).1 with
  | ok a => exact .ok rfl
  | error e => exact .error e

theorem checkKnown (type : SourceType) {w : Warning} (hw : w.remarks = [])
    (location : Option Location) : Blind (Declare.checkKnown type w location) := by
  refine get_bind (fun _ _ s s' hs => by rw [hs.structs]) fun s => ?_
  split
  · exact pure ()
  · exact warn hw location

theorem forM {f : α → Declare Unit} (hf : ∀ a, Blind (f a)) (l : List α) : Blind (l.forM f) := by
  induction l with
  | nil => exact pure ()
  | cons a l ih => exact (hf a).bind fun _ => ih

theorem globalType (decl : VariableDecl Term) (initial : Option TypedValue) :
    Blind (Declare.globalType decl initial) := by
  unfold Declare.globalType
  split
  · cases initial with
    | some v => exact pure v.inferredType
    | none => exact throw _
  · refine get_bind (fun _ _ s s' hs => by rw [hs.structs]) fun s => ?_
    split
    · exact pure decl.type
    · exact (warn rfl decl.location).bind fun _ => pure decl.type

theorem globalValue (decl : VariableDecl Term) (source : SourceType) (type : MachineType)
    (initial : Option TypedValue) : Blind (Declare.globalValue decl source type initial) := by
  unfold Declare.globalValue
  cases initial with
  | none => exact pure none
  | some v =>
    dsimp only
    split
    · exact pure _
    · exact throw _

theorem initializer (decl : VariableDecl Term) : Blind
    (decl.initializer.mapM fun term => Declare.fold (Fold.initializer decl.name term)) := by
  cases decl.initializer with
  | none => exact pure none
  | some term =>
    have hmap : (some term).mapM (fun term => Declare.fold (Fold.initializer decl.name term)) =
        Declare.fold (Fold.initializer decl.name term) >>= fun v => Pure.pure (some v) :=
      (bind_pure_comp ..).symm
    rw [hmap]
    exact (fold _).bind fun v => pure (some v)

theorem globalVariable (decl : VariableDecl Term) : Blind (Declare.globalVariable decl) := by
  unfold Declare.globalVariable
  refine get_bind (fun _ _ s s' hs => by rw [hs.globals]) fun s => ?_
  split
  · exact throw _
  · refine (initializer decl).bind fun initial => (globalType decl initial).bind fun source => ?_
    refine get_bind (fun _ _ s s' hs => by rw [hs.structs]) fun s => ?_
    refine (globalValue decl source _ initial).bind fun value => modify fun _ _ s s' hs => ?_
    exact ⟨by rw [hs.code]; rfl, hs.structs, hs.functions, by rw [hs.globals], hs.log⟩

theorem function (declared : List String) (decl : FunctionDecl Statement) :
    Blind (Declare.function declared decl) := by
  unfold Declare.function
  split
  · exact throw _
  · refine (checkKnown _ rfl _).bind fun _ => ?_
    refine (forM (fun _ => checkKnown _ rfl _) _).bind fun _ => ?_
    refine get_bind (fun _ _ s s' hs => by rw [hs.structs]) fun s => ?_
    refine (modify fun _ _ s s' hs => ?_).bind fun _ => pure _
    exact ⟨by rw [hs.code]; rfl, hs.structs, by rw [hs.functions], hs.globals, hs.log⟩

end Blind

/-! ## Declarations -/

theorem follows_initial (options : LoweringOptions) (log : DiagnosticLog) (name : String) :
    Follows options log.entries (initial name .empty) (initial options.moduleName log) where
  code := rfl
  structs := rfl
  functions := rfl
  globals := rfl
  log := by
    have hnone : options.announced [] = [] := LoweringOptions.announced_of_used (by simp)
    exact ((congrArg (log.entries ++ ·) hnone).trans (List.append_nil _)).symm

theorem Follows.addInterface (h : Follows options before s s') (decl : InterfaceDecl) :
    Follows options before (s.addInterface decl) (s'.addInterface decl) := by
  rw [UnitState.addInterface, UnitState.addInterface, h.structs]
  cases s.structs.declareInterface decl with
  | ok structs => exact ⟨h.code, rfl, h.functions, h.globals, h.log⟩
  | error e => exact h.reportError e

/-- The warnings about a struct are not about variables. -/
theorem remarks_of_mem_warnings {table : StructTable} {decl : StructDecl} {w : Warning}
    (h : w ∈ table.warnings decl) : w.remarks = [] := by
  rcases List.mem_append.mp h with h | h
  · split at h
    · split at h
      · cases h
      · rw [List.mem_singleton.mp h]
        rfl
    · cases h
  · obtain ⟨field, -, hfield⟩ := List.mem_filterMap.mp h
    unfold StructTable.fieldWarning? at hfield
    dsimp only at hfield
    split at hfield
    · cases hfield
    · rw [← Option.some.inj hfield]
      rfl

/-- Both logs go on with the same warnings. -/
theorem Follows.warnAll (h : Follows options before s s') {warnings : List Warning}
    (hwarnings : ∀ w ∈ warnings, w.remarks = []) (location : Option Location) :
    Follows options before
      { s with log := (warnings.foldl (fun log w => log.report (w.toDiagnostic location)) s.log) }
      { s' with
        log := (warnings.foldl (fun log w => log.report (w.toDiagnostic location)) s'.log) } := by
  induction warnings using List.reverseRecOn with
  | nil => exact h
  | append_singleton warnings w ih =>
    rw [List.foldl_append, List.foldl_append]
    have hfirst := ih fun w hw => hwarnings w (List.mem_append_left _ hw)
    exact hfirst.report (Warning.not_isUnused (hwarnings w (by simp)) location)

theorem Follows.addStruct (h : Follows options before s s') (decl : StructDecl) :
    Follows options before (s.addStruct decl) (s'.addStruct decl) := by
  cases hrepeated : s.structs.contains decl.name with
  | true =>
    rw [addStruct_of_repeated hrepeated, addStruct_of_repeated (h.structs ▸ hrepeated)]
    exact h.reportError _
  | false =>
    have hremarks : ∀ w ∈ s.structs.warnings decl, w.remarks = [] :=
      fun _ hw => remarks_of_mem_warnings hw
    have hwarned := h.warnAll hremarks decl.location
    simp only [UnitState.addStruct, StructTable.define, h.structs, hrepeated, Bool.false_eq_true,
      if_false]
    cases s.structs.layout? decl with
    | some layout => exact ⟨by rw [h.code]; rfl, rfl, h.functions, h.globals, hwarned.log⟩
    | none =>
      refine Follows.reportError ?_ _
      exact ⟨h.code, rfl, h.functions, h.globals, hwarned.log⟩

theorem Follows.addGlobal (h : Follows options before s s') (decl : VariableDecl Term) :
    Follows options before (s.addGlobal decl) (s'.addGlobal decl) := by
  obtain ⟨_, -, hs, hout⟩ := Blind.globalVariable decl options before s s' h
  rcases hexec : exec (Declare.globalVariable decl) s with ⟨r, t⟩
  rcases hexec' : exec (Declare.globalVariable decl) s' with ⟨r', t'⟩
  rw [hexec, hexec'] at hs hout
  cases hout with
  | ok =>
    rw [addGlobal_of_ok hexec, addGlobal_of_ok hexec']
    exact hs
  | error e =>
    rw [addGlobal_of_error hexec, addGlobal_of_error hexec']
    exact hs.reportError _

theorem Follows.addFunction (h : Follows options before s s') (declared : List DeclaredFunction)
    (decl : FunctionDecl Statement) :
    Follows options before (UnitState.addFunction (s, declared) decl).1
        (UnitState.addFunction (s', declared) decl).1 ∧
      (UnitState.addFunction (s', declared) decl).2 =
        (UnitState.addFunction (s, declared) decl).2 := by
  obtain ⟨_, -, hs, hout⟩ := Blind.function (declared.map (·.decl.name)) decl options before s s' h
  rcases hexec : exec (Declare.function (declared.map (·.decl.name)) decl) s with ⟨r, t⟩
  rcases hexec' : exec (Declare.function (declared.map (·.decl.name)) decl) s' with ⟨r', t'⟩
  rw [hexec, hexec'] at hs hout
  cases hout with
  | ok heq =>
    rw [addFunction_of_ok hexec, addFunction_of_ok hexec']
    exact ⟨hs, by rw [heq]⟩
  | error e =>
    rw [addFunction_of_error hexec, addFunction_of_error hexec']
    exact ⟨hs.reportError e, rfl⟩

end UnitState

/-! ## Bodies -/

/-- With equal pools, values that belong together are equal. -/
theorem Comparison.Like.eq {c : Comparison} {w : PoolTexts} {v v' : Value} (h : c.Like w v v')
    (hw : w.right = w.left) : v' = v := by
  cases h with
  | same => rfl
  | literal hleft hright =>
    rw [hw] at hright
    rw [Option.some.inj (hleft.symm.trans hright)]

theorem eq_of_forall₂ {α : Type} {P : α → α → Prop} {as as' : List α} (h : List.Forall₂ P as as')
    (hP : ∀ a a', P a a' → a' = a) : as' = as := by
  rw [← List.map_id as', ← List.map_id as]
  exact map_eq_of_forall₂ h hP

section

variable {R : Value → Value → Prop} (hR : ∀ v v', R v v' → v' = v)

include hR

theorem Instr.Like.eq {i i' : Instr} (h : i.Like R i') : i' = i := by
  cases h with
  | leave | alloca | jump | unreachable => rfl
  | binary _ _ _ hl hr => rw [hR _ _ hl, hR _ _ hr]
  | store _ hv hp => rw [hR _ _ hv, hR _ _ hp]
  | address _ _ hp hi => rw [hR _ _ hp, eq_of_forall₂ hi hR]
  | call _ _ hc ha =>
    rw [hR _ _ hc, eq_of_forall₂ ha fun _ _ h => Prod.ext h.1.symm (hR _ _ h.2)]
  | phi _ _ hi => rw [eq_of_forall₂ hi fun _ _ h => Prod.ext (hR _ _ h.1) h.2.symm]
  | load _ _ hv | extract _ _ _ _ hv | ret _ hv | branch _ _ hv | convert _ _ _ _ hv =>
    rw [hR _ _ hv]

/-- Functions that are alike in equal operands are equal. -/
theorem FunctionDef.Like.eq {f f' : FunctionDef} (h : f.Like R f') : f' = f := by
  have hblocks : f'.blocks = f.blocks := eq_of_forall₂ h.blocks fun b b' hb => by
    have hbody : b'.body = b.body := eq_of_forall₂ hb.body fun _ _ hi => hi.eq hR
    cases b
    cases b'
    cases hb.label
    cases hb.hint
    cases hbody
    rfl
  rw [h.head, hblocks]

end

namespace UnitState

variable {options : LoweringOptions} {before : List Diagnostic} {s s' : UnitState}

/-- The options of a run that reports all it finds. -/
def talkative : LoweringOptions := ⟨"", true⟩

/-- Both units begin a body with the same pool. -/
theorem Follows.fits (h : Follows options before s s') :
    Comparison.Fits ⟨s.log.entries, s'.log.entries, fun _ => True, True⟩ s s' where
  before := rfl
  before' := rfl
  exact _ := by rw [h.code]
  structs := h.structs
  globals := h.globals
  functions name := by
    rw [h.functions]
    exact Signature.sameFace_rel _
  places entry _ := by
    cases entry.2.storage with
    | stack | direct => exact fun _ _ => trivial
    | global => trivial

/-- So they come to the same function and the same pool. -/
theorem Follows.lowerBody (h : Follows options before s s') (d : DeclaredFunction)
    (body : Statement) :
    (s'.lowerBody d body).builder.function = (s.lowerBody d body).builder.function ∧
      (s'.lowerBody d body).globals = (s.lowerBody d body).globals := by
  obtain ⟨w, -, hcoupled⟩ := h.fits.exists_coupled d body
  have hglobals := hcoupled.exact trivial
  have hpools : w.right = w.left := by rw [← hcoupled.right, ← hcoupled.left, hglobals]
  refine ⟨?_, hglobals⟩
  obtain ⟨hf, hf'⟩ | ⟨f, f', hf, hf', hlike⟩ := optionRel_cases hcoupled.builder.function
  · rw [hf, hf']
  · rw [hf, hf', hlike.eq fun _ _ hv => hv.eq hpools]

theorem Follows.code_addBody (h : Follows options before s s') (d : DeclaredFunction)
    (body : Statement) : (s'.addBody options d body).code =
      { (s.addBody talkative d body).code with name := options.moduleName } := by
  obtain ⟨hfunction, hglobals⟩ := h.lowerBody d body
  cases hf : (s.lowerBody d body).builder.function with
  | none =>
    simp only [addBody, hfunction, hf, hglobals, h.code]
  | some f =>
    rw [hf] at hfunction
    cases hfault : f.finalize.fault? with
    | none =>
      rw [addBody_of_sound hfunction hfault, addBody_of_sound hf hfault, hglobals, h.code]
      rfl
    | some fault =>
      rw [addBody_of_fault hfunction hfault, addBody_of_fault hf hfault, hglobals, h.code]

/-- Behind a body, the second unit still follows the first one. -/
theorem Follows.addBody (h : Follows options before s s') (d : DeclaredFunction)
    (body : Statement) :
    Follows options before (s.addBody talkative d body) (s'.addBody options d body) where
  code := h.code_addBody d body
  structs := by rw [(addBody_keeps ..).1, (addBody_keeps ..).1, h.structs]
  functions := by rw [functions_addBody, functions_addBody, h.functions]
  globals := by rw [globals_addBody, globals_addBody, h.globals]
  log := by
    obtain ⟨reported, unused, rejected, hreported, hunused, hrejected, hlog, hlog'⟩ :=
      h.fits.exists_reported d body
    rw [hlog, hlog', h.log, LoweringOptions.announced_append, LoweringOptions.announced_append,
      LoweringOptions.announced_append, LoweringOptions.announced_of_used hreported,
      LoweringOptions.announced_of_used hrejected, List.append_assoc]
    rw [show talkative.warnUnused = true from rfl, if_pos rfl,
      LoweringOptions.announced_of_unused hunused]

theorem Follows.addBodyOf (h : Follows options before s s') (d : DeclaredFunction) :
    Follows options before (s.addBodyOf talkative d) (s'.addBodyOf options d) := by
  rw [UnitState.addBodyOf, UnitState.addBodyOf]
  cases d.decl.body with
  | some body => exact h.addBody d body
  | none => exact h

/-- A pass over declarations keeps what each of its steps keeps. -/
theorem Follows.foldl {α : Type} {step step' : UnitState → α → UnitState}
    (hstep : ∀ s s' a, Follows options before s s' → Follows options before (step s a) (step' s' a))
    (h : Follows options before s s') (l : List α) :
    Follows options before (l.foldl step s) (l.foldl step' s') := by
  induction l generalizing s s' with
  | nil => exact h
  | cons a l ih => exact ih (hstep s s' a h)

theorem Follows.foldl_addFunction (h : Follows options before s s')
    (declared : List DeclaredFunction) (decls : List (FunctionDecl Statement)) :
    Follows options before (decls.foldl UnitState.addFunction (s, declared)).1
        (decls.foldl UnitState.addFunction (s', declared)).1 ∧
      (decls.foldl UnitState.addFunction (s', declared)).2 =
        (decls.foldl UnitState.addFunction (s, declared)).2 := by
  induction decls generalizing s s' declared with
  | nil => exact ⟨h, rfl⟩
  | cons decl decls ih =>
    obtain ⟨hs, hdeclared⟩ := h.addFunction declared decl
    rw [List.foldl_cons, List.foldl_cons, ← Prod.eta (UnitState.addFunction (s', declared) decl),
      hdeclared]
    exact ih hs _

end UnitState

/-! ## Programs -/

namespace Program

open UnitState

/-- All runs of a program follow the one that reports all it finds. -/
theorem follows_finished (p : Program) (options : LoweringOptions) (log : DiagnosticLog) :
    Follows options log.entries (p.finished talkative .empty) (p.finished options log) := by
  have hinitial := follows_initial options log talkative.moduleName
  have hinterfaces := hinitial.foldl (fun _ _ decl h => h.addInterface decl) p.interfaces
  have hstructs := hinterfaces.foldl (fun _ _ decl h => h.addStruct decl) p.structs
  have hglobals := hstructs.foldl (fun _ _ decl h => h.addGlobal decl) p.globals
  obtain ⟨hfunctions, hdeclared⟩ := hglobals.foldl_addFunction [] p.functions
  have hdeclares : (p.declare options.moduleName log).2 =
      (p.declare talkative.moduleName .empty).2 := hdeclared
  rw [finished, finished, hdeclares]
  exact Follows.foldl (fun _ _ d h => h.addBodyOf d) hfunctions _

end Program

namespace Arena

variable {arena : Arena}

/-- What can be validated stands for a program. -/
theorem exists_expand (hvalid : arena.validate = .ok ()) : ∃ p, arena.expand = .ok p := by
  unfold validate at hvalid
  cases hp : arena.expand with
  | ok p => exact ⟨p, rfl⟩
  | error fault =>
    rw [hp] at hvalid
    cases hvalid

/-- Options and earlier diagnostics have no influence on the code and on the diagnostics of a run,
up to the name of the module and the warnings about unused variables. A run only adds to the log,
and it is the errors that it has added that decide what it returns. -/
theorem lower_independent (hvalid : arena.validate = .ok ()) :
    ∃ (p : Program) (code : CodeModule) (reported : List Diagnostic), arena.expand = .ok p ∧
      ∀ (options : LoweringOptions) (log : DiagnosticLog),
        p.generate options log = ({ code with name := options.moduleName },
          .ofEntries (log.entries ++ options.announced reported)) ∧
        Severity.error.countIn (options.announced reported) = Severity.error.countIn reported ∧
        arena.lower options log =
          (if Severity.error.countIn reported = 0 then
              .ok { code with name := options.moduleName }
            else .error (.rejected (Severity.error.countIn reported)),
          .ofEntries (log.entries ++ options.announced reported)) := by
  obtain ⟨p, hp⟩ := exists_expand hvalid
  refine ⟨p, (p.finished UnitState.talkative .empty).code,
    (p.finished UnitState.talkative .empty).log.entries, hp, fun options log => ?_⟩
  have hfollows := p.follows_finished options log
  have hlog : (p.finished options log).log = .ofEntries (log.entries ++
      options.announced (p.finished UnitState.talkative .empty).log.entries) :=
    DiagnosticLog.ext hfollows.log
  have hgenerate : p.generate options log = _ :=
    (p.generate_eq options log).trans (congrArg₂ Prod.mk hfollows.code hlog)
  have hcount := options.count_announced (p.finished UnitState.talkative .empty).log.entries
  have herrors : (DiagnosticLog.ofEntries (log.entries ++ options.announced
      (p.finished UnitState.talkative .empty).log.entries)).errorCount - log.errorCount =
        Severity.error.countIn (p.finished UnitState.talkative .empty).log.entries := by
    rw [DiagnosticLog.errorCount_ofEntries, log.errorCount_eq, Severity.countIn_append, hcount,
      Nat.add_sub_cancel_left]
  refine ⟨hgenerate, hcount, ?_⟩
  simp only [Arena.lower, hp, hgenerate, herrors]
  split <;> rfl

/-- A function with a variable that is never read, and a value of the wrong type. -/
def sloppy : Arena where
  exprs := #[⟨.literal (.number "1"), none⟩, ⟨.literal (.string "one"), none⟩]
  stmts := #[⟨.variable ⟨"x", .named "i32", false, some ⟨0⟩, none⟩, none⟩,
    ⟨.variable ⟨"y", .named "i32", false, some ⟨1⟩, none⟩, none⟩, ⟨.block [⟨0⟩, ⟨1⟩], none⟩]
  items := [.function ⟨"main", [], .named "void", some ⟨2⟩, none, none⟩]

/-- An error that was there before. -/
def earlier : DiagnosticLog := .ofEntries [.error "earlier" none]

/-- What is reported about the function. -/
def mismatch : Diagnostic :=
  .error "Type mismatch: expected i32 but found char* in initializer of 'y'" none

/-- The same error is reported behind any log, and the warning only if it is wanted. -/
theorem lower_independent_sloppy :
    sloppy.lower ⟨"quiet", false⟩ earlier =
      (.error (.rejected 1), .ofEntries (earlier.entries ++ [mismatch])) ∧
    sloppy.lower ⟨"loud", true⟩ earlier = (.error (.rejected 1),
      .ofEntries (earlier.entries ++
        [mismatch, (Warning.unusedVariable "x").toDiagnostic none])) := by
  have hvalid : sloppy.validate = .ok () := rfl
  obtain ⟨p, code, reported, -, h⟩ := lower_independent hvalid
  have hreported : reported = [mismatch, (Warning.unusedVariable "x").toDiagnostic none] := by
    have hlog : (sloppy.lower .standard .empty).2 =
        .ofEntries [mismatch, (Warning.unusedVariable "x").toDiagnostic none] := by decide +kernel
    rw [(h .standard .empty).2.2] at hlog
    exact congrArg DiagnosticLog.entries hlog
  subst hreported
  have hcount : Severity.error.countIn
      [mismatch, (Warning.unusedVariable "x").toDiagnostic none] = 1 := rfl
  have hquiet : LoweringOptions.announced ⟨"quiet", false⟩
      [mismatch, (Warning.unusedVariable "x").toDiagnostic none] = [mismatch] := by decide +kernel
  constructor
  · rw [(h _ _).2.2, hcount, hquiet]
    rfl
  · rw [(h _ _).2.2, hcount]
    rfl

end Arena

end SsaLowering
