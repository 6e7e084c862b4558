import SsaLowering.Proofs.Diagnostics
import SsaLowering.Proofs.ExpressionTyping
import SsaLowering.Proofs.Unit

/-!
# What a declaration does to its unit

One statement for each kind of declaration, which says all that it can do: it is refused with
an error, or it adds what it declares. Either way it may report warnings, and the initializer of
a global variable may add string literals.
-/

namespace SsaLowering

namespace Fold

open StringPool

/-- What a global variable can start with: no text, and the address of no other global variable
than those there are. -/
structure Startable (globals : List GlobalVariable) (v : Value) : Prop where
  address : Numbered globals → ∀ name, v = .global name → ∃ g ∈ globals, g.name = name
  plain : ∀ text, v ≠ .bytes text

theorem startable_of_isConstant {globals : List GlobalVariable} {v : Value}
    (h : v.isConstant = true) (hplain : ∀ text, v ≠ .bytes text) : Startable globals v :=
  ⟨fun _ name hv => by simp [hv, Value.isConstant] at h, hplain⟩

/-- At another type, a constant is the same value or a number. -/
theorem startable_of_convertConstant? {globals : List GlobalVariable} {v : TypedValue}
    {target : MachineType} {value : Value} (hv : Startable globals v.value)
    (h : convertConstant? v target = some value) : Startable globals value := by
  unfold convertConstant? at h
  split at h
  · cases h
    exact hv
  · split at h
    · split at h
      · cases h
        exact startable_of_isConstant rfl (by simp)
      · split at h <;> cases h
        exact startable_of_isConstant rfl (by simp)
    · split at h <;> cases h
      exact startable_of_isConstant rfl (by simp)
    · cases h

/-- An address is not converted. -/
theorem eq_of_convertConstant?_global {v : TypedValue} {target : MachineType} {value : Value}
    {name : String} (hv : v.value = .global name) (h : convertConstant? v target = some value) :
    value = .global name := by
  rw [convertConstant?, hv] at h
  split at h
  · exact (Option.some.inj h).symm
  · cases h

/-- The text of the string literal that the evaluation of an initializer comes to. -/
def literalText? : Term → Option String
  | .literal _ (.string text) => some text
  | .unary _ .minus operand => literalText? operand
  | .cast _ target operand => if target.isPointer then literalText? operand else none
  | _ => none

/-- All that the evaluation of an initializer can do: it puts a text into the pool, if it comes to
one, and fails by the fault of the program or has a value, which is the address of that text. -/
def Evaluates (text : Option String) (action : Fold TypedValue) : Prop :=
  ∀ globals, (∃ e, ¬ e.IsInternal ∧ exec action globals = (.error e, hold globals text)) ∨
    ∃ v, Startable (hold globals text) v.value ∧
      (∀ t, text = some t → v.value = .global (intern globals t).1) ∧
      exec action globals = (.ok v, hold globals text)

namespace Evaluates

variable {text : Option String}

theorem pure {v : TypedValue} (h : ∀ globals, Startable globals v.value) :
    Evaluates none (Pure.pure v) :=
  fun globals => .inr ⟨v, h globals, by simp, rfl⟩

theorem throw {e : LoweringError} (h : ¬ e.IsInternal) : Evaluates none (throw e) :=
  fun _ => .inl ⟨e, h, rfl⟩

/-- What comes behind a first value takes it over or fails. -/
theorem bind {x : Fold TypedValue} {f : TypedValue → Fold TypedValue} (hx : Evaluates text x)
    (hf : ∀ v globals, Startable globals v.value →
      (∃ e, ¬ e.IsInternal ∧ exec (f v) globals = (.error e, globals)) ∨
        ∃ w, Startable globals w.value ∧ (∀ name, v.value = .global name → w.value = .global name) ∧
          exec (f v) globals = (.ok w, globals)) :
    Evaluates text (x >>= f) := by
  intro globals
  rcases hx globals with ⟨e, he, hexec⟩ | ⟨v, hv, haddress, hexec⟩
  · exact .inl ⟨e, he, exec_bind_of_error hexec⟩
  · rw [exec_bind_of_ok hexec]
    rcases hf v _ hv with herror | ⟨w, hw, hkeeps, hexec'⟩
    · exact .inl herror
    · exact .inr ⟨w, hw, fun t ht => hkeeps _ (haddress t ht), hexec'⟩

end Evaluates

/-- An initializer is evaluated, by recursion on the initializer. -/
theorem evaluates_initializer (name : String) :
    (term : Term) → Evaluates (literalText? term) (initializer name term)
  | .literal location (.number numeral) => by
    rw [initializer]
    cases h : lowerNumeral numeral with
    | error e =>
      refine .throw ?_
      rw [LoweringError.isInternal_orAt]
      exact not_isInternal_of_lowerNumeral h
    | ok v =>
      refine .pure fun globals => ?_
      rcases lowerNumeral_cases h with ⟨x, rfl⟩ | ⟨n, w, -, rfl, -⟩
      · exact startable_of_isConstant rfl (by simp [TypedValue.plain])
      · exact startable_of_isConstant rfl (by simp [TypedValue.plain])
  | .literal _ (.string text) => by
    intro globals
    refine .inr ⟨_, ⟨fun hn symbol heq => ?_, by simp [stringValue]⟩, ?_, rfl⟩
    · obtain rfl : _ = symbol := Value.global.inj heq
      exact hn.exists_intern
    · rintro _ ⟨rfl⟩
      rfl
  | .literal _ (.bool b) =>
    .pure fun _ => startable_of_isConstant rfl (by simp [TypedValue.truth])
  | .literal _ .null => .pure fun _ => startable_of_isConstant rfl (by simp [TypedValue.null])
  | .unary location .minus operand => by
    rw [initializer]
    refine (evaluates_initializer name operand).bind fun v globals hv => ?_
    cases v.value with
    | int n => exact .inr ⟨_, startable_of_isConstant rfl (by simp), by simp, rfl⟩
    | float x => exact .inr ⟨_, startable_of_isConstant rfl (by simp), by simp, rfl⟩
    | _ => exact .inl ⟨_, by rintro ⟨_, ⟨⟩⟩, rfl⟩
  | .cast location target operand => by
    rw [initializer, literalText?]
    split
    · refine (evaluates_initializer name operand).bind fun v globals hv => ?_
      split
      · exact .inr ⟨⟨v.value, .ptr, some target⟩, hv, fun _ => id, rfl⟩
      · exact .inl ⟨_, by rintro ⟨_, ⟨⟩⟩, rfl⟩
    · exact .throw (by rintro ⟨_, ⟨⟩⟩)
  | .variable .. | .call .. | .binary .. | .unary _ .logicalNot _ | .unary _ .preIncrement _
  | .unary _ .preDecrement _ | .unary _ .postIncrement _ | .unary _ .postDecrement _ | .alloc ..
  | .assign .. | .member .. => .throw (by rintro ⟨_, ⟨⟩⟩)

end Fold

/-- The text that the declaration of a global variable puts into the pool, if there is one. -/
def VariableDecl.literalText? (decl : VariableDecl Term) : Option String :=
  decl.initializer.bind Fold.literalText?

namespace Declare

open StringPool

variable {α : Type} {initial : Option TypedValue}

/-- A step in the evaluation of an initializer changes the global variables only. -/
theorem exec_fold (action : Fold α) (s : UnitState) : exec (fold action) s =
    ((exec action s.code.globals).1,
      { s with code := { s.code with globals := (exec action s.code.globals).2 } }) := by
  have heq : exec (fold action) s = exec (match exec action s.code.globals with
      | (result, globals) => do
        set { s with code := { s.code with globals := globals } }
        liftExcept result) s := rfl
  rw [heq]
  rcases exec action s.code.globals with ⟨_ | _, globals⟩ <;> rfl

/-- The initializer of a global variable, if it has one, is evaluated. -/
theorem exec_initial (decl : VariableDecl Term) (s : UnitState) {globals : List GlobalVariable}
    (hglobals : globals = hold s.code.globals decl.literalText?) :
    (∃ e, ¬ e.IsInternal ∧
      exec (decl.initializer.mapM fun term => fold (Fold.initializer decl.name term)) s =
        (.error e, { s with code := { s.code with globals } })) ∨
      ∃ initial : Option TypedValue, (∀ v, initial = some v → Fold.Startable globals v.value) ∧
        (∀ t, decl.literalText? = some t →
          ∃ v, initial = some v ∧ v.value = .global (intern s.code.globals t).1) ∧
        exec (decl.initializer.mapM fun term => fold (Fold.initializer decl.name term)) s =
          (.ok initial, { s with code := { s.code with globals } }) := by
  subst hglobals
  rw [VariableDecl.literalText?]
  cases decl.initializer with
  | none => exact .inr ⟨none, by simp, by simp, rfl⟩
  | some term =>
    have hmap : exec ((some term).mapM fun term => fold (Fold.initializer decl.name term)) s =
        exec (some <$> fold (Fold.initializer decl.name term)) s := rfl
    rcases Fold.evaluates_initializer decl.name term s.code.globals with
      ⟨e, he, hexec⟩ | ⟨v, hv, haddress, hexec⟩
    all_goals rw [hmap, exec_map, exec_fold, hexec]
    · exact .inl ⟨e, he, rfl⟩
    · refine .inr ⟨some v, fun w hw => ?_, fun t ht => ⟨v, rfl, haddress t ht⟩, rfl⟩
      obtain rfl := Option.some.inj hw
      exact hv

/-- The source type of a global variable is found, or it cannot be inferred. -/
theorem exec_globalType (decl : VariableDecl Term) (initial : Option TypedValue) (s : UnitState) :
    ∃ log, s.log.Warned log ∧
      ((∃ e, ¬ e.IsInternal ∧ exec (globalType decl initial) s = (.error e, { s with log })) ∨
      ∃ source, (decl.type.isInferred = false → source = decl.type) ∧
        exec (globalType decl initial) s = (.ok source, { s with log })) := by
  unfold globalType
  split
  · next hinferred =>
    cases initial with
    | some v => exact ⟨s.log, .refl _, .inr ⟨v.inferredType, by simp [hinferred], rfl⟩⟩
    | none => exact ⟨s.log, .refl _, .inl ⟨_, by rintro ⟨_, ⟨⟩⟩, rfl⟩⟩
  · rw [exec_bind, exec_get]
    by_cases hknown : s.structs.isKnown decl.type = true
    · exact ⟨s.log, .refl _, .inr ⟨decl.type, fun _ => rfl, by simp only [hknown]; rfl⟩⟩
    · exact ⟨_, s.log.warned_report _ _,
        .inr ⟨decl.type, fun _ => rfl, by simp only [hknown]; rfl⟩⟩

/-- An initializer is taken to the type of its variable, or it does not fit. -/
theorem exec_globalValue {globals : List GlobalVariable} (decl : VariableDecl Term)
    (source : SourceType) (type : MachineType)
    (h : ∀ v, initial = some v → Fold.Startable globals v.value) (s : UnitState) :
    (∃ e, ¬ e.IsInternal ∧ exec (globalValue decl source type initial) s = (.error e, s)) ∨
      ∃ value, (∀ v, value = some v → Fold.Startable globals v) ∧
        (∀ v name, initial = some v → v.value = .global name → value = some (.global name)) ∧
        exec (globalValue decl source type initial) s = (.ok value, s) := by
  cases initial with
  | none => exact .inr ⟨none, by simp, by simp, rfl⟩
  | some v =>
    rw [globalValue]
    cases hvalue : convertConstant? v type with
    | none => exact .inl ⟨_, by rintro ⟨_, ⟨⟩⟩, rfl⟩
    | some value =>
      refine .inr ⟨some value, fun w hw => ?_, ?_, rfl⟩
      · obtain rfl := Option.some.inj hw
        exact Fold.startable_of_convertConstant? (h v rfl) hvalue
      · rintro _ name ⟨rfl⟩ hname
        rw [Fold.eq_of_convertConstant?_global hname hvalue]

theorem exec_globalVariable_of_repeated {decl : VariableDecl Term} {s : UnitState}
    (h : (s.globals.lookup decl.name).isSome = true) : exec (globalVariable decl) s =
      (.error ⟨.redefinition .global decl.name, decl.location⟩, s) := by
  unfold globalVariable
  show exec (if (s.globals.lookup decl.name).isSome then _ else _) s = _
  rw [if_pos h]
  rfl

/-- Under a new name, the initializer is evaluated first. -/
theorem exec_globalVariable_of_new {decl : VariableDecl Term} {s : UnitState}
    (hnew : s.globals.lookup decl.name = none) : exec (globalVariable decl) s = exec (do
      let initial ← decl.initializer.mapM fun term => fold (Fold.initializer decl.name term)
      let source ← globalType decl initial
      let type := (← get).structs.resolve source
      let value ← globalValue decl source type initial
      let entry : GlobalVariable := ⟨decl.name, type, !decl.isMutable, value, .external⟩
      let binding : Binding :=
        ⟨.global decl.name, source, type, decl.isMutable, true, decl.location⟩
      modify fun s => { s with
        code := s.code.addGlobal entry
        globals := (decl.name, binding) :: s.globals } : Declare Unit) s := by
  unfold globalVariable
  show exec (if (s.globals.lookup decl.name).isSome then _ else _) s = _
  rw [hnew]
  rfl

/-- A global variable under a new name is added, or it is refused. Either way, its initializer may
have put a text into the pool. -/
theorem exec_globalVariable {decl : VariableDecl Term} {s : UnitState}
    (hnew : s.globals.lookup decl.name = none) {globals : List GlobalVariable}
    (hglobals : globals = hold s.code.globals decl.literalText?) :
    ∃ log, s.log.Warned log ∧
      ((∃ e, ¬ e.IsInternal ∧ exec (globalVariable decl) s =
        (.error e, { s with code := { s.code with globals }, log })) ∨
      ∃ source value, (decl.type.isInferred = false → source = decl.type) ∧
        (∀ v, value = some v → Fold.Startable globals v) ∧
        (∀ t, decl.literalText? = some t → value = some (.global (intern s.code.globals t).1)) ∧
        exec (globalVariable decl) s = (.ok (), { s with
          code := { s.code with globals := globals ++
            [⟨decl.name, s.structs.resolve source, !decl.isMutable, value, .external⟩] }
          globals := (decl.name, ⟨.global decl.name, source, s.structs.resolve source,
            decl.isMutable, true, decl.location⟩) :: s.globals
          log })) := by
  have hstart := exec_globalVariable_of_new hnew
  rcases exec_initial decl s hglobals with ⟨e, he, hexec⟩ | ⟨initial, hinitial, haddress, hexec⟩
  · exact ⟨s.log, .refl _, .inl ⟨e, he, hstart.trans (exec_bind_of_error hexec)⟩⟩
  · replace hstart := hstart.trans (exec_bind_of_ok hexec)
    obtain ⟨log, hlog, ⟨e, he, hexec⟩ | ⟨source, hsource, hexec⟩⟩ :=
      exec_globalType decl initial { s with code := { s.code with globals } }
    · exact ⟨log, hlog, .inl ⟨e, he, hstart.trans (exec_bind_of_error hexec)⟩⟩
    · replace hstart := hstart.trans ((exec_bind_of_ok hexec).trans (exec_bind_of_ok rfl))
      rcases exec_globalValue decl source (s.structs.resolve source) hinitial
          { s with code := { s.code with globals }, log } with
        ⟨e, he, hexec⟩ | ⟨value, hvalue, hsame, hexec⟩
      · exact ⟨log, hlog, .inl ⟨e, he, hstart.trans (exec_bind_of_error hexec)⟩⟩
      · refine ⟨log, hlog, .inr ⟨source, value, hsource, hvalue, fun t ht => ?_,
          hstart.trans (exec_bind_of_ok hexec)⟩⟩
        obtain ⟨v, hv, hname⟩ := haddress t ht
        exact hsame v _ hv hname

/-- A type that is not known is warned about. -/
theorem exec_checkKnown (type : SourceType) (w : Warning) (location : Option Location)
    (s : UnitState) : ∃ log, s.log.Warned log ∧
      exec (checkKnown type w location) s = (.ok (), { s with log }) := by
  unfold checkKnown
  rw [exec_bind, exec_get]
  by_cases hknown : (type.isVoid || s.structs.isKnown type) = true
  · exact ⟨s.log, .refl _, by simp only [hknown]; rfl⟩
  · exact ⟨_, s.log.warned_report w location, by simp only [hknown]; rfl⟩

theorem exec_checkParams (decl : FunctionDecl Statement) (params : List Parameter)
    (s : UnitState) : ∃ log, s.log.Warned log ∧
      exec (params.forM fun param => checkKnown param.type
        (.unknownParameterType param.type param.name decl.name) decl.location) s =
        (.ok (), { s with log }) := by
  induction params generalizing s with
  | nil => exact ⟨s.log, .refl _, rfl⟩
  | cons param params ih =>
    obtain ⟨log, hlog, hexec⟩ := exec_checkKnown param.type
      (.unknownParameterType param.type param.name decl.name) decl.location s
    obtain ⟨log', hlog', hexec'⟩ := ih { s with log }
    exact ⟨log', hlog.trans hlog', (exec_bind_of_ok hexec).trans hexec'⟩

end Declare

namespace UnitState

open StringPool

variable {s : UnitState}

/-- An interface that is declared again is reported, and that is all. -/
theorem addInterface_of_repeated {decl : InterfaceDecl}
    (h : s.structs.hasInterface decl.name = true) :
    s.addInterface decl = s.reportError ⟨.redefinition .interface decl.name, decl.location⟩ := by
  simp [addInterface, StructTable.declareInterface, h]

/-- An interface under a new name joins the interfaces. -/
theorem addInterface_of_new {decl : InterfaceDecl}
    (h : s.structs.hasInterface decl.name = false) : s.addInterface decl =
      { s with structs := { s.structs with interfaces := s.structs.interfaces ++ [decl] } } := by
  simp [addInterface, StructTable.declareInterface, h]

/-- An interface joins the interfaces, or there is one of this name already. -/
theorem addInterface_cases (s : UnitState) (decl : InterfaceDecl) :
    (∃ e, ¬ e.IsInternal ∧ s.addInterface decl = s.reportError e) ∨
      ∃ interfaces, s.addInterface decl = { s with structs := { s.structs with interfaces } } := by
  cases h : s.structs.hasInterface decl.name with
  | true => exact .inl ⟨_, by rintro ⟨_, ⟨⟩⟩, addInterface_of_repeated h⟩
  | false => exact .inr ⟨_, addInterface_of_new h⟩

/-- A struct that is declared again is reported, and that is all. -/
theorem addStruct_of_repeated {decl : StructDecl} (h : s.structs.contains decl.name = true) :
    s.addStruct decl = s.reportError ⟨.redefinition .struct decl.name, decl.location⟩ := by
  simp [addStruct, StructTable.define, h]

/-- A struct under a new name is laid out, which may give rise to warnings. -/
theorem addStruct_of_new (hc : s.structs.Consistent) {decl : StructDecl}
    (h : s.structs.contains decl.name = false) :
    ∃ layout log, s.structs.layout? decl = some layout ∧ s.log.Warned log ∧
      s.addStruct decl = { s with
        structs := { s.structs with layouts := s.structs.layouts ++ [layout] }
        log
        code := s.code.addType layout.name layout.type } := by
  obtain ⟨layout, hlayout, -⟩ := hc.exists_layout decl
  have hwarned : s.log.Warned ((s.structs.warnings decl).foldl
      (fun log w => log.report (w.toDiagnostic decl.location)) s.log) :=
    .foldl fun log w => log.warned_report w decl.location
  refine ⟨layout, _, hlayout, hwarned, ?_⟩
  simp [addStruct, StructTable.define, h, hlayout]

/-- A struct joins the structs under a new name, or there is one of this name already. -/
theorem addStruct_cases (hc : s.structs.Consistent) (decl : StructDecl) :
    (∃ e, ¬ e.IsInternal ∧ s.addStruct decl = s.reportError e) ∨
      ∃ layout log, s.structs.contains decl.name = false ∧
        s.structs.layout? decl = some layout ∧ s.log.Warned log ∧ s.addStruct decl = { s with
          structs := { s.structs with layouts := s.structs.layouts ++ [layout] }
          log
          code := s.code.addType layout.name layout.type } := by
  cases h : s.structs.contains decl.name with
  | true => exact .inl ⟨_, by rintro ⟨_, ⟨⟩⟩, addStruct_of_repeated h⟩
  | false =>
    obtain ⟨layout, log, hnew⟩ := addStruct_of_new hc h
    exact .inr ⟨layout, log, rfl, hnew⟩

/-- A global variable that is declared again is reported, and that is all. -/
theorem addGlobal_of_repeated {decl : VariableDecl Term}
    (h : (s.globals.lookup decl.name).isSome = true) :
    s.addGlobal decl = s.reportError ⟨.redefinition .global decl.name, decl.location⟩ := by
  rw [addGlobal_of_error (Declare.exec_globalVariable_of_repeated h)]
  cases hlocation : decl.location <;> rfl

/-- The declaration of a global variable succeeds. -/
def accepts (s : UnitState) (decl : VariableDecl Term) : Bool :=
  (exec (Declare.globalVariable decl) s).1.isOk

/-- A global variable under a new name is added, or it is refused. Either way, its initializer may
have put a text into the pool. -/
theorem addGlobal_of_new {decl : VariableDecl Term} (hnew : s.globals.lookup decl.name = none)
    {globals : List GlobalVariable} (hglobals : globals = hold s.code.globals decl.literalText?) :
    ∃ log, s.log.Warned log ∧
      ((s.accepts decl = false ∧ ∃ e, ¬ e.IsInternal ∧ s.addGlobal decl =
        { s with code := { s.code with globals }, log }.reportError e) ∨
      (s.accepts decl = true ∧ ∃ source value, (decl.type.isInferred = false → source = decl.type) ∧
        (∀ v, value = some v → Fold.Startable globals v) ∧
        (∀ t, decl.literalText? = some t → value = some (.global (intern s.code.globals t).1)) ∧
        s.addGlobal decl = { s with
          code := { s.code with globals := globals ++
            [⟨decl.name, s.structs.resolve source, !decl.isMutable, value, .external⟩] }
          globals := (decl.name, ⟨.global decl.name, source, s.structs.resolve source,
            decl.isMutable, true, decl.location⟩) :: s.globals
          log })) := by
  obtain ⟨log, hlog, ⟨e, he, hexec⟩ | ⟨source, value, hsource, hvalue, haddress, hexec⟩⟩ :=
    Declare.exec_globalVariable hnew hglobals
  · exact ⟨log, hlog, .inl ⟨by rw [accepts, hexec]; rfl, e.orAt decl.location, by simpa using he,
      addGlobal_of_error hexec⟩⟩
  · exact ⟨log, hlog, .inr ⟨by rw [accepts, hexec]; rfl, source, value, hsource, hvalue,
      haddress, addGlobal_of_ok hexec⟩⟩

/-- A global variable is added under a new name, or it is refused. Either way, its initializer
may have added string literals. -/
theorem addGlobal_cases (s : UnitState) (decl : VariableDecl Term) :
    ∃ globals log, Interned s.code.globals globals ∧ s.log.Warned log ∧
      ((∃ e, ¬ e.IsInternal ∧ s.addGlobal decl =
        { s with code := { s.code with globals }, log }.reportError e) ∨
      s.globals.lookup decl.name = none ∧
        ∃ source value, (∀ v, value = some v → Fold.Startable globals v) ∧
          s.addGlobal decl = { s with
            code := { s.code with globals := globals ++
              [⟨decl.name, s.structs.resolve source, !decl.isMutable, value, .external⟩] }
            globals := (decl.name, ⟨.global decl.name, source, s.structs.resolve source,
              decl.isMutable, true, decl.location⟩) :: s.globals
            log }) := by
  cases hlookup : s.globals.lookup decl.name with
  | some binding =>
    exact ⟨s.code.globals, s.log, .refl, .refl _,
      .inl ⟨_, by rintro ⟨_, ⟨⟩⟩, addGlobal_of_repeated (by rw [hlookup]; rfl)⟩⟩
  | none =>
    obtain ⟨log, hlog, ⟨-, hrefused⟩ | ⟨-, source, value, -, hvalue, -, heq⟩⟩ :=
      addGlobal_of_new hlookup rfl
    · exact ⟨_, log, interned_hold _ _, hlog, .inl hrefused⟩
    · exact ⟨_, log, interned_hold _ _, hlog, .inr ⟨rfl, source, value, hvalue, heq⟩⟩

/-- A function that is declared again is reported, and that is all. -/
theorem addFunction_of_repeated {declared : List DeclaredFunction} {decl : FunctionDecl Statement}
    (h : decl.name ∈ declared.map (·.decl.name)) : addFunction (s, declared) decl =
      (s.reportError ⟨.redefinition .function decl.name, decl.location⟩, declared) := by
  have hname : (declared.map (·.decl.name)).contains decl.name = true := by simpa using h
  refine addFunction_of_error ?_
  unfold Declare.function
  rw [if_pos hname]
  rfl

/-- A function under a new name is declared, whatever its types gave rise to. -/
theorem addFunction_of_new {declared : List DeclaredFunction} {decl : FunctionDecl Statement}
    (hname : decl.name ∉ declared.map (·.decl.name)) {log log' : DiagnosticLog}
    (hreturn : exec (Declare.checkKnown decl.returnType
      (.unknownReturnType decl.returnType decl.name) decl.location) s = (.ok (), { s with log }))
    (hparams : exec (decl.params.forM fun param => Declare.checkKnown param.type
      (.unknownParameterType param.type param.name decl.name) decl.location) { s with log } =
        (.ok (), { s with log := log' })) :
    ∃ d : DeclaredFunction, d.decl = decl ∧
      d.signature = .ofSource s.structs (decl.params.map (·.type)) decl.returnType false
        decl.owner ∧
      addFunction (s, declared) decl = ({ s with
        code := s.code.replaceFunction d.declaration
        functions := (decl.name, d.signature) :: s.functions
        log := log' }, declared ++ [d]) := by
  let signature := Signature.ofSource s.structs (decl.params.map (·.type)) decl.returnType false
    decl.owner
  refine ⟨⟨decl, signature⟩, rfl, rfl, addFunction_of_ok ?_⟩
  unfold Declare.function
  rw [if_neg (by simpa using hname)]
  exact (exec_bind_of_ok hreturn).trans (exec_bind_of_ok hparams)

/-- A function is declared under a new name, or there is one of this name already. -/
theorem addFunction_cases (s : UnitState) (declared : List DeclaredFunction)
    (decl : FunctionDecl Statement) :
    (decl.name ∈ declared.map (·.decl.name) ∧ ∃ e, ¬ e.IsInternal ∧
      addFunction (s, declared) decl = (s.reportError e, declared)) ∨
    (decl.name ∉ declared.map (·.decl.name) ∧ ∃ d log, s.log.Warned log ∧ d.decl = decl ∧
      d.signature = .ofSource s.structs (decl.params.map (·.type)) decl.returnType false
        decl.owner ∧
      addFunction (s, declared) decl = ({ s with
        code := s.code.replaceFunction d.declaration
        functions := (decl.name, d.signature) :: s.functions
        log }, declared ++ [d])) := by
  by_cases hname : decl.name ∈ declared.map (·.decl.name)
  · exact .inl ⟨hname, _, by rintro ⟨_, ⟨⟩⟩, addFunction_of_repeated hname⟩
  · obtain ⟨log, hlog, hreturn⟩ := Declare.exec_checkKnown decl.returnType
      (.unknownReturnType decl.returnType decl.name) decl.location s
    obtain ⟨log', hlog', hparams⟩ := Declare.exec_checkParams decl decl.params { s with log }
    obtain ⟨d, hdecl, hsignature, heq⟩ := addFunction_of_new hname hreturn hparams
    exact .inr ⟨hname, d, log', hlog.trans hlog', hdecl, hsignature, heq⟩

/-! ## What a declaration reports -/

theorem judges_addInterface (s : UnitState) (decl : InterfaceDecl) :
    s.log.Judges (s.addInterface decl).log := by
  rcases s.addInterface_cases decl with ⟨e, he, heq⟩ | ⟨interfaces, heq⟩
  all_goals rw [heq]
  · exact s.log.judges_report he
  · exact .refl s.log

theorem judges_addStruct (hc : s.structs.Consistent) (decl : StructDecl) :
    s.log.Judges (s.addStruct decl).log := by
  rcases addStruct_cases hc decl with ⟨e, he, heq⟩ | ⟨layout, log, -, -, hlog, heq⟩
  all_goals rw [heq]
  · exact s.log.judges_report he
  · exact hlog.judges

theorem judges_addGlobal (s : UnitState) (decl : VariableDecl Term) :
    s.log.Judges (s.addGlobal decl).log := by
  obtain ⟨globals, log, -, hlog, ⟨e, he, heq⟩ | ⟨-, source, value, -, heq⟩⟩ :=
    s.addGlobal_cases decl
  all_goals rw [heq]
  · exact hlog.judges.trans (log.judges_report he)
  · exact hlog.judges

theorem judges_addFunction (s : UnitState) (declared : List DeclaredFunction)
    (decl : FunctionDecl Statement) :
    s.log.Judges (UnitState.addFunction (s, declared) decl).1.log := by
  rcases s.addFunction_cases declared decl with ⟨-, e, he, heq⟩ | ⟨-, d, log, hlog, -, -, heq⟩
  all_goals rw [heq]
  · exact s.log.judges_report he
  · exact hlog.judges

theorem judges_foldl_addGlobal (s : UnitState) (decls : List (VariableDecl Term)) :
    s.log.Judges (decls.foldl UnitState.addGlobal s).log :=
  List.foldlRecOn (motive := fun s' : UnitState => s.log.Judges s'.log) decls _ (.refl s.log)
    fun _ hs decl _ => hs.trans (judges_addGlobal _ decl)

theorem judges_foldl_addFunction (acc : UnitState × List DeclaredFunction)
    (decls : List (FunctionDecl Statement)) :
    acc.1.log.Judges (decls.foldl UnitState.addFunction acc).1.log :=
  List.foldlRecOn (motive := fun acc' : UnitState × List DeclaredFunction =>
    acc.1.log.Judges acc'.1.log) decls _ (.refl _)
    fun _ hacc decl _ => hacc.trans (judges_addFunction _ _ decl)

/-- Behind a body, only unused variables are reported. -/
theorem warned_bodyLog (options : LoweringOptions) (s : UnitState) (d : DeclaredFunction)
    (body : Statement) : (s.lowerBody d body).log.Warned (s.bodyLog options d body) := by
  rw [bodyLog]
  split
  · exact .foldl fun log entry => log.warned_report (.unusedVariable entry.1) entry.2.location
  · exact .refl _

/-- A function that is dropped is reported, too. -/
theorem judges_addBody {s : UnitState} {d : DeclaredFunction} {body : Statement} {f : FunctionDef}
    (hf : (s.lowerBody d body).builder.function = some f) (options : LoweringOptions) :
    (s.lowerBody d body).log.Judges (s.addBody options d body).log := by
  have hlog := (s.warned_bodyLog options d body).judges
  cases hfault : f.finalize.fault? with
  | none =>
    rw [addBody_of_sound hf hfault]
    exact hlog
  | some fault =>
    rw [addBody_of_fault hf hfault]
    exact hlog.trans (DiagnosticLog.judges_report _ (by rintro ⟨_, ⟨⟩⟩))

end UnitState

namespace Program

open UnitState

variable {p : Program} {options : LoweringOptions} {log : DiagnosticLog} {f : FunctionDef}

/-- Declarations define no function. -/
theorem blocks_eq_nil_of_mem_declare {moduleName : String}
    (hf : f ∈ (p.declare moduleName log).1.code.functions) : f.blocks = [] := by
  refine List.foldlRecOn (motive := fun acc : UnitState × List DeclaredFunction =>
    ∀ f ∈ acc.1.code.functions, f.blocks = []) p.functions UnitState.addFunction ?_ ?_ f hf
  · intro f hf
    have hkeeps := p.keeps_declareGlobals (initial moduleName log)
    obtain ⟨entry, -, rfl⟩ : ∃ entry ∈ predeclared, entry.2.declaration entry.1 none = f := by
      rw [← List.mem_map]
      exact (congrArg (f ∈ ·) hkeeps.functions).mp hf
    rfl
  · rintro ⟨s, declared⟩ hs decl - f hf
    rcases s.addFunction_cases declared decl with ⟨-, e, -, heq⟩ | ⟨-, d, log, -, -, -, heq⟩
    all_goals rw [heq] at hf
    · exact hs f hf
    · rcases CodeModule.eq_or_mem_of_mem_replaceIn hf with rfl | hf
      · rfl
      · exact hs f hf

/-- A function of the module has no body, or it is what is left of one. -/
theorem eq_finalize_of_mem_generate (hf : f ∈ (p.generate options log).1.functions) :
    f.blocks = [] ∨ ∃ s d body g, p.Turn options log s d body ∧
      (s.lowerBody d body).builder.function = some g ∧ f = g.finalize := by
  obtain ⟨-, s, hs, heq⟩ := p.induction_turns options log
    (motive := fun s => ∀ f ∈ s.code.functions, f.blocks = [] ∨
      ∃ s d body g, p.Turn options log s d body ∧
        (s.lowerBody d body).builder.function = some g ∧ f = g.finalize)
    (fun f hf => .inl (blocks_eq_nil_of_mem_declare hf)) fun s d body hturn hs f hf => by
      obtain ⟨g, -, -, hg, -⟩ := exists_draft_lowerBody (hturn.sound.rooted.environment d) body
      cases hfault : g.finalize.fault? with
      | some fault =>
        rw [addBody_of_fault hg hfault] at hf
        exact hs f hf
      | none =>
        rw [addBody_of_sound hg hfault] at hf
        rcases CodeModule.eq_or_mem_of_mem_replaceIn hf with rfl | hf
        · exact .inr ⟨s, d, body, g, hturn, hg, rfl⟩
        · exact hs f hf
  rw [heq] at hf
  exact hs f hf

end Program

end SsaLowering
