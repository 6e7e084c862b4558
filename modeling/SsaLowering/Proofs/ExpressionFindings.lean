import SsaLowering.Proofs.Diagnostics
import SsaLowering.Proofs.ExpressionCode

/-!
# What the lowering of expressions finds

Started in an open block, the lowering of an expression breaks one of its own assumptions only:
that the allocator returns a value. Whatever else it reports or fails with is a finding about the
program. There is one rule for each way to put actions together, and one statement for each
action.
-/

namespace SsaLowering

/-- Behind the state, findings about the program were reported, and if the action failed, then
with such a finding, up to the given faults of the lowering. -/
structure BodyState.Finds {α : Type} (faults : String → Prop) (s : BodyState)
    (result : Except LoweringError α × BodyState) : Prop where
  log : s.log.JudgesUpTo faults result.2.log
  error : ∀ e, result.1 = .error e → e.Within faults

/-- The action reports nothing. -/
def Lower.Silent {α : Type} (action : Lower α) : Prop :=
  ∀ s : BodyState, (exec action s).2.log = s.log

namespace Lower.Silent

variable {α β : Type}

theorem pure (a : α) : Silent (Pure.pure a : Lower α) := fun _ => rfl

theorem bind {x : Lower α} {f : α → Lower β} (hx : Silent x) (hf : ∀ a, Silent (f a)) :
    Silent (x >>= f) := by
  intro s
  have h := hx s
  rcases hexec : exec x s with ⟨e | a, s₁⟩
  all_goals rw [hexec] at h
  · rw [exec_bind_of_error hexec]
    exact h
  · rw [exec_bind_of_ok hexec]
    exact (hf a s₁).trans h

theorem build (action : Build α) : Silent (build action) := by
  intro s
  rw [exec_build]
  rcases exec action s.builder with ⟨_ | _, _⟩ <;> rfl

theorem jumpTo (target label : Nat) (hint : String) : Silent (jumpTo target label hint) :=
  (build _).bind fun _ => build _

theorem branchTo (value : Value) (ifTrue ifFalse label : Nat) (hint : String) :
    Silent (branchTo value ifTrue ifFalse label hint) :=
  (build _).bind fun _ => build _

theorem openFork (isAnd : Bool) (value : Value) : Silent (openFork isAnd value) :=
  (build _).bind fun _ => (build _).bind fun _ => (branchTo _ _ _ _ _).bind fun _ => pure _

theorem proceedTo (target label : Nat) (hint : String) : Silent (proceedTo target label hint) := by
  refine Silent.bind (bind (fun s => ?_) fun terminated => ?_) fun _ => build _
  · rw [exec_isTerminated]
  · split
    · exact pure ()
    · exact build _

end Lower.Silent

namespace BodyState

variable {α : Type} {faults : String → Prop} {s s' : BodyState} {a : α} {e : LoweringError}

theorem finds_ok (h : s.log.JudgesUpTo faults s'.log) :
    s.Finds faults ((.ok a : Except LoweringError α), s') := ⟨h, fun _ h => by cases h⟩

theorem finds_error (h : s.log.JudgesUpTo faults s'.log) (he : e.Within faults) :
    s.Finds faults ((.error e : Except LoweringError α), s') := by
  refine ⟨h, fun e' h' => ?_⟩
  obtain rfl := Except.error.inj h'
  exact he

end BodyState

/-- If the allocator of an environment returns no value, then that is among the faults. -/
def Environment.Excuses (env : Environment) (faults : String → Prop) : Prop :=
  ∀ sig, env.functions.lookup Lower.allocator = some sig → sig.returnType = .void →
    faults ("'" ++ Lower.allocator ++ "' returned no value")

/-- Started in an open block, the action stays in one and finds faults of the program only, up to
the given faults of the lowering. -/
def Lower.Judges {α : Type} (faults : String → Prop) (action : Lower α) : Prop :=
  ∀ s : BodyState, s.Steady → s.StandsOpen →
    s.Finds faults (exec action s) ∧ (exec action s).2.Steady ∧ (exec action s).2.StandsOpen

namespace Lower.Judges

open BodyState

variable {α β : Type} {faults : String → Prop} {env : Environment}

/-! ## Rules -/

theorem pure (a : α) : Judges faults (Pure.pure a : Lower α) :=
  fun s hs ho => ⟨finds_ok (.refl s.log), hs, ho⟩

theorem throw {e : LoweringError} (he : e.Within faults) : Judges faults (throw e : Lower α) :=
  fun s hs ho => ⟨finds_error (.refl s.log) he, hs, ho⟩

theorem fail {cause : Cause} (h : ∀ message, cause ≠ .internal message) :
    Judges faults (Lower.fail cause : Lower α) := throw fun message heq => absurd heq (h message)

theorem bind {x : Lower α} {f : α → Lower β} (hx : Judges faults x)
    (hf : ∀ a, Judges faults (f a)) : Judges faults (x >>= f) := by
  intro s hs ho
  obtain ⟨hfinds, hsteady, hopen⟩ := hx s hs ho
  rcases hexec : exec x s with ⟨e | a, s₁⟩
  all_goals rw [hexec] at hfinds hsteady hopen
  · rw [exec_bind_of_error hexec]
    exact ⟨finds_error hfinds.log (hfinds.error e rfl), hsteady, hopen⟩
  · rw [exec_bind_of_ok hexec]
    obtain ⟨hfinds', hready⟩ := hf a s₁ hsteady hopen
    exact ⟨⟨hfinds.log.trans hfinds'.log, hfinds'.error⟩, hready⟩

theorem orFail {result : Option α} {cause : Cause} (h : ∀ message, cause ≠ .internal message) :
    Judges faults (Lower.orFail result cause) := by
  cases result with
  | none => exact fail h
  | some a => exact pure a

theorem orFail_some (a : α) (cause : Cause) : Judges faults (Lower.orFail (some a) cause) := pure a

/-- A choice is made, or the action fails. -/
theorem orFail_bind {result : Option α} {cause : Cause} {f : α → Lower β}
    (h : ∀ message, cause ≠ .internal message) (hf : ∀ a, result = some a → Judges faults (f a)) :
    Judges faults (Lower.orFail result cause >>= f) := by
  cases result with
  | none =>
    have he : (LoweringError.unplaced cause).Within faults := fun message heq =>
      absurd heq (h message)
    exact fun s hs ho => ⟨finds_error (.refl s.log) he, hs, ho⟩
  | some a => exact hf a rfl

theorem located {location : Option Location} {x : Lower α} (h : Judges faults x) :
    Judges faults (located location x) := by
  intro s hs ho
  obtain ⟨hfinds, hready⟩ := h s hs ho
  rw [exec_located]
  rcases hexec : exec x s with ⟨e | a, s₁⟩
  all_goals rw [hexec] at hfinds hready
  · exact ⟨finds_error hfinds.log (by simpa using hfinds.error e rfl), hready⟩
  · exact ⟨hfinds, hready⟩

/-- An action that is carried out only if a condition holds. -/
theorem guarded {c : Prop} [Decidable c] {e : LoweringError} {next : Unit → Lower α}
    (he : e.Within faults) (h : Judges faults (next ())) :
    Judges faults (if c then next () else MonadExcept.throw e >>= next) := by
  split
  · exact h
  · exact (throw he).bind fun _ => h

theorem guarded' {c : Prop} [Decidable c] {e : LoweringError} {next : Unit → Lower α}
    (he : e.Within faults) (h : Judges faults (next ())) :
    Judges faults (if c then MonadExcept.throw e >>= next else next ()) := by
  split
  · exact (throw he).bind fun _ => h
  · exact h

/-- That the action stays in an open block is known already. -/
theorem of_emits (known : Set Nat) {temps : α → Set Nat} {x : Lower α} (hx : Emits known x temps)
    (h : ∀ s : BodyState, s.Finds faults (exec x s)) : Judges faults x := by
  intro s hs ho
  obtain ⟨_, _, hemitted, -⟩ := hx s Set.univ hs ho (by simp)
  exact ⟨h s, hemitted.writes.steady, hemitted.isOpen⟩

/-- An action of the builder that succeeds. -/
theorem of_build {action : Build α} (h : ∀ s : BodyState, s.Steady → s.StandsOpen →
    ∃ a s', exec (build action) s = (.ok a, s') ∧ s'.Steady ∧ s'.StandsOpen) :
    Judges faults (build action) := by
  intro s hs ho
  obtain ⟨a, s', hexec, hready⟩ := h s hs ho
  have hlog := Silent.build action s
  rw [hexec] at hlog ⊢
  exact ⟨finds_ok (hlog ▸ .refl _), hready⟩

theorem emit {i : Instr} (hi : i.isPlain = true) (hr : i.result? = none) :
    Judges faults (build (Build.emit i)) := by
  refine of_build fun s hs ho => ?_
  obtain ⟨hterm, -, halloca⟩ := Instr.isPlain_iff.mp hi
  obtain ⟨s', h, ho'⟩ := reaches_emit hs ho halloca hr
  exact ⟨(), s', h.exec, h.writes.steady, ho'.trans hterm⟩

theorem define {instr : Nat → Instr} (hi : ∀ t, (instr t).isAlloca = false)
    (hterm : ∀ t, (instr t).isTerminator = false) (hr : ∀ t, (instr t).result? = some t) :
    Judges faults (build (Build.define instr)) := by
  refine of_build fun s hs ho => ?_
  obtain ⟨t, s', h, ho'⟩ := reaches_define hs ho hi hterm hr
  exact ⟨_, s', h.exec, h.writes.steady, ho'⟩

section

variable {lhs rhs value ptr : Value} {type type' : MachineType}

theorem binary (op : Opcode) : Judges faults (build (Build.binary op lhs rhs type)) :=
  define (fun _ => rfl) (fun _ => rfl) fun _ => rfl

theorem load : Judges faults (build (Build.load ptr type)) :=
  define (fun _ => rfl) (fun _ => rfl) fun _ => rfl

theorem store : Judges faults (build (Build.store value ptr type)) := emit rfl rfl

theorem fieldAddress (index : Nat) : Judges faults (build (Build.fieldAddress type ptr index)) :=
  define (fun _ => rfl) (fun _ => rfl) fun _ => rfl

theorem extract (index : Nat) : Judges faults (build (Build.extract value type index type')) :=
  define (fun _ => rfl) (fun _ => rfl) fun _ => rfl

theorem convert (op : Conversion) : Judges faults (build (Build.convert op value type type')) :=
  define (fun _ => rfl) (fun _ => rfl) fun _ => rfl

theorem phi (incoming : List (Value × Nat)) (type : MachineType) :
    Judges faults (build (Build.phi incoming type)) :=
  define (fun _ => rfl) (fun _ => rfl) fun _ => rfl

theorem call {callee : Value} {args : List (MachineType × Value)} :
    Judges faults (build (Build.call callee type args)) := by
  unfold Build.call
  split
  · rw [build_bind]
    refine (emit rfl rfl).bind fun _ => ?_
    rw [build_pure]
    exact pure none
  · rw [build_bind]
    refine (define (fun _ => rfl) (fun _ => rfl) fun _ => rfl).bind fun v => ?_
    rw [build_pure]
    exact pure (some v)

end

/-! ## Names and types -/

theorem readBinding? (henv : env.Rooted) (name : String) :
    Judges faults (Lower.readBinding? env name) := by
  refine of_emits ∅ (.readBinding? henv name) fun s => ?_
  simp only [Lower.readBinding?, exec_bind, exec_get, exec_set, Scope.read]
  cases (s.scope.markUsed name).find? name with
  | some b => exact finds_ok (.refl s.log)
  | none => exact finds_ok (.refl s.log)

theorem peekBinding? (henv : env.Rooted) (name : String) :
    Judges faults (Lower.peekBinding? env name) := by
  refine of_emits ∅ (.peekBinding? henv name) fun s => ?_
  simp only [Lower.peekBinding?, exec_bind, exec_get]
  cases s.scope.find? name with
  | some b => exact finds_ok (.refl s.log)
  | none => exact finds_ok (.refl s.log)

theorem warn (w : Warning) (location : Option Location) :
    Judges faults (Lower.warn w location) := by
  refine of_emits ∅ (.warn w location) fun s => ?_
  rw [exec_warn]
  exact finds_ok (s.log.warned_report w location).judges.upTo

theorem checkKnown (type : SourceType) (location : Option Location) :
    Judges faults (Lower.checkKnown env type location) := by
  rw [Lower.checkKnown]
  split
  · exact pure ()
  · exact warn _ _

/-! ## Conversions -/

theorem convert? (v : TypedValue) (target : MachineType) :
    Judges faults (Lower.convert? v target) := by
  rw [Lower.convert?]
  cases convertConstant? v target with
  | some value => exact pure _
  | none =>
    cases widening? v.type target with
    | none => exact pure _
    | some w =>
      cases w with
      | same => exact pure _
      | extend op => exact (convert op).bind fun _ => pure _

theorem coerce (v : TypedValue) (source : SourceType) (target : MachineType) (use : String) :
    Judges faults (Lower.coerce v source target use) := by
  refine (convert? v target).bind fun value => ?_
  cases value with
  | some value => exact pure value
  | none => exact fail (by simp)

theorem toBool (v : TypedValue) : Judges faults (Lower.toBool v) := by
  unfold Lower.toBool
  split
  · exact pure _
  · exact pure _
  · exact pure _
  · exact pure _
  · exact binary _
  · exact binary _
  · exact binary _
  · exact fail (by simp)

theorem adaptLeft? (l r : TypedValue) : Judges faults (Lower.adaptLeft? l r) :=
  (convert? l r.type).bind fun _ => pure _

theorem adaptRight? (l r : TypedValue) : Judges faults (Lower.adaptRight? l r) :=
  (convert? r l.type).bind fun _ => pure _

theorem unify? (l r : TypedValue) : Judges faults (Lower.unify? l r) := by
  rw [Lower.unify?]
  split
  · exact pure _
  · split
    · refine (adaptLeft? l r).bind fun operands => ?_
      cases operands with
      | some operands => exact pure _
      | none => exact adaptRight? l r
    · refine (adaptRight? l r).bind fun operands => ?_
      cases operands with
      | some operands => exact pure _
      | none => exact adaptLeft? l r

/-! ## Literals and members -/

theorem lowerLiteral (literal : Literal) : Judges faults (SsaLowering.lowerLiteral literal) := by
  refine of_emits ∅ (.lowerLiteral literal) fun s => ?_
  cases literal with
  | number numeral =>
    rw [SsaLowering.lowerLiteral]
    cases h : lowerNumeral numeral with
    | ok v => exact finds_ok (.refl s.log)
    | error e =>
      have he : e.Within faults := .of_not_isInternal (not_isInternal_of_lowerNumeral h)
      exact finds_error (.refl s.log) he
  | string text => exact finds_ok (.refl s.log)
  | bool b => exact finds_ok (.refl s.log)
  | null => exact finds_ok (.refl s.log)

theorem visibleField (layout : StructLayout) (name : String) :
    Judges faults (Lower.visibleField env layout name) :=
  (orFail (by simp)).bind fun _ => guarded' (by rintro _ ⟨⟩) (pure _)

theorem loadField (place : StructPlace) (field : FieldLayout) :
    Judges faults (Lower.loadField place field) := by
  cases place with
  | memory ptr layout writable =>
    exact (fieldAddress field.index).bind fun _ => load.bind fun _ => pure _
  | aggregate value layout => exact (extract field.index).bind fun _ => pure _

theorem variablePlace (henv : env.Rooted) (name : String) :
    Judges faults (Lower.variablePlace env name) := by
  unfold Lower.variablePlace
  refine (readBinding? henv name).bind fun result => ?_
  refine (orFail (by simp)).bind fun binding => (orFail (by simp)).bind fun layout => ?_
  have hmemory (address : Value) : Judges faults (if binding.source.isPointer = true then do
      return .memory (← build (Build.load address .ptr)) layout true
    else return .memory address layout binding.isMutable : Lower StructPlace) := by
    split
    · exact load.bind fun _ => pure _
    · exact pure _
  dsimp only
  split
  · split
    · exact pure _
    · exact pure _
  · exact hmemory _
  · exact hmemory _

theorem fieldPlace (outer : StructPlace) (name : String) :
    Judges faults (Lower.fieldPlace env outer name) := by
  unfold Lower.fieldPlace
  refine (visibleField _ name).bind fun field => (orFail (by simp)).bind fun inner => ?_
  split
  · exact (loadField outer field).bind fun _ => pure _
  · cases outer with
    | memory ptr layout writable => exact (fieldAddress field.index).bind fun _ => pure _
    | aggregate value layout => exact (extract field.index).bind fun _ => pure _

theorem structPlace (henv : env.Rooted) (object : Term) :
    Judges faults (Lower.structPlace env object) := by
  fun_induction Lower.structPlace env object with
  | case1 location name => exact (variablePlace henv name).bind fun _ => pure _
  | case2 location object field ih =>
    exact ih.bind fun place => (fieldPlace place.1 field).bind fun _ => pure _
  | case3 => exact fail (by simp)

theorem lowerMember (henv : env.Rooted) (object : Term) (name : String) :
    Judges faults (Lower.lowerMember env object name) :=
  (structPlace henv object).bind fun place =>
    (visibleField _ name).bind fun field => loadField place.1 field

theorem memberAddress (henv : env.Rooted) (object : Term) (name : String) :
    Judges faults (Lower.memberAddress env object name) := by
  refine (structPlace henv object).bind fun place => (visibleField _ name).bind fun field => ?_
  split
  · exact (fieldAddress field.index).bind fun _ => pure _
  · exact fail (by simp)

/-! ## Operators -/

theorem lowerVariable (henv : env.Rooted) (name : String) :
    Judges faults (Lower.lowerVariable env name) := by
  unfold Lower.lowerVariable
  refine (readBinding? henv name).bind fun result => (orFail (by simp)).bind fun binding => ?_
  cases binding.storage with
  | direct value => exact pure _
  | stack slot => exact load.bind fun _ => pure _
  | global symbol => exact load.bind fun _ => pure _

theorem truthOf {operand : Lower TypedValue} (h : Judges faults operand) :
    Judges faults (Lower.truthOf operand) := h.bind toBool

theorem lowerArithmetic (op : BinaryOp) {left right : Lower TypedValue} (hl : Judges faults left)
    (hr : Judges faults right) : Judges faults (Lower.lowerArithmetic op left right) := by
  refine hl.bind fun l => hr.bind fun r => (unify? l r).bind fun result => ?_
  refine (orFail (by simp)).bind fun operands => (orFail (by simp)).bind fun code => ?_
  refine (binary code).bind fun value => ?_
  split
  · exact pure _
  · exact pure _

theorem lowerEager (isAnd : Bool) {left right : Lower TypedValue} (hl : Judges faults left)
    (hr : Judges faults right) : Judges faults (Lower.lowerEager isAnd left right) := by
  refine (truthOf hl).bind fun lhs => (truthOf hr).bind fun rhs => ?_
  split
  · exact pure _
  · exact (binary _).bind fun _ => pure _

theorem lowerNot {operand : Lower TypedValue} (h : Judges faults operand) :
    Judges faults (Lower.lowerNot operand) := by
  refine (truthOf h).bind fun truth => ?_
  split
  · exact pure _
  · exact (binary _).bind fun _ => pure _

theorem lowerNegate {operand : Lower TypedValue} (h : Judges faults operand) :
    Judges faults (Lower.lowerNegate operand) := by
  refine h.bind fun v => ?_
  split
  · exact pure _
  · exact pure _
  · exact (binary _).bind fun _ => pure _
  · exact (binary _).bind fun _ => pure _
  · exact fail (by simp)

/-- The blocks of a logical operator are opened under labels that are not in use, also if the
right operand fails. -/
theorem lowerFork (isAnd : Bool) (lhs : Value) {right : Lower TypedValue} (hr : Judges faults right)
    (hr' : Emits ∅ right TypedValue.temps) : Judges faults (Lower.lowerFork isAnd lhs right) := by
  intro s hs ho
  obtain ⟨ifTrue, ifFalse, s₁, h₁, ho₁, -⟩ := Emits.exists_openFork hs ho isAnd lhs
  obtain ⟨x, avail', hx, -⟩ := Emits.truthOf hr' s₁ ∅ h₁.writes.steady ho₁ (Set.empty_subset _)
  obtain ⟨hfinds, -, -⟩ := truthOf hr s₁ h₁.writes.steady ho₁
  unfold Lower.lowerFork
  simp only [exec_bind, exec_get, Emits.exec_current hs, h₁.exec, exec_tryCatch]
  generalize hint_eq : (if isAnd then "and.end" else "or.end") = hint
  rcases hexec : exec (Lower.truthOf right) s₁ with ⟨result, s₂⟩
  rw [hexec] at hx hfinds
  have hmerge := Emits.merge_unused hs h₁.writes h₁.next hx
  have hlog : s.log.JudgesUpTo faults s₂.log := by
    have h := Silent.openFork isAnd lhs s
    rw [h₁.exec] at h
    exact h ▸ hfinds.log
  cases result with
  | error e =>
    -- The ways meet in an open block all the same.
    obtain ⟨s₃, h₃, ho₃⟩ := reaches_proceedTo hx.writes.steady (s.builder.nextLabel + 1) hmerge hint
    have hproceed := Silent.proceedTo (s.builder.nextLabel + 1) (s.builder.nextLabel + 1) hint s₂
    rw [h₃.exec] at hproceed
    simp only [h₃.exec, exec_throw]
    exact ⟨finds_error (hproceed ▸ hlog) (hfinds.error e rfl), h₃.writes.steady, ho₃⟩
  | ok rhs =>
    obtain ⟨s₃, h₃, ho₃⟩ :=
      reaches_jumpTo hx.writes.steady hx.isOpen (s.builder.nextLabel + 1) hmerge hint
    have hjump := Silent.jumpTo (s.builder.nextLabel + 1) (s.builder.nextLabel + 1) hint s₂
    rw [h₃.exec] at hjump
    simp only [Emits.exec_current hx.writes.steady, h₃.exec]
    obtain ⟨hlast, hready⟩ := (phi
      [(.bool !isAnd, s.builder.here), (rhs, s₂.builder.here)] .bool).bind
        (fun v => pure (TypedValue.truth v)) s₃ h₃.writes.steady ho₃
    rw [exec_bind] at hlast hready
    exact ⟨⟨(hjump ▸ hlog).trans hlast.log, hlast.error⟩, hready⟩

theorem lowerShortCircuit (isAnd : Bool) {left right : Lower TypedValue} (hl : Judges faults left)
    (hr : Judges faults right) (hr' : Emits ∅ right TypedValue.temps) :
    Judges faults (Lower.lowerShortCircuit isAnd left right) := by
  refine (truthOf hl).bind fun lhs => ?_
  split
  · split
    · exact pure _
    · exact (truthOf hr).bind fun _ => pure _
  · exact lowerFork isAnd lhs hr hr'

theorem lowerBinary (op : BinaryOp) {left right : Lower TypedValue} (hl : Judges faults left)
    (hr : Judges faults right) (hr' : Emits ∅ right TypedValue.temps) :
    Judges faults (Lower.lowerBinary op left right) := by
  cases op
  case logicalAnd => exact lowerShortCircuit true hl hr hr'
  case logicalOr => exact lowerShortCircuit false hl hr hr'
  case eagerAnd => exact lowerEager true hl hr
  case eagerOr => exact lowerEager false hl hr
  all_goals exact lowerArithmetic _ hl hr

theorem lowerStep (henv : env.Rooted) (op : UnaryOp) (operand : Term) :
    Judges faults (Lower.lowerStep env op operand) := by
  unfold Lower.lowerStep
  split
  · refine (readBinding? henv _).bind fun result => (orFail (by simp)).bind fun binding => ?_
    refine guarded (by rintro _ ⟨⟩) ((orFail (by simp)).bind fun address => ?_)
    refine (orFail (by simp)).bind fun step => load.bind fun old => ?_
    exact (binary step.1).bind fun new => store.bind fun _ => pure _
  · exact fail (by simp)

/-! ## Calls and assignments -/

theorem promoteVariadic (v : TypedValue) (callee : String) :
    Judges faults (Lower.promoteVariadic v callee) := by
  unfold Lower.promoteVariadic
  split
  · exact (convert .fpext).bind fun _ => pure _
  · exact fail (by simp)
  · exact fail (by simp)
  · exact pure _

theorem passArguments (callee : String) (number : Nat) (sources : List SourceType)
    (types : List MachineType) (values : List TypedValue) :
    Judges faults (Lower.passArguments callee number sources types values) := by
  fun_induction Lower.passArguments callee number sources types values with
  | case1 => exact pure _
  | case2 number source sources type types v rest use =>
    rename_i ih
    exact (coerce v source type use).bind fun _ => ih.bind fun _ => pure _
  | case3 number sources types v rest _ ih =>
    exact (promoteVariadic v callee).bind fun _ => ih.bind fun _ => pure _

theorem lowerCall (callee : String) (count : Nat) {args : Lower (List TypedValue)}
    (h : Judges faults args) : Judges faults (Lower.lowerCall env callee count args) := by
  unfold Lower.lowerCall
  refine (orFail (by simp)).bind fun signature => guarded (by rintro _ ⟨⟩) ?_
  refine h.bind fun values => (passArguments callee 1 _ _ values).bind fun passed => ?_
  refine call.bind fun result => ?_
  cases result with
  | some result => exact pure _
  | none => exact pure _

theorem lowerCast (location : Option Location) (target : SourceType) {operand : Lower TypedValue}
    (h : Judges faults operand) : Judges faults (Lower.lowerCast env location target operand) := by
  refine (checkKnown target location).bind fun _ => h.bind fun v => ?_
  split
  · exact pure _
  · exact fail (by simp)

/-- The address of new memory is what the allocator returns, if it returns a value. -/
theorem allocate {signature : Signature} (args : List (MachineType × Value))
    (h : signature.returnType = .void → faults ("'" ++ allocator ++ "' returned no value")) :
    Judges faults (do
      let result ← build (Build.call (.function allocator) signature.type args)
      Lower.orFail result (.internal ("'" ++ allocator ++ "' returned no value"))) := by
  by_cases hvoid : signature.returnType = .void
  · have hresult : signature.type.returnsVoid = true := by
      simp only [Signature.type, hvoid, MachineType.returnsVoid]
    simp only [Build.call, hresult, if_true, build_bind, build_pure, bind_assoc, pure_bind]
    refine (emit rfl rfl).bind fun _ => throw ?_
    rintro _ ⟨rfl⟩
    exact h hvoid
  · have hresult : signature.type.returnsVoid = false := by
      cases hreturn : signature.returnType with
      | void => exact absurd hreturn hvoid
      | _ => simp only [Signature.type, hreturn, MachineType.returnsVoid]
    simp only [Build.call, hresult, Bool.false_eq_true, if_false, build_bind, build_pure,
      bind_assoc, pure_bind]
    exact (define (fun _ => rfl) (fun _ => rfl) fun _ => rfl).bind fun raw => orFail_some raw _

/-- That the allocator returns a value is all that an allocation relies on. -/
theorem lowerAlloc (halloc : env.Excuses faults) (location : Option Location)
    (target : SourceType) : Judges faults (Lower.lowerAlloc env location target) := by
  unfold Lower.lowerAlloc
  refine (checkKnown target location).bind fun _ => orFail_bind (by simp) fun signature hsig => ?_
  dsimp only
  rw [← bind_assoc]
  refine (allocate _ (halloc signature hsig)).bind fun raw => ?_
  split
  · exact pure _
  · exact (convert _).bind fun _ => pure _

theorem assignVariable (henv : env.Rooted) (name : String) (v : TypedValue) :
    Judges faults (Lower.assignVariable env name v) := by
  unfold Lower.assignVariable
  refine (peekBinding? henv name).bind fun result => (orFail (by simp)).bind fun binding => ?_
  refine guarded (by rintro _ ⟨⟩) ((orFail (by simp)).bind fun address => ?_)
  exact (coerce _ _ _ _).bind fun _ => store.bind fun _ => pure _

theorem assignMember (henv : env.Rooted) (object : Term) (name : String) (v : TypedValue) :
    Judges faults (Lower.assignMember env object name v) :=
  (memberAddress henv object name).bind fun _ =>
    (coerce _ _ _ _).bind fun _ => store.bind fun _ => pure _

theorem lowerAssign (henv : env.Rooted) (target : Term) {value : Lower TypedValue}
    (h : Judges faults value) : Judges faults (Lower.lowerAssign env target value) := by
  refine h.bind fun v => ?_
  split
  · exact assignVariable henv _ v
  · exact assignMember henv _ _ v
  · exact fail (by simp)

mutual

/-- The lowering of an expression finds faults of the program only, by recursion on the
expression. -/
theorem lowerTerm (henv : env.Rooted) (halloc : env.Excuses faults) :
    (term : Term) → Judges faults (Lower.lowerTerm env term)
  | .literal .. => located (lowerLiteral _)
  | .variable .. => located (lowerVariable henv _)
  | .call _ _ args => located (lowerCall _ _ (lowerTerms henv halloc args))
  | .binary _ op left right => located (lowerBinary op (lowerTerm henv halloc left)
    (lowerTerm henv halloc right) (Emits.lowerTerm henv right ∅))
  | .unary _ .logicalNot operand => located (lowerNot (lowerTerm henv halloc operand))
  | .unary _ .minus operand => located (lowerNegate (lowerTerm henv halloc operand))
  | .unary _ .preIncrement operand | .unary _ .postIncrement operand
  | .unary _ .preDecrement operand | .unary _ .postDecrement operand =>
    located (lowerStep henv _ operand)
  | .cast _ _ operand => located (lowerCast _ _ (lowerTerm henv halloc operand))
  | .alloc .. => located (lowerAlloc halloc _ _)
  | .assign _ target value => located (lowerAssign henv target (lowerTerm henv halloc value))
  | .member _ object field => located (lowerMember henv object field)

theorem lowerTerms (henv : env.Rooted) (halloc : env.Excuses faults) :
    (terms : List Term) → Judges faults (Lower.lowerTerms env terms)
  | [] => pure _
  | term :: rest => (lowerTerm henv halloc term).bind fun _ =>
    (lowerTerms henv halloc rest).bind fun _ => pure _

end

end Lower.Judges

end SsaLowering
