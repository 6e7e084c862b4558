import SsaLowering.Proofs.ExpressionSteps
import SsaLowering.Proofs.ExpressionTyping

/-!
# Source types name machine types

Pointers are opaque, so the source type of a value is the only record of what it points to. Here
the source type of a binding, of a field and of a value stands for its machine type. Operators
take the two from their operands or make both anew, and a declaration without a type takes over
both. What has to be known in front is that the fields of structs and the results of functions
agree with their source types.
-/

namespace SsaLowering

open Lower BodyState

/-- The source type of the binding stands for its machine type. -/
def Binding.Agrees (table : StructTable) (b : Binding) : Prop := b.type = table.resolve b.source

/-- The source type of the value stands for its machine type, if it has one. So does the source
type that a declaration would take from it, unless there is nothing to declare. -/
structure TypedValue.Agrees (table : StructTable) (v : TypedValue) : Prop where
  declared : ∀ source, v.source = some source → v.type = table.resolve source
  inferred : v.type ≠ .void → v.type = table.resolve v.inferredType

/-- The value has a source type, and it stands for its machine type. -/
def TypedValue.Carries (table : StructTable) (v : TypedValue) : Prop :=
  ∃ source, v.source = some source ∧ v.type = table.resolve source

/-- Whether the value of an expression, at a machine type, has the source type of something that
was declared or of a type in the expression itself. A call of a function without a result gives
nothing that could have one. -/
def Term.CarriesSource (type : MachineType) : Term → Prop
  | .variable .. | .cast .. | .alloc .. | .assign .. | .member .. => True
  | .call .. => type ≠ .void
  | .unary _ op _ => op ≠ .minus ∧ op ≠ .logicalNot
  | .literal .. | .binary .. => False

/-- The value agrees, and it has a source type if the expression that it comes from has one. -/
structure TypedValue.Suits (table : StructTable) (term : Term) (v : TypedValue) : Prop where
  agrees : v.Agrees table
  source : term.CarriesSource v.type → v.source.isSome = true

/-- Every field has the type that its source type stands for in the whole table. -/
def StructTable.FieldsAgree (table : StructTable) : Prop :=
  ∀ layout ∈ table.layouts, ∀ field ∈ layout.fields, field.type = table.resolve field.source

/-- So have the fields and the functions that a body can refer to. -/
structure Environment.Agrees (env : Environment) : Prop where
  fields : env.structs.FieldsAgree
  functions : ∀ entry ∈ env.functions, entry.2.Resolves env.structs

/-- So have the names that are bound in a state. -/
def BodyState.Agrees (env : Environment) (s : BodyState) : Prop :=
  ∀ b, s.Binds env b → b.Agrees env.structs

namespace TypedValue

variable {table : StructTable} {value : Value} {type : MachineType} {source : SourceType}

theorem Carries.agrees {v : TypedValue} (h : v.Carries table) : v.Agrees table := by
  obtain ⟨source, hsource, htype⟩ := h
  refine ⟨fun source' h => ?_, fun _ => ?_⟩
  · cases hsource.symm.trans h
    exact htype
  · rw [inferredType, hsource]
    exact htype

theorem Carries.suits {v : TypedValue} (h : v.Carries table) (term : Term) : v.Suits table term :=
  ⟨h.agrees, fun _ => Option.isSome_iff_exists.mpr (h.imp fun _ h => h.1)⟩

theorem Agrees.suits {v : TypedValue} (h : v.Agrees table) {term : Term}
    (hterm : ¬ term.CarriesSource v.type) : v.Suits table term :=
  ⟨h, fun hcarries => absurd hcarries hterm⟩

theorem carries_pointer (h : source.isPointer = true) : Carries table ⟨value, .ptr, some source⟩ :=
  ⟨source, rfl, (StructTable.resolve_of_pointer h).symm⟩

theorem agrees_plain (h : type.isInteger = true ∨ type.isFloat = true) :
    Agrees table (.plain value type) where
  declared _ h := by cases h
  inferred _ := (table.resolve_toSource (h.imp_right .inl)).2.symm

theorem agrees_truth : Agrees table (.truth value) :=
  Carries.agrees ⟨_, rfl, (@table.resolve_toSource .bool (.inr (.inr rfl))).2.symm⟩

theorem agrees_pointer (h : source.isPointer = true) : Agrees table ⟨value, .ptr, some source⟩ :=
  (carries_pointer h).agrees

theorem agrees_void : Agrees table .void where
  declared _ h := by cases h
  inferred h := absurd rfl h

/-- Another value of the same types. -/
theorem Agrees.of_value {v : TypedValue} (h : v.Agrees table) (value : Value) :
    Agrees table { v with value := value } := ⟨h.declared, h.inferred⟩

end TypedValue

namespace BodyState

variable {env : Environment} {s s' : BodyState}

theorem Agrees.of_scope (h : s.Agrees env) (hscope : s'.scope = s.scope) : s'.Agrees env := by
  rintro b ⟨name, hb⟩
  exact h b ⟨name, hscope ▸ hb⟩

/-- A step leaves the types of names. -/
theorem Agrees.step (h : s.Agrees env) (hstep : s.Step env s') : s'.Agrees env := by
  cases hstep with
  | use name =>
    rintro b ⟨other, hb | hb⟩
    · obtain ⟨⟨_, old⟩, hold, heq⟩ := List.mem_map.mp hb
      have hagrees := h old ⟨_, .inl hold⟩
      dsimp only at heq
      split at heq <;> cases heq <;> exact hagrees
    · exact h b ⟨other, .inr hb⟩
  | _ => exact h.of_scope rfl

theorem Agrees.steps (h : s.Agrees env) (hsteps : s.Steps env s') : s'.Agrees env := by
  induction hsteps with
  | refl => exact h
  | tail _ hstep ih => exact ih.step hstep

/-- A name is bound again, with types that agree. -/
theorem Agrees.declare (h : s.Agrees env) {b : Binding} (hb : b.Agrees env.structs)
    (name : String) : Agrees env { s with scope := s.scope.declare name b } := by
  rintro b' ⟨other, hb' | hb'⟩
  · rcases List.mem_append.mp hb' with hb' | hb'
    · exact h b' ⟨other, .inl (List.mem_filter.mp hb').1⟩
    · cases List.mem_singleton.mp hb'
      exact hb
  · exact h b' ⟨other, .inr hb'⟩

end BodyState

namespace Lower

/-- Where the types of names agree, they still do behind the action. Its result, if it has one,
is as stated. -/
def KeepsTypes {α : Type} (env : Environment) (x : Lower α) (post : α → Prop) : Prop :=
  ∀ s, s.Agrees env → (exec x s).2.Agrees env ∧ ∀ a, (exec x s).1 = .ok a → post a

namespace KeepsTypes

variable {env : Environment} {α β : Type} {post : α → Prop} {post' : β → Prop} {x : Lower α}

theorem pure {a : α} (h : post a) : KeepsTypes env (Pure.pure a) post := by
  refine fun s hs => ⟨hs, ?_⟩
  rintro _ ⟨⟩
  exact h

theorem throw (e : LoweringError) : KeepsTypes env (throw e : Lower α) post :=
  fun s hs => ⟨hs, fun a h => by cases h⟩

theorem fail (cause : Cause) : KeepsTypes env (Lower.fail cause : Lower α) post := throw _

theorem bind {f : α → Lower β} (hx : KeepsTypes env x post)
    (hf : ∀ a, post a → KeepsTypes env (f a) post') : KeepsTypes env (x >>= f) post' := by
  intro s hs
  obtain ⟨hagrees, hpost⟩ := hx s hs
  rcases hexec : exec x s with ⟨e | a, s₁⟩
  all_goals rw [hexec] at hagrees hpost
  · rw [exec_bind_of_error hexec]
    exact ⟨hagrees, fun b h => by cases h⟩
  · rw [exec_bind_of_ok hexec]
    exact hf a (hpost a rfl) s₁ hagrees

/-- A result that is as stated is so in a weaker sense. -/
theorem imp {post'' : α → Prop} (h : KeepsTypes env x post) (hpost : ∀ a, post a → post'' a) :
    KeepsTypes env x post'' :=
  fun s hs => ⟨(h s hs).1, fun a ha => hpost a ((h s hs).2 a ha)⟩

theorem agrees {x : Lower TypedValue} {term : Term}
    (h : KeepsTypes env x (·.Suits env.structs term)) : KeepsTypes env x (·.Agrees env.structs) :=
  h.imp fun _ hv => hv.agrees

theorem orFail_bind {result : Option α} {cause : Cause} {f : α → Lower β}
    (hf : ∀ a, result = some a → KeepsTypes env (f a) post') :
    KeepsTypes env (orFail result cause >>= f) post' := by
  cases result with
  | none => exact fun s hs => ⟨hs, fun b h => by cases h⟩
  | some a => exact hf a rfl

theorem throw_bind (e : LoweringError) {f : α → Lower β} :
    KeepsTypes env ((MonadExcept.throw e : Lower α) >>= f) post' :=
  fun s hs => ⟨hs, fun b h => by cases h⟩

theorem guarded {p : Prop} [Decidable p] {e : LoweringError} {next : Unit → Lower α}
    (h : KeepsTypes env (next ()) post) :
    KeepsTypes env (if p then next () else MonadExcept.throw e >>= next) post := by
  split
  · exact h
  · exact throw_bind e

theorem guarded' {p : Prop} [Decidable p] {e : LoweringError} {next : Unit → Lower α}
    (h : ¬ p → KeepsTypes env (next ()) post) :
    KeepsTypes env (if p then MonadExcept.throw e >>= next else next ()) post := by
  split
  · exact throw_bind e
  · next hp => exact h hp

theorem tryCatch {handler : LoweringError → Lower α} (hx : KeepsTypes env x post)
    (hhandler : ∀ e, KeepsTypes env (handler e) post) :
    KeepsTypes env (tryCatch x handler) post := by
  intro s hs
  obtain ⟨hagrees, hpost⟩ := hx s hs
  rw [exec_tryCatch]
  rcases hexec : exec x s with ⟨e | a, s₁⟩
  all_goals rw [hexec] at hagrees hpost
  · exact hhandler e s₁ hagrees
  · exact ⟨hagrees, hpost⟩

theorem located {location : Option Location} (h : KeepsTypes env x post) :
    KeepsTypes env (located location x) post :=
  h.tryCatch fun _ => throw _

/-- Steps leave the types of names. -/
theorem of_steps {stated : α → BodyState → Prop} (h : ∀ s, TakesSteps env x s stated)
    (hpost : ∀ a s, s.Agrees env → stated a s → post a) : KeepsTypes env x post := by
  intro s hs
  have hagrees := hs.steps (h s).1.steps
  refine ⟨hagrees, fun a ha => hpost a _ hagrees ((h s).2 a _ ?_)⟩
  rw [← ha]

theorem quiet (h : ∀ s, TakesSteps env x s fun _ _ => True) : KeepsTypes env x fun _ => True :=
  of_steps h fun _ _ _ _ => trivial

/-- An action of the builder leaves all names. -/
theorem build (action : Build α) : KeepsTypes env (build action) fun _ => True := by
  intro s hs
  refine ⟨hs.of_scope ?_, fun _ _ => trivial⟩
  rw [exec_build]
  rcases exec action s.builder with ⟨_ | _, _⟩ <;> rfl

theorem get : KeepsTypes env (get : Lower BodyState) fun _ => True :=
  fun _ hs => ⟨hs, fun _ _ => trivial⟩

/-! ## Names and members -/

theorem readBinding? (name : String) : KeepsTypes env (Lower.readBinding? env name)
    fun result => ∀ b, result = some b → b.Agrees env.structs :=
  of_steps (fun _ => .readBinding? name) fun _ _ hs hbinds b hb => hs b (hbinds b hb)

theorem peekBinding? (name : String) : KeepsTypes env (Lower.peekBinding? env name)
    fun result => ∀ b, result = some b → b.Agrees env.structs :=
  of_steps (fun _ => .peekBinding? name) fun _ _ hs hbinds b hb => hs b (hbinds b hb)

theorem visibleField (layout : StructLayout) (name : String) :
    KeepsTypes env (Lower.visibleField env layout name) (· ∈ layout.fields) :=
  orFail_bind fun _ hfield => guarded' fun _ => pure (List.mem_of_find?_eq_some hfield)

theorem loadField (place : StructPlace) (field : FieldLayout) :
    KeepsTypes env (Lower.loadField place field)
      fun v => v.type = field.type ∧ v.source = some field.source := by
  cases place with
  | memory ptr layout writable =>
    exact (build _).bind fun _ _ => (build _).bind fun _ _ => pure ⟨rfl, rfl⟩
  | aggregate value layout => exact (build _).bind fun _ _ => pure ⟨rfl, rfl⟩

/-- A place that is found is one for a struct of the table. -/
theorem inMemory {b : Binding} {layout : StructLayout} (hlayout : layout ∈ env.structs.layouts)
    (address : Value) :
    KeepsTypes env
      (if b.source.isPointer = true then do
        let __do_lift ← Lower.build (Build.load address .ptr)
        Pure.pure (StructPlace.memory __do_lift layout true)
      else Pure.pure (StructPlace.memory address layout b.isMutable))
      fun place => place.layout ∈ env.structs.layouts := by
  split
  · exact (build _).bind fun _ _ => pure hlayout
  · exact pure hlayout

theorem variablePlace (name : String) : KeepsTypes env (Lower.variablePlace env name)
    fun place => place.layout ∈ env.structs.layouts := by
  unfold Lower.variablePlace
  refine (readBinding? name).bind fun result _ => orFail_bind fun b _ => ?_
  refine orFail_bind fun layout hlayout => ?_
  have hmem := (StructTable.mem_of_find? hlayout).1
  dsimp only
  split
  · split
    · exact pure hmem
    · exact pure hmem
  · exact inMemory hmem _
  · exact inMemory hmem _

theorem fieldPlace (outer : StructPlace) (name : String) :
    KeepsTypes env (Lower.fieldPlace env outer name)
      fun place => place.layout ∈ env.structs.layouts := by
  unfold Lower.fieldPlace
  refine (visibleField outer.layout name).bind fun field _ => orFail_bind fun inner hinner => ?_
  have hmem := (StructTable.mem_of_find? hinner).1
  split
  · exact (loadField outer field).bind fun _ _ => pure hmem
  · split
    · exact (build _).bind fun _ _ => pure hmem
    · exact (build _).bind fun _ _ => pure hmem

theorem structPlace (object : Term) : KeepsTypes env (Lower.structPlace env object)
    fun place => place.1.layout ∈ env.structs.layouts := by
  fun_induction Lower.structPlace env object with
  | case1 location name => exact (variablePlace name).bind fun _ hplace => pure hplace
  | case2 location object field ih =>
    exact ih.bind fun _ _ => (fieldPlace _ field).bind fun _ hinner => pure hinner
  | case3 => exact fail _

theorem lowerMember (hfields : env.structs.FieldsAgree) (object : Term) (name : String) :
    KeepsTypes env (Lower.lowerMember env object name) (·.Carries env.structs) := by
  refine (structPlace object).bind fun place hplace => ?_
  refine (visibleField place.1.layout name).bind fun field hfield => ?_
  refine (loadField place.1 field).imp fun v hv => ?_
  exact ⟨field.source, hv.2, hv.1.trans (hfields _ hplace _ hfield)⟩

/-- A member that is written has a field of a struct of the table. -/
theorem memberAddress (hfields : env.structs.FieldsAgree) (object : Term) (name : String) :
    KeepsTypes env (Lower.memberAddress env object name)
      fun result => result.2.type = env.structs.resolve result.2.source := by
  refine (structPlace object).bind fun place hplace => ?_
  refine (visibleField place.1.layout name).bind fun field hfield => ?_
  split
  · exact (build _).bind fun _ _ => pure (hfields _ hplace _ hfield)
  · exact fail _

/-! ## Literals and variables -/

theorem lowerLiteral (literal : Literal) :
    KeepsTypes env (SsaLowering.lowerLiteral literal) (·.Agrees env.structs) := by
  cases literal with
  | number numeral =>
    rw [SsaLowering.lowerLiteral]
    cases h : lowerNumeral numeral with
    | error e => exact throw e
    | ok v =>
      refine pure ?_
      rcases lowerNumeral_cases h with ⟨x, rfl⟩ | ⟨n, w, -, rfl, -⟩
      · exact TypedValue.agrees_plain (.inr rfl)
      · exact TypedValue.agrees_plain (.inl rfl)
  | string text =>
    refine fun s hs => ⟨hs.of_scope rfl, ?_⟩
    rintro _ ⟨⟩
    exact TypedValue.agrees_pointer rfl
  | bool b => exact pure TypedValue.agrees_truth
  | null => exact pure (TypedValue.agrees_pointer rfl)

theorem lowerVariable (name : String) :
    KeepsTypes env (Lower.lowerVariable env name) (·.Carries env.structs) := by
  unfold Lower.lowerVariable
  refine (readBinding? name).bind fun result hresult => orFail_bind fun b hb => ?_
  have hcarries (value : Value) : TypedValue.Carries env.structs ⟨value, b.type, some b.source⟩ :=
    ⟨b.source, rfl, hresult b hb⟩
  cases b.storage with
  | direct value => exact pure (hcarries value)
  | stack slot => exact (build _).bind fun value _ => pure (hcarries value)
  | global symbol => exact (build _).bind fun value _ => pure (hcarries value)

/-! ## Operators -/

section

variable {left right operand : Lower TypedValue}
  (hl : KeepsTypes env left (·.Agrees env.structs))
  (hr : KeepsTypes env right (·.Agrees env.structs))
  (ho : KeepsTypes env operand (·.Agrees env.structs))

include ho in
theorem truthOf : KeepsTypes env (Lower.truthOf operand) fun _ => True :=
  ho.bind fun v _ => quiet fun _ => .toBool v

include hl hr in
/-- The result of a comparison is a truth value, that of any other operation a number. -/
theorem lowerArithmetic (op : BinaryOp) :
    KeepsTypes env (Lower.lowerArithmetic op left right) (·.Agrees env.structs) := by
  refine hl.bind fun l _ => hr.bind fun r _ => ?_
  refine (quiet fun _ => .unify? l r).bind fun result _ => ?_
  refine orFail_bind fun operands _ => orFail_bind fun code hcode => ?_
  refine (build _).bind fun value _ => ?_
  split
  · exact pure TypedValue.agrees_truth
  · next hcomparison =>
    have hnumber := (selectOpcode?_type hcode).2 (by simpa using hcomparison)
    exact pure (TypedValue.agrees_plain hnumber)

include hr in
theorem lowerFork (isAnd : Bool) (lhs : Value) :
    KeepsTypes env (Lower.lowerFork isAnd lhs right) (·.Agrees env.structs) := by
  unfold Lower.lowerFork
  refine get.bind fun s _ => orFail_bind fun start _ => ?_
  refine (quiet fun _ => .openFork isAnd lhs).bind fun mergeLabel _ => ?_
  refine ((truthOf hr).tryCatch fun e => ?_).bind fun rhs _ => ?_
  · exact (quiet fun _ => .proceedTo _ _ _).bind fun _ _ => throw e
  · refine get.bind fun s _ => orFail_bind fun stop _ => ?_
    refine (quiet fun _ => .jumpTo _ _ _).bind fun _ _ => (build _).bind fun _ _ => ?_
    exact pure TypedValue.agrees_truth

include hl hr in
theorem lowerShortCircuit (isAnd : Bool) :
    KeepsTypes env (Lower.lowerShortCircuit isAnd left right) (·.Agrees env.structs) := by
  refine (truthOf hl).bind fun lhs _ => ?_
  split
  · split
    · exact pure TypedValue.agrees_truth
    · exact (truthOf hr).bind fun _ _ => pure TypedValue.agrees_truth
  · exact lowerFork hr isAnd lhs

include hl hr in
theorem lowerEager (isAnd : Bool) :
    KeepsTypes env (Lower.lowerEager isAnd left right) (·.Agrees env.structs) := by
  refine (truthOf hl).bind fun lhs _ => (truthOf hr).bind fun rhs _ => ?_
  split
  · exact pure TypedValue.agrees_truth
  · exact (build _).bind fun _ _ => pure TypedValue.agrees_truth

include hl hr in
theorem lowerBinary (op : BinaryOp) :
    KeepsTypes env (Lower.lowerBinary op left right) (·.Agrees env.structs) := by
  unfold Lower.lowerBinary
  split
  · exact lowerShortCircuit hl hr true
  · exact lowerShortCircuit hl hr false
  · exact lowerEager hl hr true
  · exact lowerEager hl hr false
  · exact lowerArithmetic hl hr op

include ho in
theorem lowerNot : KeepsTypes env (Lower.lowerNot operand) (·.Agrees env.structs) := by
  refine (truthOf ho).bind fun truth _ => ?_
  split
  · exact pure TypedValue.agrees_truth
  · exact (build _).bind fun _ _ => pure TypedValue.agrees_truth

include ho in
theorem lowerNegate : KeepsTypes env (Lower.lowerNegate operand) (·.Agrees env.structs) := by
  refine ho.bind fun v hv => ?_
  split
  · exact pure (hv.of_value _)
  · exact pure (hv.of_value _)
  · exact (build _).bind fun _ _ => pure (hv.of_value _)
  · exact (build _).bind fun _ _ => pure (hv.of_value _)
  · exact fail _

theorem lowerStep (op : UnaryOp) (term : Term) :
    KeepsTypes env (Lower.lowerStep env op term) (·.Carries env.structs) := by
  unfold Lower.lowerStep
  split
  · refine (readBinding? _).bind fun result hresult => orFail_bind fun b hb => guarded ?_
    refine orFail_bind fun address _ => orFail_bind fun step _ => ?_
    refine (build _).bind fun old _ => (build _).bind fun new _ => (build _).bind fun _ _ => ?_
    exact pure ⟨b.source, rfl, hresult b hb⟩
  · exact fail _

/-! ## Calls, casts and assignments -/

/-- A call has a value only if the function returns one. -/
theorem call {signature : Signature} (hsignature : signature.Resolves env.structs)
    (callee : Value) (args : List (MachineType × Value)) :
    KeepsTypes env (Lower.build (Build.call callee signature.type args)) fun result =>
      result.isSome = true → signature.returnType = env.structs.resolve signature.source := by
  cases hvoid : signature.type.returnsVoid with
  | true =>
    simp only [Build.call, hvoid, if_true, build_bind, build_pure]
    exact (build _).bind fun _ _ => pure fun h => by cases h
  | false =>
    simp only [Build.call, hvoid, Bool.false_eq_true, if_false, build_bind, build_pure]
    refine (build _).bind fun _ _ => pure fun _ => ?_
    rw [hsignature.result, StructTable.resolveReturn]
    refine if_neg fun hisVoid => ?_
    have hreturn : signature.returnType = .void := by
      rw [hsignature.result, StructTable.resolveReturn, if_pos hisVoid]
    simp [Signature.type, hreturn, MachineType.returnsVoid] at hvoid

theorem lowerCall (hfunctions : ∀ entry ∈ env.functions, entry.2.Resolves env.structs)
    {args : Lower (List TypedValue)} (hargs : KeepsTypes env args fun _ => True)
    (callee : String) (count : Nat) :
    KeepsTypes env (Lower.lowerCall env callee count args)
      fun v => v.Agrees env.structs ∧ (v.type ≠ .void → v.source.isSome = true) := by
  refine orFail_bind fun signature hsignature => guarded ?_
  have hresolves := hfunctions _ (mem_of_lookup hsignature)
  refine hargs.bind fun values _ => ?_
  refine (quiet fun _ => .passArguments callee 1 _ _ values).bind fun passed _ => ?_
  refine (call hresolves _ passed).bind fun result hresult => ?_
  cases result with
  | some value =>
    exact pure ⟨TypedValue.Carries.agrees ⟨signature.source, rfl, hresult rfl⟩, fun _ => rfl⟩
  | none => exact pure ⟨TypedValue.agrees_void, fun h => absurd rfl h⟩

include ho in
theorem lowerCast (location : Option Location) (target : SourceType) :
    KeepsTypes env (Lower.lowerCast env location target operand) (·.Carries env.structs) := by
  refine (quiet fun _ => .checkKnown target location).bind fun _ _ => ho.bind fun v _ => ?_
  split
  · next h => exact pure (TypedValue.carries_pointer h.2)
  · exact fail _

theorem lowerAlloc (location : Option Location) (target : SourceType) :
    KeepsTypes env (Lower.lowerAlloc env location target) (·.Carries env.structs) := by
  refine (quiet fun _ => .checkKnown target location).bind fun _ _ => ?_
  refine orFail_bind fun signature _ => (build _).bind fun result _ => orFail_bind fun raw _ => ?_
  split
  · exact pure (TypedValue.carries_pointer rfl)
  · exact (build _).bind fun _ _ => pure (TypedValue.carries_pointer rfl)

theorem assignVariable (name : String) (v : TypedValue) :
    KeepsTypes env (Lower.assignVariable env name v) (·.Carries env.structs) := by
  refine (peekBinding? name).bind fun result hresult => orFail_bind fun b hb => guarded ?_
  refine orFail_bind fun address _ => (quiet fun _ => .coerce v _ _ _).bind fun stored _ => ?_
  exact (build _).bind fun _ _ => pure ⟨b.source, rfl, hresult b hb⟩

theorem assignMember (hfields : env.structs.FieldsAgree) (object : Term) (name : String)
    (v : TypedValue) :
    KeepsTypes env (Lower.assignMember env object name v) (·.Carries env.structs) := by
  refine (memberAddress hfields object name).bind fun result hresult => ?_
  refine (quiet fun _ => .coerce v _ _ _).bind fun stored _ => (build _).bind fun _ _ => ?_
  exact pure ⟨result.2.source, rfl, hresult⟩

include ho in
theorem lowerAssign (hfields : env.structs.FieldsAgree) (target : Term) :
    KeepsTypes env (Lower.lowerAssign env target operand) (·.Carries env.structs) := by
  refine ho.bind fun v _ => ?_
  split
  · exact assignVariable _ v
  · exact assignMember hfields _ _ v
  · exact fail _

end

/-- A value that has a source type suits any expression. -/
theorem suits {x : Lower TypedValue} (h : KeepsTypes env x (·.Carries env.structs))
    (location : Option Location) (term : Term) :
    KeepsTypes env (Lower.located location x) (·.Suits env.structs term) :=
  h.located.imp fun _ hv => hv.suits term

/-- A value without one suits an expression that has none. -/
theorem suits_plain {x : Lower TypedValue} (h : KeepsTypes env x (·.Agrees env.structs))
    (location : Option Location) {term : Term} (hterm : ∀ type, ¬ term.CarriesSource type) :
    KeepsTypes env (Lower.located location x) (·.Suits env.structs term) :=
  h.located.imp fun v hv => hv.suits (hterm v.type)

mutual

/-- Whatever an expression gives agrees, and has the source type that the expression carries. -/
theorem lowerTerm (henv : env.Agrees) : (term : Term) →
    KeepsTypes env (Lower.lowerTerm env term) (·.Suits env.structs term)
  | .literal _ value => (lowerLiteral value).suits_plain _ fun _ => id
  | .variable _ name => (lowerVariable name).suits _ _
  | .call _ callee args =>
    (lowerCall henv.functions (lowerTerms henv args) callee args.length).located.imp
      fun _ hv => ⟨hv.1, hv.2⟩
  | .binary _ op left right =>
    (lowerBinary (lowerTerm henv left).agrees (lowerTerm henv right).agrees op).suits_plain _
      fun _ => id
  | .unary _ .logicalNot operand =>
    (lowerNot (lowerTerm henv operand).agrees).suits_plain _ fun _ h => h.2 rfl
  | .unary _ .minus operand =>
    (lowerNegate (lowerTerm henv operand).agrees).suits_plain _ fun _ h => h.1 rfl
  | .unary _ .preIncrement operand => (lowerStep .preIncrement operand).suits _ _
  | .unary _ .postIncrement operand => (lowerStep .postIncrement operand).suits _ _
  | .unary _ .preDecrement operand => (lowerStep .preDecrement operand).suits _ _
  | .unary _ .postDecrement operand => (lowerStep .postDecrement operand).suits _ _
  | .cast location target operand =>
    (lowerCast (lowerTerm henv operand).agrees location target).suits _ _
  | .alloc location target => (lowerAlloc location target).suits _ _
  | .assign _ target value =>
    (lowerAssign (lowerTerm henv value).agrees henv.fields target).suits _ _
  | .member _ object field => (lowerMember henv.fields object field).suits _ _
termination_by structural term => term

theorem lowerTerms (henv : env.Agrees) : (terms : List Term) →
    KeepsTypes env (Lower.lowerTerms env terms) fun _ => True
  | [] => pure trivial
  | term :: rest =>
    (lowerTerm henv term).bind fun _ _ => (lowerTerms henv rest).bind fun _ _ => pure trivial
termination_by structural terms => terms

end

/-! ## Declarations -/

/-- The two types of a variable agree, whether they are declared or taken from its first value. -/
theorem variableValue (henv : env.Agrees) (decl : VariableDecl Term) :
    KeepsTypes env (Lower.variableValue env decl)
      fun result => result.2.1 = env.structs.resolve result.1 := by
  unfold Lower.variableValue
  split
  · unfold Lower.inferVariable
    split
    · exact throw _
    · next initializer _ =>
      refine (lowerTerm henv initializer).bind fun v hv => guarded' fun hvoid => pure ?_
      exact hv.agrees.inferred hvoid
  · unfold Lower.declaredVariable
    split
    · dsimp only
      split
      · exact pure rfl
      · exact (quiet fun _ => .warn _ _).bind fun _ _ => pure rfl
    · next initializer _ =>
      have hvalue : KeepsTypes env (do
          let v ← Lower.lowerTerm env initializer
          let value ← coerce v decl.type (env.structs.resolve decl.type)
            ("initializer of '" ++ decl.name ++ "'")
          return (decl.type, env.structs.resolve decl.type, some value))
          fun result => result.2.1 = env.structs.resolve result.1 :=
        (lowerTerm henv initializer).bind fun v _ =>
          (quiet fun _ => .coerce v _ _ _).bind fun _ _ => pure rfl
      dsimp only
      split
      · exact hvalue
      · exact (quiet fun _ => .warn _ _).bind fun _ _ => hvalue

end KeepsTypes

end Lower

end SsaLowering
