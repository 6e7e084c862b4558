import SsaLowering.Lowering.Statement
import SsaLowering.Proofs.Edits

/-!
# Steps of the lowering

The lowering changes its state in small steps: something is reported, a name becomes used, the
builder goes on in another block, or an instruction is added, with a new temporary as its result.
An address is only computed from a place that a name leads to, and a store is only added for a
place that may be written. Everything else that the lowering does, it does on purpose: string
literals and declarations of variables are not among the steps.
-/

namespace SsaLowering

/-- Going back from an address, from each part to what it is a part of. -/
inductive GoesBack (code : List Instr) : Value → Value → Prop
  | refl (v : Value) : GoesBack code v v
  | part {t : Nat} {base : MachineType} {outer root : Value} {indices : List Value} :
    .address t base outer indices ∈ code → GoesBack code outer root → GoesBack code (.temp t) root

theorem GoesBack.mono {code code' : List Instr} {ptr root : Value} (h : GoesBack code ptr root)
    (hcode : code ⊆ code') : GoesBack code' ptr root := by
  induction h with
  | refl v => exact .refl v
  | part hi _ ih => exact .part (hcode hi) ih

namespace FunctionBuilder

variable {b b' : FunctionBuilder}

/-- The instructions of the function under construction. -/
def instrs (b : FunctionBuilder) : List Instr := b.function.elim [] FunctionDef.instrs

/-- Between the two states of a builder one instruction was added. Its result, if it has one, is
a new temporary. -/
structure Adds (b : FunctionBuilder) (i : Instr) (b' : FunctionBuilder) : Prop where
  instrs : b'.instrs.Perm (i :: b.instrs)
  temps : b.nextTemp ≤ b'.nextTemp
  result : ∀ t, i.result? = some t → b.nextTemp ≤ t ∧ t < b'.nextTemp

end FunctionBuilder

namespace Build

variable {b : FunctionBuilder}

theorem adds_emit {i : Instr} (b : FunctionBuilder) (hi : i.result? = none) :
    (∃ e, exec (emit i) b = (.error e, b)) ∨ ∃ b', exec (emit i) b = (.ok (), b') ∧ b.Adds i b' := by
  rcases emit_cases i b with he | ⟨f, l, block, hf, -, hblock, -, hexec⟩
  · exact .inl he
  · refine .inr ⟨_, hexec, ?_, Nat.le_refl _, by simp [hi]⟩
    rw [FunctionBuilder.instrs, FunctionBuilder.instrs, hf]
    exact f.perm_instrs_push hblock i

/-- The result of a new instruction is the next temporary. -/
theorem adds_define (instr : Nat → Instr) (hinstr : ∀ t, (instr t).result? = some t)
    (b : FunctionBuilder) :
    (∃ e, exec (define instr) b = (.error e, { b with nextTemp := b.nextTemp + 1 })) ∨
      ∃ b', exec (define instr) b = (.ok (.temp b.nextTemp), b') ∧
        b.Adds (instr b.nextTemp) b' := by
  have hdraw : exec newTemp b = (.ok b.nextTemp, { b with nextTemp := b.nextTemp + 1 }) := rfl
  rw [define, exec_bind_of_ok hdraw]
  rcases emit_cases (instr b.nextTemp) { b with nextTemp := b.nextTemp + 1 } with
    ⟨e, he⟩ | ⟨f, l, block, hf, -, hblock, -, hexec⟩
  · exact .inl ⟨e, exec_bind_of_error he⟩
  · have hf : b.function = some f := hf
    refine .inr ⟨_, exec_bind_of_ok hexec, ?_, Nat.le_succ _, ?_⟩
    · rw [FunctionBuilder.instrs, FunctionBuilder.instrs, hf]
      exact f.perm_instrs_push hblock _
    · rintro t ht
      obtain rfl := Option.some.inj ((hinstr b.nextTemp).symm.trans ht)
      exact ⟨Nat.le_refl _, Nat.lt_succ_self _⟩

/-- So is a stack slot. -/
theorem adds_entryAlloca (type : MachineType) (b : FunctionBuilder) :
    (∃ e, exec (entryAlloca type) b = (.error e, { b with nextTemp := b.nextTemp + 1 })) ∨
      ∃ b', exec (entryAlloca type) b = (.ok (.temp b.nextTemp), b') ∧
        b.Adds (.alloca b.nextTemp type) b' := by
  rcases entryAlloca_cases type b with he | ⟨f, entry, rest, hf, hblocks, hexec⟩
  · exact .inl he
  · refine .inr ⟨_, hexec, ?_, Nat.le_succ _, ?_⟩
    · rw [FunctionBuilder.instrs, FunctionBuilder.instrs, hf]
      exact FunctionDef.perm_instrs_insertSlot hblocks _
    · rintro t ⟨rfl⟩
      exact ⟨Nat.le_refl _, Nat.lt_succ_self _⟩

theorem instrs_createBlock (label : Nat) (hint : String) (b : FunctionBuilder) :
    (exec (createBlock label hint) b).2.instrs = b.instrs ∧
      (exec (createBlock label hint) b).2.nextTemp = b.nextTemp := by
  rcases createBlock_cases label hint b with ⟨e, he⟩ | ⟨f, hf, -, hexec⟩
  · rw [he]
    exact ⟨rfl, rfl⟩
  · rw [hexec, FunctionBuilder.instrs, FunctionBuilder.instrs, hf]
    exact ⟨by simp [FunctionDef.instrs, Block.fresh], rfl⟩

end Build

namespace BodyState

variable {env : Environment} {s s' s'' : BodyState} {writable : Bool} {ptr : Value}

/-- The instructions of the function under construction. -/
def instrs (s : BodyState) : List Instr := s.builder.instrs

/-- A binding that a name has, in the body or in the unit. -/
def Binds (env : Environment) (s : BodyState) (b : Binding) : Prop :=
  ∃ name, (name, b) ∈ s.scope.entries ∨ (name, b) ∈ env.globals

/-- A place in memory where the way to others begins, and whether it may be written: a variable
or what a pointer leads to. -/
inductive Origin (env : Environment) (s : BodyState) : Bool → Value → Prop
  | named {b : Binding} {address : Value} : s.Binds env b → b.storage.address? = some address →
    Origin env s b.isMutable address
  | parameter {b : Binding} {value : Value} : s.Binds env b → b.storage = .direct value →
    b.source.isPointer = true → Origin env s true value
  | loaded {t : Nat} {source : Value} {type : MachineType} : .load t source type ∈ s.instrs →
    Origin env s true (.temp t)
  | extracted {t index : Nat} {value : Value} {type fieldType : MachineType} :
    .extract t value type index fieldType ∈ s.instrs → Origin env s true (.temp t)

/-- A place in memory that a name leads to. A part may be written if the whole may. -/
def Accesses (env : Environment) (s : BodyState) (writable : Bool) (ptr : Value) : Prop :=
  ∃ root, s.Origin env writable root ∧ GoesBack s.instrs ptr root

theorem Origin.accesses (h : s.Origin env writable ptr) : s.Accesses env writable ptr :=
  ⟨ptr, h, .refl ptr⟩

theorem Accesses.part (h : s.Accesses env writable ptr) {t : Nat} {base : MachineType}
    {indices : List Value} (hi : .address t base ptr indices ∈ s.instrs) :
    s.Accesses env writable (.temp t) := by
  obtain ⟨root, horigin, hback⟩ := h
  exact ⟨root, horigin, .part hi hback⟩

/-- An instruction that a step may add. -/
def Allows (env : Environment) (s : BodyState) : Instr → Prop
  | .alloca .. => False
  | .store _ ptr _ => s.Accesses env true ptr
  | .address _ _ ptr _ => ∃ writable, s.Accesses env writable ptr
  | _ => True

theorem Allows.isAlloca_eq_false {i : Instr} (h : s.Allows env i) : i.isAlloca = false := by
  cases i <;> first | rfl | exact h.elim

/-- A step of the lowering. -/
inductive Step (env : Environment) (s : BodyState) : BodyState → Prop
  | report (d : Diagnostic) : Step env s { s with log := s.log.report d }
  | use (name : String) : Step env s { s with scope := s.scope.markUsed name }
  | turn {b : FunctionBuilder} : b.instrs = s.instrs → s.builder.nextTemp ≤ b.nextTemp →
    Step env s { s with builder := b }
  | add {b : FunctionBuilder} {i : Instr} : s.builder.Adds i b → s.Allows env i →
    Step env s { s with builder := b }

/-- Any number of steps. -/
abbrev Steps (env : Environment) : BodyState → BodyState → Prop := Relation.ReflTransGen (Step env)

/-- A step in which the builder only makes edits. -/
def TidyStep (env : Environment) (s s' : BodyState) : Prop :=
  s.Step env s' ∧ s.builder.Edits s'.builder

/-- Any number of such steps. -/
abbrev TidySteps (env : Environment) : BodyState → BodyState → Prop :=
  Relation.ReflTransGen (TidyStep env)

theorem TidySteps.steps (h : s.TidySteps env s') : s.Steps env s' :=
  Relation.ReflTransGen.mono (fun _ _ => And.left) _ _ h

/-- A name that becomes used keeps its binding otherwise. -/
theorem Binds.step {b : Binding} (hb : s.Binds env b) (h : s.Step env s') :
    ∃ used, s'.Binds env { b with used := used } := by
  obtain ⟨name, hb | hb⟩ := hb
  · cases h with
    | use other =>
      have hmem : (if name == other then (name, { b with used := true }) else (name, b)) ∈
          (s.scope.markUsed other).entries := List.mem_map.mpr ⟨(name, b), hb, rfl⟩
      split at hmem
      · exact ⟨true, name, .inl hmem⟩
      · exact ⟨b.used, name, .inl hmem⟩
    | _ => exact ⟨b.used, name, .inl hb⟩
  · exact ⟨b.used, name, .inr hb⟩

theorem Step.instrs_subset (h : s.Step env s') : s.instrs ⊆ s'.instrs := by
  cases h with
  | report | use => exact List.Subset.refl _
  | @turn b hinstrs =>
    show s.instrs ⊆ b.instrs
    rw [hinstrs]
    exact List.Subset.refl _
  | add hadds => exact fun i hi => hadds.instrs.mem_iff.mpr (List.mem_cons_of_mem _ hi)

theorem Origin.step (ho : s.Origin env writable ptr) (h : s.Step env s') :
    s'.Origin env writable ptr := by
  cases ho with
  | @named b address hb haddress =>
    obtain ⟨used, hb⟩ := hb.step h
    exact .named (b := { b with used := used }) hb haddress
  | @parameter b value hb hstorage hpointer =>
    obtain ⟨used, hb⟩ := hb.step h
    exact .parameter (b := { b with used := used }) hb hstorage hpointer
  | loaded hi => exact .loaded (h.instrs_subset hi)
  | extracted hi => exact .extracted (h.instrs_subset hi)

/-- What a name leads to, it leads to until names are bound again. -/
theorem Accesses.step (ha : s.Accesses env writable ptr) (h : s.Step env s') :
    s'.Accesses env writable ptr := by
  obtain ⟨root, horigin, hback⟩ := ha
  exact ⟨root, horigin.step h, hback.mono h.instrs_subset⟩

theorem Accesses.steps (ha : s.Accesses env writable ptr) (h : s.Steps env s') :
    s'.Accesses env writable ptr := by
  induction h with
  | refl => exact ha
  | tail _ h ih => exact ih.step h

end BodyState

namespace Lower

open BodyState

variable {env : Environment} {s s' : BodyState} {α β : Type}

/-- The action takes steps only. Its result, if it has one, is as stated. -/
def TakesSteps (env : Environment) (x : Lower α) (s : BodyState) (post : α → BodyState → Prop) :
    Prop :=
  s.TidySteps env (exec x s).2 ∧ ∀ a s', exec x s = (.ok a, s') → post a s'

namespace TakesSteps

variable {post : α → BodyState → Prop} {post' : β → BodyState → Prop} {x : Lower α}

theorem pure {a : α} (h : post a s) : TakesSteps env (Pure.pure a) s post := by
  refine ⟨.refl, ?_⟩
  rintro _ _ ⟨⟩
  exact h

/-- Nothing is said of the result. -/
theorem done {a : α} : TakesSteps env (Pure.pure a) s fun _ _ => True := pure trivial

theorem throw (e : LoweringError) : TakesSteps env (throw e : Lower α) s post :=
  ⟨.refl, fun a s' h => by cases h⟩

theorem fail (cause : Cause) : TakesSteps env (Lower.fail cause : Lower α) s post := throw _

theorem imp {post'' : α → BodyState → Prop} (h : TakesSteps env x s post)
    (himp : ∀ a s', s.Steps env s' → post a s' → post'' a s') : TakesSteps env x s post'' := by
  refine ⟨h.1, fun a s' hexec => himp a s' ?_ (h.2 a s' hexec)⟩
  have hsteps := h.1.steps
  rwa [hexec] at hsteps

/-- What leads on is the second action, at the state that the first one leaves. -/
theorem bind {f : α → Lower β} (hx : TakesSteps env x s post)
    (hf : ∀ a s', s.Steps env s' → post a s' → TakesSteps env (f a) s' post') :
    TakesSteps env (x >>= f) s post' := by
  obtain ⟨hsteps, hpost⟩ := hx
  rcases hexec : exec x s with ⟨e | a, s₁⟩
  · rw [TakesSteps, exec_bind_of_error hexec]
    rw [hexec] at hsteps
    exact ⟨hsteps, fun b s' h => by cases h⟩
  · rw [TakesSteps, exec_bind_of_ok hexec]
    rw [hexec] at hsteps
    obtain ⟨hsteps', hpost'⟩ := hf a s₁ hsteps.steps (hpost a s₁ hexec)
    exact ⟨hsteps.trans hsteps', hpost'⟩

/-- A choice is made, or the action fails. -/
theorem orFail_bind {result : Option α} {cause : Cause} {f : α → Lower β}
    (hf : ∀ a, result = some a → TakesSteps env (f a) s post') :
    TakesSteps env (orFail result cause >>= f) s post' := by
  cases result with
  | none => exact ⟨.refl, fun a s' h => by cases h⟩
  | some a => exact hf a rfl

/-- Behind a failure, nothing is carried out. -/
theorem throw_bind (e : LoweringError) {f : α → Lower β} :
    TakesSteps env ((MonadExcept.throw e : Lower α) >>= f) s post' :=
  ⟨.refl, fun a s' h => by cases h⟩

theorem guarded {p : Prop} [Decidable p] {e : LoweringError} {next : Unit → Lower α}
    (h : p → TakesSteps env (next ()) s post) :
    TakesSteps env (if p then next () else MonadExcept.throw e >>= next) s post := by
  split
  · next hp => exact h hp
  · exact throw_bind e

theorem guarded' {p : Prop} [Decidable p] {e : LoweringError} {next : Unit → Lower α}
    (h : ¬ p → TakesSteps env (next ()) s post) :
    TakesSteps env (if p then MonadExcept.throw e >>= next else next ()) s post := by
  split
  · exact throw_bind e
  · next hp => exact h hp

/-! ## Actions that add nothing -/

theorem get : TakesSteps env (get : Lower BodyState) s fun t s' => t = s ∧ s' = s := by
  refine ⟨.refl, ?_⟩
  rintro _ _ ⟨⟩
  exact ⟨rfl, rfl⟩

theorem report (d : Diagnostic) : TakesSteps env (report d) s fun _ _ => True :=
  ⟨.single ⟨.report d, .refl⟩, fun _ _ _ => trivial⟩

theorem warn (w : Warning) (location : Option Location) :
    TakesSteps env (Lower.warn w location) s fun _ _ => True := report _

theorem checkKnown (type : SourceType) (location : Option Location) :
    TakesSteps env (Lower.checkKnown env type location) s fun _ _ => True := by
  rw [Lower.checkKnown]
  split
  · exact done
  · exact warn _ location

/-- An action of the builder that adds no instruction. -/
theorem build_of_quiet {action : Build α} (hcareful : Build.Careful action)
    (hinstrs : (exec action s.builder).2.instrs = s.instrs)
    (htemps : s.builder.nextTemp ≤ (exec action s.builder).2.nextTemp) :
    TakesSteps env (build action) s fun _ _ => True := by
  have hedits := (hcareful s.builder).1
  refine ⟨.single ?_, fun _ _ _ => trivial⟩
  rw [exec_build]
  rcases hexec : exec action s.builder with ⟨e | a, b⟩
  all_goals
    rw [hexec] at hinstrs htemps hedits
    exact ⟨.turn hinstrs htemps, hedits⟩

theorem newLabel : TakesSteps env (build Build.newLabel) s fun _ _ => True :=
  build_of_quiet Build.careful_newLabel rfl (Nat.le_refl _)

theorem createBlock (label : Nat) (hint : String) :
    TakesSteps env (build (Build.createBlock label hint)) s fun _ _ => True :=
  have h := Build.instrs_createBlock label hint s.builder
  build_of_quiet (Build.careful_createBlock label hint) h.1 h.2.ge

theorem appendBlock (hint : String) :
    TakesSteps env (build (Build.appendBlock hint)) s fun _ _ => True := by
  rw [Build.appendBlock, build_bind]
  refine newLabel.bind fun label s₁ _ _ => ?_
  rw [build_bind]
  refine (createBlock label hint).bind fun _ s₂ _ _ => ?_
  rw [build_pure]
  exact done

/-! ## Actions that add an instruction -/

theorem emit {i : Instr} (hi : i.result? = none) (h : s.Allows env i) :
    TakesSteps env (build (Build.emit i)) s fun _ _ => True := by
  have hedits := (Build.careful_emit h.isAlloca_eq_false hi s.builder).1
  refine ⟨?_, fun _ _ _ => trivial⟩
  rw [exec_build]
  rcases Build.adds_emit s.builder hi with ⟨e, he⟩ | ⟨b, hexec, hb⟩
  · rw [he]
  · rw [hexec] at hedits ⊢
    exact .single ⟨.add hb h, hedits⟩

/-- The result is a temporary, and the instruction that defines it stands in the code. -/
theorem define {instr : Nat → Instr} (hinstr : ∀ t, (instr t).result? = some t)
    (h : ∀ t, s.Allows env (instr t)) :
    TakesSteps env (build (Build.define instr)) s
      fun v s' => ∃ t, v = .temp t ∧ instr t ∈ s'.instrs := by
  have hedits :=
    (Build.careful_define (fun t => ⟨(h t).isAlloca_eq_false, hinstr t⟩) s.builder).1
  rw [TakesSteps, exec_build]
  rcases Build.adds_define instr hinstr s.builder with ⟨e, he⟩ | ⟨b, hexec, hb⟩
  · rw [he] at hedits ⊢
    exact ⟨.single ⟨.turn rfl (Nat.le_succ _), hedits⟩, fun _ _ h => by cases h⟩
  · rw [hexec] at hedits ⊢
    refine ⟨.single ⟨.add hb (h _), hedits⟩, ?_⟩
    rintro _ _ ⟨⟩
    exact ⟨_, rfl, hb.instrs.mem_iff.mpr List.mem_cons_self⟩

theorem binary (op : Opcode) (lhs rhs : Value) (type : MachineType) :
    TakesSteps env (build (Build.binary op lhs rhs type)) s fun _ _ => True :=
  (define (fun _ => rfl) fun _ => by trivial).imp fun _ _ _ _ => trivial

theorem convert (op : Conversion) (value : Value) (source target : MachineType) :
    TakesSteps env (build (Build.convert op value source target)) s fun _ _ => True :=
  (define (fun _ => rfl) fun _ => by trivial).imp fun _ _ _ _ => trivial

theorem phi (incoming : List (Value × Nat)) (type : MachineType) :
    TakesSteps env (build (Build.phi incoming type)) s fun _ _ => True :=
  (define (fun _ => rfl) fun _ => by trivial).imp fun _ _ _ _ => trivial

theorem load (ptr : Value) (type : MachineType) :
    TakesSteps env (build (Build.load ptr type)) s fun v s' => s'.Accesses env true v := by
  refine (define (fun _ => rfl) fun _ => by trivial).imp ?_
  rintro _ s' - ⟨t, rfl, hi⟩
  exact (Origin.loaded hi).accesses

theorem extract (aggregate : Value) (type : MachineType) (index : Nat) (fieldType : MachineType) :
    TakesSteps env (build (Build.extract aggregate type index fieldType)) s
      fun v s' => s'.Accesses env true v := by
  refine (define (fun _ => rfl) fun _ => by trivial).imp ?_
  rintro _ s' - ⟨t, rfl, hi⟩
  exact (Origin.extracted hi).accesses

/-- A part of a place may be written if the place may. -/
theorem fieldAddress {writable : Bool} {ptr : Value} (h : s.Accesses env writable ptr)
    (base : MachineType) (index : Nat) :
    TakesSteps env (build (Build.fieldAddress base ptr index)) s
      fun v s' => s'.Accesses env writable v := by
  have hdefine : TakesSteps env (build (Build.fieldAddress base ptr index)) s fun v s' =>
      ∃ t, v = .temp t ∧ .address t base ptr [.int 0, .int (Int64.ofNat index)] ∈ s'.instrs :=
    define (fun _ => rfl) fun _ => ⟨writable, h⟩
  refine hdefine.imp ?_
  rintro _ s' hsteps ⟨t, rfl, hi⟩
  exact (h.steps hsteps).part hi

theorem store (value : Value) {ptr : Value} (h : s.Accesses env true ptr) (type : MachineType) :
    TakesSteps env (build (Build.store value ptr type)) s fun _ _ => True := emit rfl h

theorem call (callee : Value) (type : MachineType) (args : List (MachineType × Value)) :
    TakesSteps env (build (Build.call callee type args)) s fun _ _ => True := by
  unfold Build.call
  split
  · rw [build_bind]
    refine (emit rfl (by trivial)).bind fun _ s₁ _ _ => ?_
    rw [build_pure]
    exact done
  · rw [build_bind]
    refine (define (fun _ => rfl) fun _ => by trivial).bind fun _ s₁ _ _ => ?_
    rw [build_pure]
    exact done

/-! ## Leaving blocks -/

theorem jumpTo (target label : Nat) (hint : String) :
    TakesSteps env (jumpTo target label hint) s fun _ _ => True :=
  (emit rfl (by trivial)).bind fun _ _ _ _ => createBlock label hint

theorem branchTo (condition : Value) (ifTrue ifFalse label : Nat) (hint : String) :
    TakesSteps env (branchTo condition ifTrue ifFalse label hint) s fun _ _ => True :=
  (emit rfl (by trivial)).bind fun _ _ _ _ => createBlock label hint

theorem isTerminated : TakesSteps env isTerminated s fun _ _ => True :=
  get.bind fun _ _ _ _ => done

theorem proceedTo (target label : Nat) (hint : String) :
    TakesSteps env (proceedTo target label hint) s fun _ _ => True := by
  have hjump : TakesSteps env (fallThrough target) s fun _ _ => True := by
    refine isTerminated.bind fun terminated s₁ _ _ => ?_
    split
    · exact done
    · exact emit rfl (by trivial)
  exact hjump.bind fun _ _ _ _ => createBlock label hint

theorem openIfTerminated : TakesSteps env openIfTerminated s fun _ _ => True := by
  refine isTerminated.bind fun terminated s₁ _ _ => ?_
  split
  · exact (appendBlock "dead").bind fun _ _ _ _ => done
  · exact done

theorem openFork (isAnd : Bool) (lhs : Value) :
    TakesSteps env (openFork isAnd lhs) s fun _ _ => True := by
  unfold Lower.openFork
  refine newLabel.bind fun _ _ _ _ => newLabel.bind fun _ _ _ _ => ?_
  exact (branchTo _ _ _ _ _).bind fun _ _ _ _ => done

theorem openBranch (value : Value) : TakesSteps env (openBranch value) s fun _ _ => True := by
  unfold Lower.openBranch
  refine newLabel.bind fun _ _ _ _ => newLabel.bind fun _ _ _ _ => newLabel.bind fun _ _ _ _ => ?_
  exact (branchTo _ _ _ _ _).bind fun _ _ _ _ => done

theorem openWhile : TakesSteps env openWhile s fun _ _ => True := by
  unfold Lower.openWhile
  refine newLabel.bind fun _ _ _ _ => newLabel.bind fun _ _ _ _ => newLabel.bind fun _ _ _ _ => ?_
  exact (jumpTo _ _ _).bind fun _ _ _ _ => done

theorem openFor : TakesSteps env openFor s fun _ _ => True := by
  unfold Lower.openFor
  refine newLabel.bind fun _ _ _ _ => newLabel.bind fun _ _ _ _ => newLabel.bind fun _ _ _ _ =>
    newLabel.bind fun _ _ _ _ => ?_
  exact (jumpTo _ _ _).bind fun _ _ _ _ => done

/-! ## Names -/

theorem binds_of_lookup {entries : List (String × Binding)} {name : String} {b : Binding}
    (h : entries.lookup name = some b) : (name, b) ∈ entries := by
  obtain ⟨front, rest, rfl, -⟩ := List.lookup_eq_some_iff.mp h
  simp

theorem readBinding? (name : String) : TakesSteps env (Lower.readBinding? env name) s
    fun result s' => ∀ b, result = some b → s'.Binds env b := by
  have hsteps : s.TidySteps env { s with scope := s.scope.markUsed name } :=
    .single ⟨.use name, .refl⟩
  simp only [TakesSteps, Lower.readBinding?, exec_bind, exec_get, exec_set, Scope.read]
  cases hfind : (s.scope.markUsed name).find? name with
  | some b =>
    refine ⟨hsteps, ?_⟩
    rintro _ _ ⟨⟩ _ ⟨rfl⟩
    exact ⟨name, .inl (binds_of_lookup hfind)⟩
  | none =>
    refine ⟨hsteps, ?_⟩
    rintro _ _ ⟨⟩ b hb
    exact ⟨name, .inr (binds_of_lookup hb)⟩

theorem peekBinding? (name : String) : TakesSteps env (Lower.peekBinding? env name) s
    fun result s' => ∀ b, result = some b → s'.Binds env b := by
  simp only [TakesSteps, Lower.peekBinding?, exec_bind, exec_get]
  cases hfind : s.scope.find? name with
  | some b =>
    refine ⟨.refl, ?_⟩
    rintro _ _ ⟨⟩ _ ⟨rfl⟩
    exact ⟨name, .inl (binds_of_lookup hfind)⟩
  | none =>
    refine ⟨.refl, ?_⟩
    rintro _ _ ⟨⟩ b hb
    exact ⟨name, .inr (binds_of_lookup hb)⟩

end TakesSteps

/-- The ways in which a name is bound: no slot is found, its first value is not stored, or all is
done. -/
theorem exec_bindVariable (decl : VariableDecl Term) (source : SourceType) (type : MachineType)
    (initial : Option Value) (s : BodyState) :
    ((∀ slot, (exec (build (Build.entryAlloca type)) s).1 ≠ .ok slot) ∧
      (exec (bindVariable decl source type initial) s).2 =
        { s with builder := { s.builder with nextTemp := s.builder.nextTemp + 1 } }) ∨
    ∃ b, exec (build (Build.entryAlloca type)) s =
        (.ok (.temp s.builder.nextTemp), { s with builder := b }) ∧
      s.builder.Adds (.alloca s.builder.nextTemp type) b ∧
      ((exec (bindVariable decl source type initial) s).2 = { s with builder := b } ∨
      ∃ b', (b' = b ∧ initial = none ∨ ∃ value, initial = some value ∧
          b.Adds (.store value (.temp s.builder.nextTemp) type) b') ∧
        (exec (bindVariable decl source type initial) s).2 = { s with
          builder := b'
          scope := s.scope.declare decl.name ⟨.stack (.temp s.builder.nextTemp), source, type,
            decl.isMutable, false, decl.location⟩ }) := by
  rcases Build.adds_entryAlloca type s.builder with ⟨e, he⟩ | ⟨b, hexec, hb⟩
  · have herror := exec_build (Build.entryAlloca type) s
    rw [he] at herror
    exact .inl ⟨by simp [herror], by rw [bindVariable, exec_bind_of_error herror]⟩
  · have hslot := exec_build_of_ok hexec
    refine .inr ⟨b, hslot, hb, ?_⟩
    rw [bindVariable, exec_bind_of_ok hslot]
    cases initial with
    | none => exact .inr ⟨b, .inl ⟨rfl, rfl⟩, rfl⟩
    | some value =>
      have hresult : (Instr.store value (.temp s.builder.nextTemp) type).result? = none := rfl
      rcases Build.adds_emit b hresult with ⟨e, he⟩ | ⟨b', hexec', hb'⟩
      · have herror := exec_build (Build.emit (.store value (.temp s.builder.nextTemp) type))
          { s with builder := b }
        rw [he] at herror
        exact .inl (by rw [storeInitial, Build.store, exec_bind_of_error herror])
      · have hstored : exec (storeInitial (.temp s.builder.nextTemp) type (some value))
            { s with builder := b } = (.ok (), { s with builder := b' }) := by
          rw [storeInitial, Build.store, exec_build, hexec']
        exact .inr ⟨b', .inr ⟨value, rfl, hb'⟩, by rw [exec_bind_of_ok hstored]; rfl⟩

end Lower

end SsaLowering
