import SsaLowering.Proofs.Invariant

/-!
# Actions that keep to a setting

An action obeys a setting if it adds only instructions that the setting admits, whether it
succeeds or not, and leaves every name bound to storage of its type. What it says of its result
refers to the ledger that it leaves. A setting is an invariant, so the rules are those of
invariants.
-/

namespace SsaLowering

namespace Setting

variable {c : Setting} {L L' : Ledger} {s s' : BodyState}

/-- The state keeps to the setting: its instructions are admitted, its names are bound to
storage of their types, and in an exact setting the integers that global variables start with
fit their types. -/
structure Holds (c : Setting) (s : BodyState) : Prop where
  code : ∀ i, .instr i ∈ s.ledger → c.Admits s.ledger i
  locals : ∀ entry ∈ s.scope.entries, c.Binds s.ledger entry.2
  globals : ∀ entry ∈ c.env.globals, c.Binds s.ledger entry.2
  initializers : c.exact → ∀ g ∈ s.globals, ∀ v, g.initializer = some v → v.Fits g.type

/-- What is written down and bound decides whether a state keeps to the setting. -/
theorem Holds.of_eq (h : c.Holds s) (hledger : s'.ledger = s.ledger)
    (hlocals : ∀ entry ∈ s'.scope.entries, c.Binds s.ledger entry.2) : c.Holds s' where
  code := hledger ▸ h.code
  locals := hledger ▸ hlocals
  globals := hledger ▸ h.globals
  initializers := by
    simp only [← BodyState.global_mem_ledger, hledger]
    simpa only [BodyState.global_mem_ledger] using h.initializers

/-- An admitted instruction is added. -/
theorem Holds.insert (h : c.Holds s) {b : FunctionBuilder} {i : Instr}
    (hb : b.entries = Insert.insert (.instr i) s.builder.entries) (hi : c.Admits s.ledger i) :
    c.Holds { s with builder := b } := by
  have hledger := BodyState.ledger_insert hb
  have hsub : s.ledger ⊆ Insert.insert (LedgerEntry.instr i) s.ledger := Set.subset_insert _ _
  refine ⟨?_, ?_, ?_, h.initializers⟩
  · rw [hledger]
    rintro j (hj | hj)
    · cases hj
      exact hi.mono hsub
    · exact (h.code j hj).mono hsub
  · rw [hledger]
    exact fun entry he => (h.locals entry he).mono hsub
  · rw [hledger]
    exact fun entry he => (h.globals entry he).mono hsub

/-- It makes no difference for the binding of a name whether it is used. -/
theorem binds_used {b : Binding} (h : c.Binds L b) : c.Binds L { b with used := true } :=
  ⟨h.houses, h.allows, h.matched⟩

/-- To keep to a setting is an invariant. -/
def invariant (c : Setting) : Invariant where
  env := c.env
  Holds := c.Holds
  Admits := c.Admits
  Binds := c.Binds
  admits_mono := Admits.mono
  admits_jump := .jump
  binds_used := binds_used
  locals := Holds.locals
  globals := Holds.globals
  rebind := fun hs hledger _ hlocals => hs.of_eq hledger hlocals
  insert := fun hs hb hi => hs.insert hb hi

/-- Started with a ledger that goes beyond the given one, the action keeps to the setting and
only adds entries. Its result, if it has one, is as stated. -/
def Obeys {α : Type} (c : Setting) (L : Ledger) (action : Lower α) (post : α → Ledger → Prop) :
    Prop :=
  ∀ s, c.Holds s → L ⊆ s.ledger →
    c.Holds (exec action s).2 ∧ s.ledger ⊆ (exec action s).2.ledger ∧
      ∀ a, (exec action s).1 = .ok a → post a (exec action s).2.ledger

namespace Obeys

open Lower

variable {α β : Type} {post : α → Ledger → Prop} {post' : β → Ledger → Prop} {x : Lower α}

theorem pure {a : α} (h : ∀ L', L ⊆ L' → post a L') : c.Obeys L (Pure.pure a) post :=
  Invariant.Keeps.pure (I := c.invariant) h

theorem throw (e : LoweringError) : c.Obeys L (throw e : Lower α) post :=
  Invariant.Keeps.throw (I := c.invariant) e

theorem fail (cause : Cause) : c.Obeys L (Lower.fail cause : Lower α) post := throw _

theorem imp {post'' : α → Ledger → Prop} (h : c.Obeys L x post)
    (himp : ∀ a L', L ⊆ L' → post a L' → post'' a L') : c.Obeys L x post'' :=
  Invariant.Keeps.imp (I := c.invariant) h himp

/-- The second action may use what the first one says of its result. -/
theorem bind {f : α → Lower β} (hx : c.Obeys L x post)
    (hf : ∀ a L', L ⊆ L' → post a L' → c.Obeys L' (f a) post') :
    c.Obeys L (x >>= f) post' :=
  Invariant.Keeps.bind (I := c.invariant) hx hf

/-- A choice is made, or the action fails. -/
theorem orFail_bind {result : Option α} {cause : Cause} {f : α → Lower β}
    (hf : ∀ a, result = some a → c.Obeys L (f a) post') :
    c.Obeys L (orFail result cause >>= f) post' :=
  Invariant.Keeps.orFail_bind (I := c.invariant) hf

theorem tryCatch {handler : LoweringError → Lower α} (hx : c.Obeys L x post)
    (hhandler : ∀ e L', L ⊆ L' → c.Obeys L' (handler e) post) :
    c.Obeys L (tryCatch x handler) post :=
  Invariant.Keeps.tryCatch (I := c.invariant) hx hhandler

theorem located {location : Option Location} (h : c.Obeys L x post) :
    c.Obeys L (located location x) post :=
  Invariant.Keeps.located (I := c.invariant) h

/-- An action that is carried out only if a condition holds. -/
theorem guarded {p : Prop} [Decidable p] {e : LoweringError} {next : Unit → Lower α}
    (h : p → c.Obeys L (next ()) post) :
    c.Obeys L (if p then next () else MonadExcept.throw e >>= next) post :=
  Invariant.Keeps.guarded (I := c.invariant) h

theorem guarded' {p : Prop} [Decidable p] {e : LoweringError} {next : Unit → Lower α}
    (h : ¬ p → c.Obeys L (next ()) post) :
    c.Obeys L (if p then MonadExcept.throw e >>= next else next ()) post :=
  Invariant.Keeps.guarded' (I := c.invariant) h

theorem get : c.Obeys L (get : Lower BodyState) fun _ _ => True :=
  Invariant.Keeps.get (I := c.invariant)

theorem report (d : Diagnostic) : c.Obeys L (report d) fun _ _ => True :=
  Invariant.Keeps.report (I := c.invariant) d

theorem warn (w : Warning) (location : Option Location) :
    c.Obeys L (Lower.warn w location) fun _ _ => True := report _

theorem recovering {action : Lower Unit} (h : c.Obeys L action fun _ _ => True) :
    c.Obeys L (recovering action) fun _ _ => True :=
  Invariant.Keeps.recovering (I := c.invariant) h

theorem checkKnown (env : Environment) (type : SourceType) (location : Option Location) :
    c.Obeys L (Lower.checkKnown env type location) fun _ _ => True :=
  Invariant.Keeps.checkKnown (I := c.invariant) env type location

theorem appendBlock (hint : String) :
    c.Obeys L (build (Build.appendBlock hint)) fun _ _ => True :=
  Invariant.Keeps.appendBlock (I := c.invariant) hint

/-! ## Actions that add an instruction -/

theorem emit {i : Instr} (h : c.Admits L i) :
    c.Obeys L (build (Build.emit i)) fun _ _ => True :=
  Invariant.Keeps.emit (I := c.invariant) h

theorem define {instr : Nat → Instr} (h : ∀ t, c.Admits L (instr t)) :
    c.Obeys L (build (Build.define instr))
      fun v L' => ∃ t, v = .temp t ∧ .instr (instr t) ∈ L' :=
  Invariant.Keeps.define (I := c.invariant) h

theorem entryAlloca {type : MachineType} (h : c.Allows type) :
    c.Obeys L (build (Build.entryAlloca type))
      fun v L' => ∃ t, v = .temp t ∧ .instr (.alloca t type) ∈ L' :=
  Invariant.Keeps.entryAlloca (I := c.invariant) fun _ => Admits.alloca h

/-- An instruction whose result has a type. -/
theorem computing {instr : Nat → Instr} {type : MachineType} (h : ∀ t, c.Admits L (instr t))
    (hresult : ∀ t, (instr t).result? = some t)
    (htype : ∀ t, (instr t).resultType? = some type) :
    c.Obeys L (build (Build.define instr)) fun v L' => L'.Computes v type := by
  apply (define h).imp
  rintro v L' - ⟨t, rfl, hmem⟩
  exact Ledger.computes_result hmem (hresult t) (htype t)

section

variable {lhs rhs value ptr : Value} {type type' : MachineType}

theorem binary (op : Opcode) (hlhs : c.Operand L lhs type) (hrhs : c.Operand L rhs type) :
    c.Obeys L (build (Build.binary op lhs rhs type))
      fun v L' => L'.Computes v (if op.isComparison then .bool else type) :=
  computing (fun _ => .binary hlhs hrhs) (fun _ => rfl) fun _ => rfl

theorem load (hptr : L.HasType ptr .ptr) (type : MachineType) :
    c.Obeys L (build (Build.load ptr type))
      fun v L' => ∃ t, v = .temp t ∧ .instr (.load t ptr type) ∈ L' :=
  define fun _ => .load hptr

theorem store (hvalue : c.Operand L value type) (hptr : L.HasType ptr .ptr) :
    c.Obeys L (build (Build.store value ptr type)) fun _ _ => True :=
  emit (.store hvalue hptr)

theorem convert {op : Conversion} (hvalue : c.Operand L value type) (hop : op.Widens type type') :
    c.Obeys L (build (Build.convert op value type type')) fun v L' => L'.Computes v type' :=
  computing (fun _ => .convert hvalue hop) (fun _ => rfl) fun _ => rfl

theorem phi {incoming : List (Value × Nat)}
    (h : ∀ source ∈ incoming, c.Operand L source.1 type) :
    c.Obeys L (build (Build.phi incoming type)) fun v L' => L'.Computes v type :=
  computing (fun _ => .phi h) (fun _ => rfl) fun _ => rfl

variable {layout : StructLayout} {field : FieldLayout} {writable : Bool}

/-- The address of a field is that of storage for it. -/
theorem fieldAddress (hplace : c.Locates L (.memory ptr layout writable))
    (hfield : c.Opens layout field) :
    c.Obeys L (build (Build.fieldAddress layout.type ptr field.index))
      fun v L' => L'.HasType v .ptr ∧ L'.PointsTo v field.type := by
  have hlayout : layout ∈ c.env.structs.layouts := by
    cases hplace with
    | memory hlayout hptr hpoints => exact hlayout
  refine imp (define fun _ => .address hplace hfield) ?_
  rintro v L' - ⟨t, rfl, hmem⟩
  exact ⟨(Ledger.computes_result hmem rfl rfl).hasType, pointsTo_field hlayout hfield.1 hmem⟩

theorem extract (hplace : c.Locates L (.aggregate value layout)) (hfield : c.Opens layout field) :
    c.Obeys L (build (Build.extract value layout.type field.index field.type))
      fun v L' => ∃ t, v = .temp t ∧
        .instr (.extract t value layout.type field.index field.type) ∈ L' :=
  define fun _ => .extract hplace hfield

/-- A call has a result unless the callee has none. -/
theorem call {callee : String} {signature : Signature} {args : List (MachineType × Value)}
    (hcallee : (callee, signature) ∈ c.env.functions)
    (hargs : ∀ arg ∈ args, c.Operand L arg.2 arg.1) :
    c.Obeys L (build (Build.call (.function callee) signature.type args)) fun result L' => ∀ v,
      result = some v → signature.returnType ≠ .void ∧ L'.Computes v signature.returnType := by
  cases hvoid : signature.type.returnsVoid with
  | true =>
    simp only [Build.call, hvoid, if_true, build_bind, build_pure]
    refine (emit (.call hcallee hargs)).bind fun _ L' _ _ => pure fun L'' _ v hv => ?_
    cases hv
  | false =>
    have hne : signature.returnType ≠ .void := by
      intro heq
      simp [Signature.type, heq, MachineType.returnsVoid] at hvoid
    simp only [Build.call, hvoid, Bool.false_eq_true, if_false, build_bind, build_pure]
    have hresult := computing (c := c) (fun _ => .call hcallee hargs) (fun _ => rfl) fun _ => rfl
    refine hresult.bind fun v L' _ hv => pure fun L'' hL v' hv' => ?_
    obtain rfl := Option.some.inj hv'
    exact ⟨hne, hv.mono hL⟩

end

/-! ## Leaving blocks -/

theorem decides {value : Value} (h : c.Operand L value .bool) : c.invariant.Decides value L :=
  fun _ _ => Admits.branch h.hasType

theorem jumpTo (target label : Nat) (hint : String) :
    c.Obeys L (jumpTo target label hint) fun _ _ => True :=
  Invariant.Keeps.jumpTo (I := c.invariant) target label hint

theorem proceedTo (target label : Nat) (hint : String) :
    c.Obeys L (proceedTo target label hint) fun _ _ => True :=
  Invariant.Keeps.proceedTo (I := c.invariant) target label hint

/-! ## Names -/

theorem readBinding? (name : String) :
    c.Obeys L (Lower.readBinding? c.env name) fun result L' => ∀ b, result = some b →
      c.Binds L' b :=
  Invariant.Keeps.readBinding? (I := c.invariant) name

theorem peekBinding? (name : String) :
    c.Obeys L (Lower.peekBinding? c.env name) fun result L' => ∀ b, result = some b →
      c.Binds L' b :=
  Invariant.Keeps.peekBinding? (I := c.invariant) name

end Obeys

end Setting

end SsaLowering
