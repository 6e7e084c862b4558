import SsaLowering.Proofs.Invariant
import SsaLowering.Proofs.NamedTypes
import SsaLowering.Proofs.StringPool

/-!
# What code refers to

Code refers to functions, to global variables and to struct types by name. A realm holds what
the lowering of a body can refer to: structs, and functions with signatures that stand for types
of these structs. What an instruction of the realm calls agrees with its signature; the one
exception is the call that an allocation makes, which does not look at the signature.
-/

namespace SsaLowering

/-- A function with this type can be called with arguments of the given types. -/
def MachineType.Accepts : MachineType → List MachineType → Prop
  | .function _ params isVararg, args =>
    params <+: args ∧ (isVararg = false → args.length = params.length)
  | _, _ => False

namespace Instr

/-- The types that are written in an instruction. -/
def types : Instr → List MachineType
  | .binary _ _ _ _ type | .load _ _ type | .store _ _ type | .alloca _ type | .phi _ _ type =>
    [type]
  | .address _ base _ _ => [base]
  | .extract _ _ type _ fieldType => [type, fieldType]
  | .call _ _ type args => type :: args.map Prod.fst
  | .ret (some (type, _)) => [type]
  | .convert _ _ _ source target => [source, target]
  | .ret none | .jump _ | .branch .. | .unreachable => []

end Instr

namespace Ledger

variable {L L' : Ledger} {v : Value}

/-- If the value is the address of a global variable, then there is one with this name. -/
def Declares (L : Ledger) : Value → Prop
  | .global name => ∃ g, .global g ∈ L ∧ g.name = name
  | _ => True

/-- A constant is no address. -/
theorem declares_of_isConstant (h : v.isConstant = true) : L.Declares v := by
  cases v with
  | global name => cases h
  | _ => trivial

@[simp] theorem declares_int (n : Int64) : L.Declares (.int n) := trivial

theorem Declares.mono (h : L.Declares v) (hL : L ⊆ L') : L'.Declares v := by
  cases v with
  | global name =>
    obtain ⟨g, hg, hname⟩ := h
    exact ⟨g, hL hg, hname⟩
  | _ => trivial

end Ledger

/-- What the lowering of a body can refer to. -/
structure Realm where
  env : Environment
  structs : env.structs.Consistent
  closed : env.structs.Sealed
  signatures : ∀ name sig, env.functions.lookup name = some sig → sig.Resolves env.structs
  /-- The global variables of the unit before the body is lowered. -/
  globals : List GlobalVariable
  numbered : StringPool.Numbered globals

namespace Realm

variable {r : Realm} {L L' : Ledger} {s s' : BodyState}

/-- All structs in the type are those of the realm. -/
def Names (r : Realm) (type : MachineType) : Prop := type.Named r.env.structs.type?

/-- Calls of functions of the realm. An allocation hands over a number of bytes, whatever the
signature of the allocator says. -/
inductive Calls (r : Realm) : Value → MachineType → List (MachineType × Value) → Prop
  | checked {name : String} {sig : Signature} {args : List (MachineType × Value)} :
    r.env.functions.lookup name = some sig → sig.type.Accepts (args.map Prod.fst) →
    Calls r (.function name) sig.type args
  | allocation {sig : Signature} (bytes : Int64) :
    r.env.functions.lookup Lower.allocator = some sig →
    Calls r (.function Lower.allocator) sig.type [(.i64, .int bytes)]

/-- All that the instruction refers to is declared. -/
structure Admits (r : Realm) (L : Ledger) (i : Instr) : Prop where
  operands : ∀ v ∈ i.operands, L.Declares v
  types : ∀ type ∈ i.types, r.Names type
  calls : ∀ result callee type args, i = .call result callee type args →
    r.Calls callee type args

/-- All that a value refers to is declared. -/
structure Gives (r : Realm) (L : Ledger) (v : TypedValue) : Prop where
  declares : L.Declares v.value
  names : r.Names v.type

/-- The place to which a name is bound is declared, and so is its type. -/
structure Binds (r : Realm) (L : Ledger) (b : Binding) : Prop where
  address : ∀ a, b.storage.address? = some a → L.Declares a
  direct : ∀ v, b.storage = .direct v → L.Declares v
  names : r.Names b.type

/-- The place of a struct of the realm is declared. -/
inductive Locates (r : Realm) (L : Ledger) : StructPlace → Prop
  | memory {ptr : Value} {layout : StructLayout} {writable : Bool} :
    layout ∈ r.env.structs.layouts → L.Declares ptr → Locates r L (.memory ptr layout writable)
  | aggregate {value : Value} {layout : StructLayout} :
    layout ∈ r.env.structs.layouts → L.Declares value → Locates r L (.aggregate value layout)

/-- All code and all names refer to what is declared, and only string literals were added to the
global variables. -/
structure Holds (r : Realm) (s : BodyState) : Prop where
  code : ∀ i, .instr i ∈ s.ledger → r.Admits s.ledger i
  locals : ∀ entry ∈ s.scope.entries, r.Binds s.ledger entry.2
  globals : ∀ entry ∈ r.env.globals, r.Binds s.ledger entry.2
  pool : StringPool.Interned r.globals s.globals

/-- Whatever is called has its signature. -/
theorem Calls.exists_signature {callee : Value} {type : MachineType}
    {args : List (MachineType × Value)} (h : r.Calls callee type args) :
    ∃ name sig, callee = .function name ∧ r.env.functions.lookup name = some sig ∧
      sig.type = type := by
  cases h with
  | checked hsig => exact ⟨_, _, rfl, hsig, rfl⟩
  | allocation bytes hsig => exact ⟨_, _, rfl, hsig, rfl⟩

/-! ## Growing ledgers -/

theorem Admits.mono {i : Instr} (h : r.Admits L i) (hL : L ⊆ L') : r.Admits L' i :=
  ⟨fun v hv => (h.operands v hv).mono hL, h.types, h.calls⟩

theorem Gives.mono {v : TypedValue} (h : r.Gives L v) (hL : L ⊆ L') : r.Gives L' v :=
  ⟨h.declares.mono hL, h.names⟩

theorem Binds.mono {b : Binding} (h : r.Binds L b) (hL : L ⊆ L') : r.Binds L' b :=
  ⟨fun a ha => (h.address a ha).mono hL, fun v hv => (h.direct v hv).mono hL, h.names⟩

theorem Locates.mono {place : StructPlace} (h : r.Locates L place) (hL : L ⊆ L') :
    r.Locates L' place := by
  cases h with
  | memory hlayout hptr => exact .memory hlayout (hptr.mono hL)
  | aggregate hlayout hvalue => exact .aggregate hlayout (hvalue.mono hL)

/-- More entries and more bindings make no difference to what is there already. -/
theorem Holds.of_grown (h : r.Holds s) (hsub : s.ledger ⊆ s'.ledger)
    (hcode : ∀ i, .instr i ∈ s'.ledger → .instr i ∈ s.ledger ∨ r.Admits s'.ledger i)
    (hlocals : ∀ entry ∈ s'.scope.entries, entry ∈ s.scope.entries ∨ r.Binds s'.ledger entry.2)
    (hpool : StringPool.Interned r.globals s'.globals) : r.Holds s' where
  code := fun i hi => (hcode i hi).elim (fun hi => (h.code i hi).mono hsub) id
  locals := fun entry he => (hlocals entry he).elim (fun he => (h.locals entry he).mono hsub) id
  globals := fun entry he => (h.globals entry he).mono hsub
  pool := hpool

/-- That all code refers to what is declared is an invariant. -/
def invariant (r : Realm) : Invariant where
  env := r.env
  Holds := r.Holds
  Admits := r.Admits
  Binds := r.Binds
  admits_mono := Admits.mono
  admits_jump := ⟨by simp [Instr.operands], by simp [Instr.types], by simp⟩
  binds_used := fun h => ⟨h.address, h.direct, h.names⟩
  locals := Holds.locals
  globals := Holds.globals
  rebind := by
    intro s s' hs hledger hglobals hlocals
    refine hs.of_grown hledger.ge (fun i hi => .inl (hledger ▸ hi)) (fun entry he => .inr ?_)
      (hglobals ▸ hs.pool)
    exact hledger ▸ hlocals entry he
  insert := by
    intro s b i hs hb hi
    have hledger := BodyState.ledger_insert hb
    have hsub : s.ledger ⊆ { s with builder := b }.ledger := by
      rw [hledger]
      exact Set.subset_insert _ _
    refine hs.of_grown hsub (fun j hj => ?_) (fun entry he => .inl he) hs.pool
    rw [hledger] at hj
    rcases hj with hj | hj
    · cases hj
      exact .inr (hi.mono hsub)
    · exact .inl hj

/-! ## What can be referred to -/

theorem names_resolve (r : Realm) (t : SourceType) : r.Names (r.env.structs.resolve t) :=
  r.closed.named_resolve t

theorem names_layout {layout : StructLayout} (h : layout ∈ r.env.structs.layouts) :
    r.Names layout.type := r.closed.named layout h

theorem names_field {layout : StructLayout} {field : FieldLayout}
    (h : layout ∈ r.env.structs.layouts) (hfield : field ∈ layout.fields) :
    r.Names field.type := r.closed.named_field r.structs h hfield

variable {name : String} {sig : Signature}

theorem names_param (h : r.env.functions.lookup name = some sig) :
    ∀ type ∈ sig.paramTypes, r.Names type := by
  intro type htype
  rw [(r.signatures name sig h).params] at htype
  obtain ⟨source, -, rfl⟩ := List.mem_map.mp htype
  exact r.names_resolve source

theorem names_result (h : r.env.functions.lookup name = some sig) : r.Names sig.returnType := by
  rw [(r.signatures name sig h).result]
  exact r.closed.named_resolveReturn sig.source

theorem names_signature (h : r.env.functions.lookup name = some sig) : r.Names sig.type :=
  MachineType.named_function.mpr ⟨names_result h, names_param h⟩

/-- An instruction that is no call. -/
theorem admits_of_ne_call {i : Instr} (hoperands : ∀ v ∈ i.operands, L.Declares v)
    (htypes : ∀ type ∈ i.types, r.Names type)
    (hcall : ∀ result callee type args, i ≠ .call result callee type args) : r.Admits L i :=
  ⟨hoperands, htypes, fun result callee type args h => absurd h (hcall result callee type args)⟩

/-- A call of a function of the realm. -/
theorem admits_call {result : Option Nat} {args : List (MachineType × Value)}
    (h : r.env.functions.lookup name = some sig) (hargs : ∀ arg ∈ args, L.Declares arg.2)
    (htypes : ∀ arg ∈ args, r.Names arg.1) (hcalls : r.Calls (.function name) sig.type args) :
    r.Admits L (.call result (.function name) sig.type args) where
  operands := by
    intro v hv
    rcases List.mem_cons.mp hv with rfl | hv
    · trivial
    · obtain ⟨arg, harg, rfl⟩ := List.mem_map.mp hv
      exact hargs arg harg
  types := by
    intro type htype
    rcases List.mem_cons.mp htype with rfl | htype
    · exact names_signature h
    · obtain ⟨arg, harg, rfl⟩ := List.mem_map.mp htype
      exact htypes arg harg
  calls := by
    rintro _ _ _ _ ⟨⟩
    exact hcalls

end Realm

end SsaLowering
