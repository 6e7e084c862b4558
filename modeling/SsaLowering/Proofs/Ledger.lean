import SsaLowering.Proofs.Structs
import SsaLowering.Proofs.Typing
import Mathlib.Data.Set.Insert

/-!
# Ledgers

A ledger holds what is written down about a function under construction: its parameters, its
instructions, and the global variables of its unit. The lowering only adds entries, so what a
ledger says of a value, its type and the storage behind it, stays true. A setting says which
instructions may be added.
-/

namespace SsaLowering

/-- An entry of a ledger. -/
inductive LedgerEntry where
  | param (id : Nat) (type : MachineType)
  | instr (i : Instr)
  | global (g : GlobalVariable)

/-- What is written down about a function under construction. -/
abbrev Ledger := Set LedgerEntry

namespace Ledger

variable {L L' : Ledger} {v : Value} {type : MachineType} {storage : Storage}

/-- A temporary of the given type is a parameter or the result of an instruction. -/
def Defines (L : Ledger) (t : Nat) (type : MachineType) : Prop :=
  .param t type ∈ L ∨ ∃ i, .instr i ∈ L ∧ i.result? = some t ∧ i.resultType? = some type

/-- A value has a type. -/
abbrev HasType (L : Ledger) (v : Value) (type : MachineType) : Prop := v.HasType L.Defines type

/-- A value is a temporary of a type. -/
structure Computes (L : Ledger) (v : Value) (type : MachineType) : Prop where
  temp : ∃ n, v = .temp n
  hasType : L.HasType v type

/-- A pointer leads to storage for a value of a type. Pointers that were passed to the function
or read from memory lead anywhere. -/
inductive PointsTo (L : Ledger) : Value → MachineType → Prop
  | slot {t : Nat} {type : MachineType} : .instr (.alloca t type) ∈ L → PointsTo L (.temp t) type
  | field {t : Nat} {name : String} {fields : List MachineType} {ptr : Value} {index : Nat}
      {type : MachineType} :
    .instr (.address t (.struct name fields) ptr [.int 0, .int (Int64.ofNat index)]) ∈ L →
    fields[index]? = some type → PointsTo L (.temp t) type
  | global {g : GlobalVariable} : .global g ∈ L → PointsTo L (.global g.name) g.type
  | param {t : Nat} {type : MachineType} : .param t .ptr ∈ L → PointsTo L (.temp t) type
  | loaded {t : Nat} {ptr : Value} {type : MachineType} :
    .instr (.load t ptr .ptr) ∈ L → PointsTo L (.temp t) type
  | extracted {t : Nat} {aggregate : Value} {base : MachineType} {index : Nat}
      {type : MachineType} :
    .instr (.extract t aggregate base index .ptr) ∈ L → PointsTo L (.temp t) type

/-- A place holds a value of a type: a stack slot, a global variable, or a parameter. -/
inductive Houses (L : Ledger) : Storage → MachineType → Prop
  | stack {t : Nat} {type : MachineType} :
    .instr (.alloca t type) ∈ L → Houses L (.stack (.temp t)) type
  | global {g : GlobalVariable} : .global g ∈ L → Houses L (.global g.name) g.type
  | direct {t : Nat} {type : MachineType} : .param t type ∈ L → Houses L (.direct (.temp t)) type

theorem Defines.mono {t : Nat} (h : L.Defines t type) (hL : L ⊆ L') : L'.Defines t type := by
  rcases h with h | ⟨i, hi, hresult, htype⟩
  · exact .inl (hL h)
  · exact .inr ⟨i, hL hi, hresult, htype⟩

theorem HasType.mono (h : L.HasType v type) (hL : L ⊆ L') : L'.HasType v type :=
  h.imp fun _ _ ht => ht.mono hL

theorem Computes.mono (h : L.Computes v type) (hL : L ⊆ L') : L'.Computes v type :=
  ⟨h.temp, h.hasType.mono hL⟩

theorem PointsTo.mono (h : L.PointsTo v type) (hL : L ⊆ L') : L'.PointsTo v type := by
  cases h with
  | slot h => exact .slot (hL h)
  | field h hfield => exact .field (hL h) hfield
  | global h => exact .global (hL h)
  | param h => exact .param (hL h)
  | loaded h => exact .loaded (hL h)
  | extracted h => exact .extracted (hL h)

theorem Houses.mono (h : L.Houses storage type) (hL : L ⊆ L') : L'.Houses storage type := by
  cases h with
  | stack h => exact .stack (hL h)
  | global h => exact .global (hL h)
  | direct h => exact .direct (hL h)

/-- The result of an instruction that was added has the type of the instruction. -/
theorem computes_result {i : Instr} {t : Nat} (hi : .instr i ∈ L) (hresult : i.result? = some t)
    (htype : i.resultType? = some type) : L.Computes (.temp t) type :=
  ⟨⟨t, rfl⟩, .temp (.inr ⟨i, hi, hresult, htype⟩) (.refl type)⟩

/-- The memory of a name is reached through a pointer to it. -/
theorem Houses.address (h : L.Houses storage type) {address : Value}
    (ha : storage.address? = some address) :
    L.HasType address .ptr ∧ L.PointsTo address type := by
  cases h with
  | stack h =>
    obtain rfl := Option.some.inj ha
    exact ⟨(computes_result h rfl rfl).hasType, .slot h⟩
  | global h =>
    obtain rfl := Option.some.inj ha
    exact ⟨.global _, .global h⟩
  | direct h => cases ha

end Ledger

/-- The types of the signature are those for which its source types stand. -/
structure Signature.Resolves (table : StructTable) (s : Signature) : Prop where
  params : s.paramTypes = s.params.map table.resolve
  result : s.returnType = table.resolveReturn s.source

/-- No type of the signature is an unsigned integer. -/
def Signature.IsSigned (s : Signature) : Prop :=
  ∀ type ∈ s.returnType :: s.paramTypes, type.isUnsigned = false

/-- What a body is lowered for. If the setting is exact, there are no unsigned integers, and
every integer constant has to fit its type. -/
structure Setting where
  env : Environment
  returnType : MachineType
  exact : Prop
  structs : env.structs.Consistent
  fields : exact → ∀ layout ∈ env.structs.layouts, ∀ field ∈ layout.fields,
    field.type.isUnsigned = false
  signatures : ∀ entry ∈ env.functions, entry.2.Resolves env.structs ∧ (exact → entry.2.IsSigned)
  result : exact → returnType.isUnsigned = false

namespace Setting

variable {c : Setting} {L L' : Ledger} {v : Value} {type : MachineType} {t : SourceType}
  {layout : StructLayout} {field : FieldLayout}

/-- A variable can have the type. -/
structure Allows (c : Setting) (type : MachineType) : Prop where
  ne_void : type ≠ .void
  signed : c.exact → type.isUnsigned = false

/-- A source type describes a machine type: a pointer always, any other type if the structs of
the setting are settled. -/
structure Matches (c : Setting) (type : MachineType) (source : SourceType) : Prop where
  pointer : source.isPointer = true → type = .ptr
  settled : c.env.structs.Settled → type = c.env.structs.resolve source

/-- A value can be read at a type. -/
structure Operand (c : Setting) (L : Ledger) (v : Value) (type : MachineType) : Prop where
  hasType : L.HasType v type
  fits : c.exact → v.Fits type

/-- A value is what its types say. -/
structure Gives (c : Setting) (L : Ledger) (v : TypedValue) : Prop where
  operand : c.Operand L v.value v.type
  allows : c.Allows v.type
  matched : c.Matches v.type v.inferredType

/-- An expression has a value, or it is a call without one. -/
def Yields (c : Setting) (L : Ledger) (v : TypedValue) : Prop := v = .void ∨ c.Gives L v

/-- A name is bound to storage for values of its type. -/
structure Binds (c : Setting) (L : Ledger) (b : Binding) : Prop where
  houses : L.Houses b.storage b.type
  allows : c.Allows b.type
  matched : c.Matches b.type b.source

/-- A declared struct is where it is said to be, if the structs of the setting are settled. -/
inductive Locates (c : Setting) (L : Ledger) : StructPlace → Prop
  | memory {ptr : Value} {layout : StructLayout} {writable : Bool} :
    layout ∈ c.env.structs.layouts → L.HasType ptr .ptr →
    (c.env.structs.Settled → L.PointsTo ptr layout.type) →
    Locates c L (.memory ptr layout writable)
  | aggregate {value : Value} {layout : StructLayout} {own : MachineType} :
    layout ∈ c.env.structs.layouts → L.HasType value own →
    (c.env.structs.Settled → L.HasType value layout.type) →
    Locates c L (.aggregate value layout)

/-- The field may be touched where the body is lowered. -/
def Opens (c : Setting) (layout : StructLayout) (field : FieldLayout) : Prop :=
  field ∈ layout.fields ∧ (field.isPublic = true ∨ c.env.owner = some layout.name)

/-- The instructions that may be added to a ledger. -/
inductive Admits (c : Setting) (L : Ledger) : Instr → Prop
  | binary {result : Nat} {op : Opcode} {lhs rhs : Value} {type : MachineType} :
    c.Operand L lhs type → c.Operand L rhs type → Admits c L (.binary result op lhs rhs type)
  | load {result : Nat} {ptr : Value} {type : MachineType} :
    L.HasType ptr .ptr → Admits c L (.load result ptr type)
  | store {value ptr : Value} {type : MachineType} :
    c.Operand L value type → L.HasType ptr .ptr → Admits c L (.store value ptr type)
  | address {result : Nat} {ptr : Value} {layout : StructLayout} {field : FieldLayout}
      {writable : Bool} :
    c.Locates L (.memory ptr layout writable) → c.Opens layout field →
    Admits c L (.address result layout.type ptr [.int 0, .int (Int64.ofNat field.index)])
  | extract {result : Nat} {value : Value} {layout : StructLayout} {field : FieldLayout} :
    c.Locates L (.aggregate value layout) → c.Opens layout field →
    Admits c L (.extract result value layout.type field.index field.type)
  | alloca {result : Nat} {type : MachineType} :
    c.Allows type → Admits c L (.alloca result type)
  | call {result : Option Nat} {callee : String} {signature : Signature}
      {args : List (MachineType × Value)} :
    (callee, signature) ∈ c.env.functions → (∀ arg ∈ args, c.Operand L arg.2 arg.1) →
    Admits c L (.call result (.function callee) signature.type args)
  | leave : Admits c L (.ret none)
  | ret {value : Value} :
    c.Operand L value c.returnType → Admits c L (.ret (some (c.returnType, value)))
  | jump {target : Nat} : Admits c L (.jump target)
  | branch {condition : Value} {ifTrue ifFalse : Nat} :
    L.HasType condition .bool → Admits c L (.branch condition ifTrue ifFalse)
  | phi {result : Nat} {incoming : List (Value × Nat)} {type : MachineType} :
    (∀ source ∈ incoming, c.Operand L source.1 type) → Admits c L (.phi result incoming type)
  | convert {result : Nat} {op : Conversion} {value : Value} {source target : MachineType} :
    c.Operand L value source → op.Widens source target →
    Admits c L (.convert result op value source target)
  | unreachable : Admits c L .unreachable

/-! ## Growing ledgers -/

theorem Operand.mono (h : c.Operand L v type) (hL : L ⊆ L') : c.Operand L' v type :=
  ⟨h.hasType.mono hL, h.fits⟩

theorem Gives.mono {v : TypedValue} (h : c.Gives L v) (hL : L ⊆ L') : c.Gives L' v :=
  ⟨h.operand.mono hL, h.allows, h.matched⟩

theorem Yields.mono {v : TypedValue} (h : c.Yields L v) (hL : L ⊆ L') : c.Yields L' v :=
  h.imp_right fun h => h.mono hL

theorem Binds.mono {b : Binding} (h : c.Binds L b) (hL : L ⊆ L') : c.Binds L' b :=
  ⟨h.houses.mono hL, h.allows, h.matched⟩

theorem Locates.mono {place : StructPlace} (h : c.Locates L place) (hL : L ⊆ L') :
    c.Locates L' place := by
  cases h with
  | memory hlayout hptr hpoints =>
    exact .memory hlayout (hptr.mono hL) fun hs => (hpoints hs).mono hL
  | aggregate hlayout hvalue htype =>
    exact .aggregate hlayout (hvalue.mono hL) fun hs => (htype hs).mono hL

theorem Admits.mono {i : Instr} (h : c.Admits L i) (hL : L ⊆ L') : c.Admits L' i := by
  cases h with
  | binary hlhs hrhs => exact .binary (hlhs.mono hL) (hrhs.mono hL)
  | load hptr => exact .load (hptr.mono hL)
  | store hvalue hptr => exact .store (hvalue.mono hL) (hptr.mono hL)
  | address hplace hfield => exact .address (hplace.mono hL) hfield
  | extract hplace hfield => exact .extract (hplace.mono hL) hfield
  | alloca htype => exact .alloca htype
  | call hcallee hargs => exact .call hcallee fun arg harg => (hargs arg harg).mono hL
  | leave => exact .leave
  | ret hvalue => exact .ret (hvalue.mono hL)
  | jump => exact .jump
  | branch hcondition => exact .branch (hcondition.mono hL)
  | phi hincoming => exact .phi fun source hsource => (hincoming source hsource).mono hL
  | convert hvalue hwidens => exact .convert (hvalue.mono hL) hwidens
  | unreachable => exact .unreachable

/-! ## Values and fields -/

/-- A value that is no integer can be read wherever it has the type. -/
theorem operand_of_hasType (h : L.HasType v type) (htype : type.isInteger = false) :
    c.Operand L v type := ⟨h, fun _ => h.fits htype⟩

/-- A temporary can be read at its type. -/
theorem operand_of_computes (h : L.Computes v type) : c.Operand L v type := by
  obtain ⟨⟨n, rfl⟩, htype⟩ := h
  exact ⟨htype, fun _ m hm => by cases hm⟩

theorem yields_void : c.Yields L .void := .inl rfl

/-- A value that can be kept is not that of a call without one. -/
theorem Yields.gives {v : TypedValue} (h : c.Yields L v) (hv : v.type ≠ .void) : c.Gives L v := by
  rcases h with rfl | h
  · exact absurd rfl hv
  · exact h

theorem matches_resolve (c : Setting) (t : SourceType) :
    c.Matches (c.env.structs.resolve t) t :=
  ⟨StructTable.resolve_of_pointer, fun _ => rfl⟩

theorem allows_resolve (ht : c.exact → t.isUnsigned = false) :
    c.Allows (c.env.structs.resolve t) :=
  ⟨(c.structs.exists_extent t).1, fun he => (c.structs.isUnsigned_resolve t).trans (ht he)⟩

/-- A number or a truth value is described by the source type taken from it. -/
theorem matches_toSource
    (h : type.isInteger = true ∨ type.isFloat = true ∨ type = .bool) :
    c.Matches type type.toSource := by
  obtain ⟨hpointer, hresolve⟩ := StructTable.resolve_toSource c.env.structs h
  refine ⟨fun hp => ?_, fun _ => hresolve.symm⟩
  rw [hpointer] at hp
  cases hp

theorem allows_field (hlayout : layout ∈ c.env.structs.layouts) (hfield : field ∈ layout.fields) :
    c.Allows field.type :=
  ⟨(c.structs layout hlayout).ne_void field hfield,
    fun he => c.fields he layout hlayout field hfield⟩

theorem matches_field (hlayout : layout ∈ c.env.structs.layouts)
    (hfield : field ∈ layout.fields) : c.Matches field.type field.source :=
  ⟨(c.structs layout hlayout).pointer field hfield,
    fun hs => hs.fields layout hlayout field hfield⟩

/-- The address of a field leads to storage for the field. -/
theorem pointsTo_field (hlayout : layout ∈ c.env.structs.layouts)
    (hfield : field ∈ layout.fields) {n : Nat} {ptr : Value}
    (h : .instr (.address n layout.type ptr [.int 0, .int (Int64.ofNat field.index)]) ∈ L) :
    L.PointsTo (.temp n) field.type := by
  have hconsistent := c.structs layout hlayout
  rw [hconsistent.type_eq] at h
  exact .field h (hconsistent.getElem? hfield)

variable {i : Instr}

/-- What an admitted instruction reads can be read at the type at which it is read. -/
theorem Admits.operand (h : c.Admits L i) : ∀ use ∈ i.uses, c.Operand L use.1 use.2 := by
  cases h with
  | binary hlhs hrhs => simpa [Instr.uses] using ⟨hlhs, hrhs⟩
  | load hptr => simpa [Instr.uses] using operand_of_hasType hptr rfl
  | store hvalue hptr => simpa [Instr.uses] using ⟨hvalue, operand_of_hasType hptr rfl⟩
  | address hplace hfield =>
    cases hplace with
    | memory hlayout hptr hpoints => simpa [Instr.uses] using operand_of_hasType hptr rfl
  | call hcallee hargs =>
    intro use huse
    obtain ⟨arg, harg, rfl⟩ := List.mem_map.mp huse
    exact hargs arg harg
  | ret hvalue => simpa [Instr.uses] using hvalue
  | branch hcondition => simpa [Instr.uses] using operand_of_hasType hcondition rfl
  | phi hincoming =>
    intro use huse
    obtain ⟨source, hsource, rfl⟩ := List.mem_map.mp huse
    exact hincoming source hsource
  | convert hvalue hwidens => simpa [Instr.uses] using hvalue
  | _ => simp [Instr.uses]

/-- The result of a call without one is never an operand. -/
theorem Admits.undef_notMem (h : c.Admits L i) : .undef ∉ i.operands := by
  intro hmem
  cases h with
  | binary hlhs hrhs =>
    simp [Instr.operands, hlhs.hasType.ne_undef.symm, hrhs.hasType.ne_undef.symm] at hmem
  | load hptr => simp [Instr.operands, hptr.ne_undef.symm] at hmem
  | store hvalue hptr =>
    simp [Instr.operands, hvalue.hasType.ne_undef.symm, hptr.ne_undef.symm] at hmem
  | address hplace hfield =>
    cases hplace with
    | memory hlayout hptr hpoints => simp [Instr.operands, hptr.ne_undef.symm] at hmem
  | extract hplace hfield =>
    cases hplace with
    | aggregate hlayout hvalue htype => simp [Instr.operands, hvalue.ne_undef.symm] at hmem
  | call hcallee hargs =>
    simp only [Instr.operands, List.mem_cons, reduceCtorEq, false_or] at hmem
    obtain ⟨arg, harg, hundef⟩ := List.mem_map.mp hmem
    exact (hargs arg harg).hasType.ne_undef hundef
  | ret hvalue => simp [Instr.operands, hvalue.hasType.ne_undef.symm] at hmem
  | branch hcondition => simp [Instr.operands, hcondition.ne_undef.symm] at hmem
  | phi hincoming =>
    obtain ⟨source, hsource, hundef⟩ := List.mem_map.mp hmem
    exact (hincoming source hsource).hasType.ne_undef hundef
  | convert hvalue hwidens => simp [Instr.operands, hvalue.hasType.ne_undef.symm] at hmem
  | _ => simp [Instr.operands] at hmem

theorem Admits.wellTyped (h : c.Admits L i) : i.WellTyped L.Defines c.returnType where
  uses := fun use huse => (h.operand use huse).hasType
  defined := h.undef_notMem
  widens := by
    rintro result op value source target rfl
    cases h with
    | convert hvalue hwidens => exact hwidens
  returns := by
    rintro type value rfl
    cases h with
    | ret hvalue => rfl

end Setting

end SsaLowering
