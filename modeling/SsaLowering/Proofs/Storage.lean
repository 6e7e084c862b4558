import SsaLowering.Proofs.Courses
import SsaLowering.Proofs.GlobalDeclarations
import SsaLowering.Proofs.Places

/-!
# Who writes where

Every store of a body goes back to a place where a name or a pointer leads: to a slot of a variable
that it declares, to a global variable, or to what a pointer was found to point to. All three ways
to store ask whether the place may be written. A slot is bound to one name, when it is new.
-/

namespace SsaLowering

open Lower BodyState

/-- The declaration of a variable gets a slot, and what is stored there first, if anything is. -/
def Visit.Allots (env : Environment) (v : Visit) (decl : VariableDecl Term) (slot : Nat)
    (type : MachineType) (initial : Option Value) : Prop :=
  (∃ location, v.node = .statement (.variable location decl)) ∧ ∃ source s s',
    exec (variableValue env decl) v.state = (.ok (source, type, initial), s) ∧
    exec (build (Build.entryAlloca type)) s = (.ok (.temp slot), s')

/-- The store of the first value of a variable, if it has one. -/
def initialStores (slot : Nat) (type : MachineType) (initial : Option Value) : List Instr :=
  (initial.map fun value => .store value (.temp slot) type).toList

/-- A body with its parameters and the global variables that it can refer to. -/
structure Frame where
  env : Environment
  context : FunctionContext
  start : Visit
  params : List Parameter
  globals : List (VariableDecl Term)
  named : ∀ entry ∈ env.globals, ∃ decl ∈ globals,
    UnitState.declaredKey decl = UnitState.globalKey entry

namespace Frame

variable (F : Frame)

/-- The slot belongs to a variable that the body declares. -/
def Declares (decl : VariableDecl Term) (slot : Nat) (type : MachineType)
    (initial : Option Value) : Prop :=
  ∃ w : Visit, F.start.Contains F.env F.context w ∧ w.Allots F.env decl slot type initial

/-- A root that a store may go back to: the slot of a mutable variable, or of any variable for its
first value, a mutable global variable, a pointer that is a parameter, and any pointer that is
computed. -/
inductive MayWrite (code : List Instr) (i : Instr) : Value → Prop
  | slot {decl : VariableDecl Term} {slot : Nat} {type : MachineType} {initial : Option Value} :
    F.Declares decl slot type initial → .alloca slot type ∈ code →
    decl.isMutable = true ∨ i ∈ initialStores slot type initial → MayWrite code i (.temp slot)
  | global {decl : VariableDecl Term} : decl ∈ F.globals → decl.isMutable = true →
    MayWrite code i (.global decl.name)
  | parameter {index : Nat} {param : Parameter} : F.params[index]? = some param →
    param.type.isPointer = true → MayWrite code i (.temp index)
  | loaded {t : Nat} {source : Value} {type : MachineType} : .load t source type ∈ code →
    MayWrite code i (.temp t)
  | extracted {t index : Nat} {value : Value} {type fieldType : MachineType} :
    .extract t value type index fieldType ∈ code → MayWrite code i (.temp t)

/-- A local name has the slot of a variable that the body declares, or is a parameter. -/
inductive Houses (code : List Instr) (b : Binding) : Prop
  | slot {decl : VariableDecl Term} {slot : Nat} {type : MachineType} {initial : Option Value} :
    F.Declares decl slot type initial → .alloca slot type ∈ code →
    b.storage = .stack (.temp slot) → b.isMutable = decl.isMutable → Houses code b
  | parameter {index : Nat} {param : Parameter} : F.params[index]? = some param →
    b.storage = .direct (.temp index) → b.source = param.type → Houses code b

/-- In all states of a body, temporaries are defined once and places are known, and so is who
writes where. -/
structure Orderly (s : BodyState) : Prop where
  params_le : F.params.length ≤ s.builder.nextTemp
  results : ∀ i ∈ s.instrs, ∀ t, i.result? = some t →
    F.params.length ≤ t ∧ t < s.builder.nextTemp
  once : DefinesOnce s.instrs
  places : ∀ i ∈ s.instrs, ∀ ptr, i.place? = some ptr → ptr.Below s.builder.nextTemp
  locals : ∀ entry ∈ s.scope.entries, F.Houses s.instrs entry.2
  slots : ∀ t type, .alloca t type ∈ s.instrs → ∃ decl initial, F.Declares decl t type initial
  stores : ∀ i ∈ s.instrs, ∀ ptr, i.target? = some ptr → ∃ root, GoesBack s.instrs ptr root ∧
    IsRoot s.instrs root ∧ F.MayWrite s.instrs i root

variable {F} {s s' : BodyState} {i : Instr} {ptr root : Value} {writable : Bool}

theorem MayWrite.mono {code code' : List Instr} (h : F.MayWrite code i root)
    (hcode : code ⊆ code') : F.MayWrite code' i root := by
  cases h with
  | slot hdeclares hslot hwrite => exact .slot hdeclares (hcode hslot) hwrite
  | global hdecl hmutable => exact .global hdecl hmutable
  | parameter hparam hpointer => exact .parameter hparam hpointer
  | loaded hi => exact .loaded (hcode hi)
  | extracted hi => exact .extracted (hcode hi)

theorem Houses.mono {code code' : List Instr} {b : Binding} (h : F.Houses code b)
    (hcode : code ⊆ code') : F.Houses code' b := by
  cases h with
  | slot hdeclares hi hstorage hmutable => exact .slot hdeclares (hcode hi) hstorage hmutable
  | parameter hparam hstorage hsource => exact .parameter hparam hstorage hsource

namespace Orderly

/-- What a name is bound to, if it is no parameter. -/
theorem address_cases (h : F.Orderly s) {b : Binding} (hb : s.Binds F.env b) {address : Value}
    (ha : b.storage.address? = some address) :
    (∃ decl slot type initial, F.Declares decl slot type initial ∧
      .alloca slot type ∈ s.instrs ∧ address = .temp slot ∧ b.isMutable = decl.isMutable) ∨
    ∃ decl ∈ F.globals, address = .global decl.name ∧ b.isMutable = decl.isMutable := by
  obtain ⟨name, hb | hb⟩ := hb
  · cases h.locals _ hb with
    | slot hdeclares hi hstorage hmutable =>
      rw [hstorage] at ha
      cases ha
      exact .inl ⟨_, _, _, _, hdeclares, hi, rfl, hmutable⟩
    | parameter hparam hstorage =>
      rw [hstorage] at ha
      cases ha
  · obtain ⟨decl, hdecl, hkey⟩ := F.named _ hb
    simp only [UnitState.declaredKey, UnitState.globalKey, Prod.mk.injEq] at hkey
    rw [← hkey.2.1] at ha
    cases ha
    exact .inr ⟨decl, hdecl, rfl, hkey.2.2.symm⟩

/-- What a name that is a parameter is bound to. -/
theorem direct_cases (h : F.Orderly s) {b : Binding} (hb : s.Binds F.env b) {value : Value}
    (hvalue : b.storage = .direct value) :
    ∃ index param, F.params[index]? = some param ∧ value = .temp index ∧
      b.source = param.type := by
  obtain ⟨name, hb | hb⟩ := hb
  · cases h.locals _ hb with
    | slot hdeclares hi hstorage hmutable =>
      rw [hstorage] at hvalue
      cases hvalue
    | @parameter index param hparam hstorage hsource =>
      rw [hstorage] at hvalue
      cases hvalue
      exact ⟨index, param, hparam, rfl, hsource⟩
  · obtain ⟨decl, hdecl, hkey⟩ := F.named _ hb
    simp only [UnitState.declaredKey, UnitState.globalKey, Prod.mk.injEq] at hkey
    rw [← hkey.2.1] at hvalue
    cases hvalue

/-- The way to a place begins at a root that is known. -/
theorem origin (h : F.Orderly s) (ho : s.Origin F.env writable root) :
    IsRoot s.instrs root ∧ root.Below s.builder.nextTemp ∧
      (writable = true → ∀ i, F.MayWrite s.instrs i root) := by
  have hresult {j : Instr} {t : Nat} (hj : j ∈ s.instrs) (ht : j.result? = some t)
      (hkind : ∀ t base outer indices, j ≠ .address t base outer indices) :
      IsRoot s.instrs (.temp t) ∧ Value.Below s.builder.nextTemp (.temp t) := by
    refine ⟨h.once.isRoot hj ht hkind, ?_⟩
    rintro _ ⟨rfl⟩
    exact (h.results j hj t ht).2
  cases ho with
  | named hb ha =>
    obtain ⟨decl, slot, type, initial, hdeclares, hi, rfl, hmutable⟩ | ⟨decl, hdecl, rfl, hmutable⟩ :=
      h.address_cases hb ha
    · obtain ⟨hroot, hbelow⟩ := hresult hi rfl (by simp)
      exact ⟨hroot, hbelow, fun hw i => .slot hdeclares hi (.inl (hmutable.symm.trans hw))⟩
    · exact ⟨fun _ _ _ _ _ => by simp, fun _ => by simp,
        fun hw i => .global hdecl (hmutable.symm.trans hw)⟩
  | parameter hb hvalue hpointer =>
    obtain ⟨index, param, hparam, rfl, hsource⟩ := h.direct_cases hb hvalue
    have hlt : index < F.params.length := (List.getElem?_eq_some_iff.mp hparam).1
    refine ⟨?_, ?_, fun _ i => .parameter hparam (hsource ▸ hpointer)⟩
    · rintro t base outer indices hi heq
      obtain rfl : index = t := Value.temp.inj heq
      exact absurd (h.results _ hi index rfl).1 (Nat.not_le.mpr hlt)
    · rintro _ ⟨rfl⟩
      exact Nat.lt_of_lt_of_le hlt h.params_le
  | loaded hi =>
    obtain ⟨hroot, hbelow⟩ := hresult hi rfl (by simp)
    exact ⟨hroot, hbelow, fun _ i => .loaded hi⟩
  | extracted hi =>
    obtain ⟨hroot, hbelow⟩ := hresult hi rfl (by simp)
    exact ⟨hroot, hbelow, fun _ i => .extracted hi⟩

theorem below (h : F.Orderly s) (ha : s.Accesses F.env writable ptr) :
    ptr.Below s.builder.nextTemp := by
  obtain ⟨root, ho, hback⟩ := ha
  cases hback with
  | refl => exact (h.origin ho).2.1
  | part hi =>
    rintro _ ⟨rfl⟩
    exact (h.results _ hi _ rfl).2

/-- No name has a slot that is not there yet. -/
theorem storage_ne_next (h : F.Orderly s) {entry : String × Binding}
    (hentry : entry ∈ s.scope.entries) :
    entry.2.storage ≠ .stack (.temp s.builder.nextTemp) := by
  intro hstorage
  cases h.locals entry hentry with
  | slot _ hi hstorage' =>
    rw [hstorage] at hstorage'
    cases hstorage'
    exact absurd (h.results _ hi _ rfl).2 (Nat.lt_irrefl _)
  | parameter _ hstorage' =>
    rw [hstorage] at hstorage'
    cases hstorage'

/-! ## Changes of the state -/

/-- Nothing was added, and names keep to what there is. -/
theorem of_eq (h : F.Orderly s) (hinstrs : s'.instrs = s.instrs)
    (htemps : s.builder.nextTemp ≤ s'.builder.nextTemp)
    (hlocals : ∀ entry ∈ s'.scope.entries, F.Houses s.instrs entry.2) : F.Orderly s' where
  params_le := h.params_le.trans htemps
  results := by
    rw [hinstrs]
    exact fun i hi t ht => ⟨(h.results i hi t ht).1, (h.results i hi t ht).2.trans_le htemps⟩
  once := hinstrs ▸ h.once
  places := by
    rw [hinstrs]
    exact fun i hi ptr hptr t ht => (h.places i hi ptr hptr t ht).trans_le htemps
  locals := by
    rw [hinstrs]
    exact hlocals
  slots := hinstrs ▸ h.slots
  stores := hinstrs ▸ h.stores

/-- An instruction was added. Its place is known, and so is where it goes back to if it is a
store. -/
theorem add (h : F.Orderly s) {b : FunctionBuilder} (hadds : s.builder.Adds i b)
    (hplace : ∀ ptr, i.place? = some ptr → ptr.Below s.builder.nextTemp)
    (hslot : ∀ t type, i = .alloca t type → ∃ decl initial, F.Declares decl t type initial)
    (hstore : ∀ ptr, i.target? = some ptr → ∃ root, GoesBack s.instrs ptr root ∧
      IsRoot s.instrs root ∧ F.MayWrite b.instrs i root) : F.Orderly { s with builder := b } := by
  have hmem {j : Instr} : j ∈ b.instrs ↔ j = i ∨ j ∈ s.instrs :=
    hadds.instrs.mem_iff.trans List.mem_cons
  have hsub : s.instrs ⊆ b.instrs := fun j hj => hmem.mpr (.inr hj)
  have hfresh : ∀ t, i.result? = some t → s.builder.nextTemp ≤ t := fun t ht => (hadds.result t ht).1
  exact {
    params_le := h.params_le.trans hadds.temps
    results := by
      intro j hj t ht
      rcases hmem.mp hj with rfl | hj
      · exact ⟨h.params_le.trans (hfresh t ht), (hadds.result t ht).2⟩
      · obtain ⟨hle, hlt⟩ := h.results j hj t ht
        exact ⟨hle, hlt.trans_le hadds.temps⟩
    once := by
      -- The old results are smaller than the new one.
      intro j hj k hk t hjt hkt
      rcases hmem.mp hj with rfl | hj <;> rcases hmem.mp hk with rfl | hk
      · rfl
      · exact absurd (h.results k hk t hkt).2 (Nat.not_lt.mpr (hfresh t hjt))
      · exact absurd (h.results j hj t hjt).2 (Nat.not_lt.mpr (hfresh t hkt))
      · exact h.once j hj k hk t hjt hkt
    places := by
      intro j hj ptr hptr t ht
      rcases hmem.mp hj with rfl | hj
      · exact (hplace ptr hptr t ht).trans_le hadds.temps
      · exact (h.places j hj ptr hptr t ht).trans_le hadds.temps
    locals := fun entry hentry => (h.locals entry hentry).mono hsub
    slots := by
      intro t type hi
      rcases hmem.mp hi with heq | hi
      · exact hslot t type heq.symm
      · exact h.slots t type hi
    stores := by
      intro j hj ptr htarget
      have hold : ∃ root, GoesBack s.instrs ptr root ∧ IsRoot s.instrs root ∧
          F.MayWrite b.instrs j root ∧ ptr.Below s.builder.nextTemp := by
        rcases hmem.mp hj with rfl | hj
        · obtain ⟨root, hback, hroot, hwrite⟩ := hstore ptr htarget
          exact ⟨root, hback, hroot, hwrite, hplace ptr (Instr.place?_of_target? htarget)⟩
        · obtain ⟨root, hback, hroot, hwrite⟩ := h.stores j hj ptr htarget
          exact ⟨root, hback, hroot, hwrite.mono hsub,
            h.places j hj ptr (Instr.place?_of_target? htarget)⟩
      obtain ⟨root, hback, hroot, hwrite, hbelow⟩ := hold
      exact ⟨root, hback.mono hsub, hroot.of_added hadds.instrs.subset hfresh
        (hback.root_below h.places hbelow), hwrite⟩ }

theorem step (h : F.Orderly s) (hstep : s.Step F.env s') : F.Orderly s' := by
  cases hstep with
  | report => exact h.of_eq rfl (Nat.le_refl _) h.locals
  | use name =>
    refine h.of_eq rfl (Nat.le_refl _) fun entry hentry => ?_
    obtain ⟨old, hold, rfl⟩ := List.mem_map.mp hentry
    have hhouses := h.locals old hold
    dsimp only
    split
    · cases hhouses with
      | slot hdeclares hi hstorage hmutable => exact .slot hdeclares hi hstorage hmutable
      | parameter hparam hstorage hsource => exact .parameter hparam hstorage hsource
    · exact hhouses
  | turn hinstrs htemps => exact h.of_eq hinstrs htemps h.locals
  | @add b i hadds hallows =>
    refine h.add hadds (fun ptr hptr => ?_) (fun t type heq => ?_) fun ptr htarget => ?_
    · cases i with
      | store value ptr' type =>
        cases hptr
        exact h.below hallows
      | address t base ptr' indices =>
        cases hptr
        obtain ⟨writable, haccess⟩ := hallows
        exact h.below haccess
      | _ => cases hptr
    · rw [heq] at hallows
      exact hallows.elim
    · cases i with
      | store value ptr' type =>
        cases htarget
        obtain ⟨origin, ho, hback⟩ := hallows
        obtain ⟨horigin, -, hwrite⟩ := h.origin ho
        have hsub : s.instrs ⊆ b.instrs := fun j hj =>
          hadds.instrs.mem_iff.mpr (List.mem_cons_of_mem _ hj)
        exact ⟨origin, hback, horigin, (hwrite rfl _).mono hsub⟩
      | _ => cases htarget

end Orderly

namespace Orderly

variable {w : Visit} {location : Option Location} {decl : VariableDecl Term} {source : SourceType}
  {type : MachineType} {initial : Option Value} {b b' : FunctionBuilder}

/-- A new slot is a root. -/
theorem isRoot_slot (h : F.Orderly s) {t : Nat} (hslot : .alloca t type ∈ s.instrs) :
    IsRoot s.instrs (.temp t) := h.once.isRoot hslot rfl (by simp)

/-- A slot is added for a variable that the body declares. -/
theorem addSlot (h : F.Orderly s)
    (hdeclares : F.Declares decl s.builder.nextTemp type initial)
    (hadds : s.builder.Adds (.alloca s.builder.nextTemp type) b) :
    F.Orderly { s with builder := b } := by
  refine h.add hadds (fun ptr hptr => by cases hptr) ?_ fun ptr htarget => by cases htarget
  rintro t type' heq
  cases heq
  exact ⟨decl, initial, hdeclares⟩

/-- Its first value is stored there. -/
theorem addInitial (h : F.Orderly s) {slot : Nat} {value : Value}
    (hdeclares : F.Declares decl slot type (some value)) (hslot : .alloca slot type ∈ s.instrs)
    (hadds : s.builder.Adds (.store value (.temp slot) type) b) :
    F.Orderly { s with builder := b } := by
  refine h.add hadds ?_ (by simp) ?_
  · rintro _ ⟨rfl⟩ t ⟨rfl⟩
    exact (h.results _ hslot _ rfl).2
  · rintro _ ⟨rfl⟩
    exact ⟨_, .refl _, h.isRoot_slot hslot, .slot hdeclares
      (hadds.instrs.mem_iff.mpr (List.mem_cons_of_mem _ hslot)) (.inr (by simp [initialStores]))⟩

/-- Its name is bound to the slot. -/
theorem declare (h : F.Orderly s) {slot : Nat} (hdeclares : F.Declares decl slot type initial)
    (hslot : .alloca slot type ∈ s.instrs) : F.Orderly { s with
      scope := s.scope.declare decl.name
        ⟨.stack (.temp slot), source, type, decl.isMutable, false, decl.location⟩ } := by
  refine h.of_eq rfl (Nat.le_refl _) fun entry hentry => ?_
  rcases List.mem_append.mp hentry with hentry | hentry
  · exact h.locals entry (List.mem_filter.mp hentry).1
  · obtain rfl := List.mem_singleton.mp hentry
    exact .slot hdeclares hslot rfl rfl

/-- The declaration of a variable keeps order. -/
theorem bind (h : F.Orderly s) (hw : F.start.Contains F.env F.context w)
    (hnode : w.node = .statement (.variable location decl))
    (hvalue : exec (variableValue F.env decl) w.state = (.ok (source, type, initial), s)) :
    F.Orderly (exec (bindVariable decl source type initial) s).2 := by
  rcases exec_bindVariable decl source type initial s with
    ⟨-, heq⟩ | ⟨b, hexec, hadds, hcases⟩
  · rw [heq]
    exact h.of_eq rfl (Nat.le_succ _) h.locals
  · have hdeclares : F.Declares decl s.builder.nextTemp type initial :=
      ⟨w, hw, ⟨location, hnode⟩, source, s, _, hvalue, hexec⟩
    have hslot : F.Orderly { s with builder := b } := h.addSlot hdeclares hadds
    have hmem : .alloca s.builder.nextTemp type ∈ b.instrs :=
      hadds.instrs.mem_iff.mpr List.mem_cons_self
    rcases hcases with heq | ⟨b', hstore, heq⟩
    all_goals rw [heq]
    · exact hslot
    · rcases hstore with ⟨rfl, -⟩ | ⟨value, rfl, hstored⟩
      · exact hslot.declare hdeclares hmem
      · exact (hslot.addInitial hdeclares hmem hstored).declare hdeclares
          (hstored.instrs.mem_iff.mpr (List.mem_cons_of_mem _ hmem))

theorem move (h : F.Orderly s) (hw : F.start.Contains F.env F.context w)
    (hmove : w.Move F.env s s') : F.Orderly s' := by
  cases hmove with
  | step hstep => exact h.step hstep
  | intern => exact h.of_eq rfl (Nat.le_refl _) h.locals
  | bind hnode hvalue => exact h.bind hw hnode hvalue

end Orderly

end Frame

end SsaLowering
