import SsaLowering.Proofs.ExpressionCode
import SsaLowering.Proofs.Step

/-!
# Steps of expressions

What is done around the operands of an expression takes steps only: conversions, accesses to
members, the passing of arguments and assignments. An assignment looks for a place that may be
written right before it stores there.
-/

namespace SsaLowering

namespace BodyState

variable {env : Environment} {s s' : BodyState}

/-- A struct that a name leads to, and whether it may be written there. -/
def Locates (env : Environment) (s : BodyState) : StructPlace → Prop
  | .memory ptr _ writable => s.Accesses env writable ptr
  | .aggregate .. => True

theorem Locates.steps {place : StructPlace} (h : s.Locates env place) (hsteps : s.Steps env s') :
    s'.Locates env place := by
  cases place with
  | memory ptr layout writable => exact Accesses.steps h hsteps
  | aggregate value layout => trivial

end BodyState

namespace Lower.TakesSteps

open BodyState

variable {env : Environment} {s : BodyState}

/-! ## Conversions -/

theorem convert? (v : TypedValue) (target : MachineType) :
    TakesSteps env (Lower.convert? v target) s fun _ _ => True := by
  rw [Lower.convert?]
  split
  · exact done
  · split
    · exact done
    · exact (convert _ _ _ _).bind fun _ _ _ _ => done
    · exact done

theorem coerce (v : TypedValue) (source : SourceType) (target : MachineType) (use : String) :
    TakesSteps env (Lower.coerce v source target use) s fun _ _ => True := by
  refine (convert? v target).bind fun result s₁ _ _ => ?_
  cases result with
  | some value => exact done
  | none => exact fail _

theorem toBool (v : TypedValue) : TakesSteps env (Lower.toBool v) s fun _ _ => True := by
  unfold Lower.toBool
  split
  · exact done
  · exact done
  · exact done
  · exact done
  · exact binary _ _ _ _
  · exact binary _ _ _ _
  · exact binary _ _ _ _
  · exact fail _

theorem adaptLeft? (l r : TypedValue) :
    TakesSteps env (Lower.adaptLeft? l r) s fun _ _ => True :=
  (convert? l r.type).bind fun _ _ _ _ => done

theorem adaptRight? (l r : TypedValue) :
    TakesSteps env (Lower.adaptRight? l r) s fun _ _ => True :=
  (convert? r l.type).bind fun _ _ _ _ => done

theorem unify? (l r : TypedValue) : TakesSteps env (Lower.unify? l r) s fun _ _ => True := by
  rw [Lower.unify?]
  split
  · exact done
  · split
    · refine (adaptLeft? l r).bind fun result s₁ _ _ => ?_
      cases result with
      | some operands => exact done
      | none => exact adaptRight? l r
    · refine (adaptRight? l r).bind fun result s₁ _ _ => ?_
      cases result with
      | some operands => exact done
      | none => exact adaptLeft? l r

/-! ## Members -/

theorem visibleField (layout : StructLayout) (name : String) :
    TakesSteps env (Lower.visibleField env layout name) s fun _ _ => True := by
  unfold Lower.visibleField
  exact orFail_bind fun field _ => guarded' fun _ => done

/-- What is read from a field is no part of the struct any more. -/
theorem loadField {place : StructPlace} (hplace : s.Locates env place) (field : FieldLayout) :
    TakesSteps env (Lower.loadField place field) s fun v s' => s'.Accesses env true v.value := by
  cases place with
  | memory ptr layout writable =>
    refine (fieldAddress hplace layout.type field.index).bind fun address s₁ _ _ => ?_
    exact (load address field.type).bind fun value s₂ _ hvalue => pure hvalue
  | aggregate value layout =>
    exact (extract value layout.type field.index field.type).bind
      fun value s₁ _ hvalue => pure hvalue

/-- A variable in memory may be written if it is mutable, and what a pointer leads to always. -/
theorem inMemory {b : Binding} (hb : s.Binds env b) (layout : StructLayout) {address : Value}
    (ha : b.storage.address? = some address) :
    TakesSteps env
      (if b.source.isPointer = true then do
        let __do_lift ← build (Build.load address .ptr)
        Pure.pure (StructPlace.memory __do_lift layout true)
      else Pure.pure (StructPlace.memory address layout b.isMutable)) s
      fun place s' => s'.Locates env place := by
  split
  · exact (load address .ptr).bind fun value s₁ _ hvalue => pure hvalue
  · exact pure (Origin.named hb ha).accesses

theorem variablePlace (name : String) :
    TakesSteps env (Lower.variablePlace env name) s fun place s' => s'.Locates env place := by
  unfold Lower.variablePlace
  refine (readBinding? name).bind fun result s₁ _ hresult => ?_
  refine orFail_bind fun b hb => orFail_bind fun layout _ => ?_
  have hb := hresult b hb
  dsimp only
  split
  · next value hstorage =>
    split
    · next hpointer => exact pure (Origin.parameter hb hstorage hpointer).accesses
    · exact pure trivial
  · next slot hstorage => exact inMemory hb layout (by rw [hstorage]; rfl)
  · next symbol hstorage => exact inMemory hb layout (by rw [hstorage]; rfl)

/-- A field that is no pointer may be written if the struct around it may. -/
theorem fieldPlace {outer : StructPlace} (houter : s.Locates env outer) (name : String) :
    TakesSteps env (Lower.fieldPlace env outer name) s fun place s' => s'.Locates env place := by
  unfold Lower.fieldPlace
  refine (visibleField outer.layout name).bind fun field s₁ hsteps _ => ?_
  refine orFail_bind fun inner _ => ?_
  have houter := houter.steps hsteps
  split
  · exact (loadField houter field).bind fun v s₂ _ hv => pure hv
  · cases outer with
    | memory ptr layout writable =>
      exact (fieldAddress houter layout.type field.index).bind fun address s₂ _ ha => pure ha
    | aggregate value layout =>
      exact (extract value layout.type field.index field.type).bind fun _ _ _ _ => pure trivial

theorem structPlace (object : Term) : TakesSteps env (Lower.structPlace env object) s
    fun place s' => s'.Locates env place.1 := by
  fun_induction Lower.structPlace env object generalizing s with
  | case1 location name => exact (variablePlace name).bind fun place s₁ _ hplace => pure hplace
  | case2 location object field ih =>
    refine ih.bind fun place s₁ _ hplace => ?_
    exact (fieldPlace hplace field).bind fun inner s₂ _ hinner => pure hinner
  | case3 => exact fail _

theorem lowerMember (object : Term) (name : String) :
    TakesSteps env (Lower.lowerMember env object name) s fun _ _ => True := by
  refine (structPlace object).bind fun place s₁ _ hplace => ?_
  refine (visibleField place.1.layout name).bind fun field s₂ hsteps _ => ?_
  exact (loadField (hplace.steps hsteps) field).imp fun _ _ _ _ => trivial

/-- The address of a member is only taken where the member may be written. -/
theorem memberAddress (object : Term) (name : String) :
    TakesSteps env (Lower.memberAddress env object name) s
      fun result s' => s'.Accesses env true result.1 := by
  refine (structPlace object).bind fun place s₁ _ hplace => ?_
  refine (visibleField place.1.layout name).bind fun field s₂ hsteps _ => ?_
  split
  · next ptr layout heq =>
    have hplace := hplace.steps hsteps
    rw [heq] at hplace
    exact (fieldAddress hplace layout.type field.index).bind fun address s₃ _ ha => pure ha
  · exact fail _

/-! ## Variables -/

theorem lowerVariable (name : String) :
    TakesSteps env (Lower.lowerVariable env name) s fun _ _ => True := by
  unfold Lower.lowerVariable
  refine (readBinding? name).bind fun result s₁ _ _ => orFail_bind fun b _ => ?_
  cases b.storage with
  | direct value => exact done
  | stack slot => exact (load slot b.type).bind fun _ _ _ _ => done
  | global symbol => exact (load (.global symbol) b.type).bind fun _ _ _ _ => done

/-- A store to a variable that was found to be mutable. -/
theorem storeNamed {b : Binding} (hb : s.Binds env b) (hmutable : b.isMutable = true)
    {address : Value} (ha : b.storage.address? = some address) {s' : BodyState}
    (hsteps : s.Steps env s') (value : Value) :
    TakesSteps env (build (Build.store value address b.type)) s' fun _ _ => True := by
  have haccess : s.Accesses env b.isMutable address := (Origin.named hb ha).accesses
  rw [hmutable] at haccess
  exact store value (haccess.steps hsteps) b.type

theorem lowerStep (op : UnaryOp) (operand : Term) :
    TakesSteps env (Lower.lowerStep env op operand) s fun _ _ => True := by
  unfold Lower.lowerStep
  split
  · next location name =>
    refine (readBinding? name).bind fun result s₁ _ hresult => orFail_bind fun b hb => ?_
    have hb := hresult b hb
    refine guarded fun hmutable => orFail_bind fun address ha => orFail_bind fun step _ => ?_
    refine (load address b.type).bind fun old s₂ h₂ _ => ?_
    refine (binary step.1 old step.2 b.type).bind fun new s₃ h₃ _ => ?_
    exact (storeNamed hb hmutable ha (h₂.trans h₃) new).bind fun _ _ _ _ => done
  · exact fail _

theorem assignVariable (name : String) (v : TypedValue) :
    TakesSteps env (Lower.assignVariable env name v) s fun _ _ => True := by
  unfold Lower.assignVariable
  refine (peekBinding? name).bind fun result s₁ _ hresult => orFail_bind fun b hb => ?_
  have hb := hresult b hb
  refine guarded fun hmutable => orFail_bind fun address ha => ?_
  refine (coerce v b.source b.type _).bind fun stored s₂ h₂ _ => ?_
  exact (storeNamed hb hmutable ha h₂ stored).bind fun _ _ _ _ => done

theorem assignMember (object : Term) (name : String) (v : TypedValue) :
    TakesSteps env (Lower.assignMember env object name v) s fun _ _ => True := by
  unfold Lower.assignMember
  refine (memberAddress object name).bind fun result s₁ _ hresult => ?_
  refine (coerce v result.2.source result.2.type _).bind fun stored s₂ hsteps _ => ?_
  exact (store stored (hresult.steps hsteps) result.2.type).bind fun _ _ _ _ => done

/-! ## Calls -/

theorem promoteVariadic (v : TypedValue) (callee : String) :
    TakesSteps env (Lower.promoteVariadic v callee) s fun _ _ => True := by
  unfold Lower.promoteVariadic
  split
  · exact (convert _ _ _ _).bind fun _ _ _ _ => done
  · exact fail _
  · exact fail _
  · exact done

theorem passArguments (callee : String) (number : Nat) (sources : List SourceType)
    (types : List MachineType) (values : List TypedValue) :
    TakesSteps env (Lower.passArguments callee number sources types values) s
      fun _ _ => True := by
  fun_induction Lower.passArguments callee number sources types values generalizing s with
  | case1 => exact done
  | case2 number source sources type types v rest use =>
    rename_i ih
    exact (coerce v source type use).bind fun _ _ _ _ => ih.bind fun _ _ _ _ => done
  | case3 number sources types v rest _ ih =>
    exact (promoteVariadic v callee).bind fun _ _ _ _ => ih.bind fun _ _ _ _ => done

theorem lowerAlloc (location : Option Location) (target : SourceType) :
    TakesSteps env (Lower.lowerAlloc env location target) s fun _ _ => True := by
  unfold Lower.lowerAlloc
  refine (checkKnown target location).bind fun _ s₁ _ _ => orFail_bind fun signature _ => ?_
  refine (call _ _ _).bind fun result s₂ _ _ => orFail_bind fun raw _ => ?_
  split
  · exact done
  · exact (convert _ _ _ _).bind fun _ _ _ _ => done

end Lower.TakesSteps

end SsaLowering
