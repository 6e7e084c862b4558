import SsaLowering.Code.CodeModule
import SsaLowering.Proofs.Listing

/-!
# Types of operands

A temporary has the type of its parameter or of the instruction that defines it, constants
have the types of their kind, and addresses are pointers. An instruction is well typed if
every operand has the type at which the instruction reads it.
-/

namespace SsaLowering

namespace MachineType

/-- Types whose values are told apart by nothing but their sign. -/
def Alike (a b : MachineType) : Prop := a = b ∨ ∃ s s' w, a = .int s w ∧ b = .int s' w

theorem Alike.refl (type : MachineType) : type.Alike type := .inl rfl

theorem Alike.trans {a b c : MachineType} (h : a.Alike b) (h' : b.Alike c) : a.Alike c := by
  rcases h with rfl | ⟨s, s', w, rfl, rfl⟩
  · exact h'
  · rcases h' with rfl | ⟨t, t', w', heq, rfl⟩
    · exact .inr ⟨s, s', w, rfl, rfl⟩
    · cases heq
      exact .inr ⟨s, t', w, rfl, rfl⟩

/-- Only equal types are alike, integers apart. -/
theorem Alike.eq {a b : MachineType} (h : a.Alike b) (hb : b.isInteger = false) : a = b := by
  rcases h with rfl | ⟨s, s', w, rfl, rfl⟩
  · rfl
  · cases hb

theorem fits_int {s : Signedness} {w : IntWidth} {n : Int64} :
    fits (.int s w) n = true ↔ (intRange s w).1 ≤ n.toInt ∧ n.toInt ≤ (intRange s w).2 := by
  simp [fits]

/-- The widest signed type holds every integer that a constant can be. -/
theorem fits_i64 (n : Int64) : fits .i64 n = true := by
  have hlower := Int64.le_toInt n
  have hupper := Int64.toInt_lt n
  rw [fits_int]
  simp only [intRange, IntWidth.bits, IntWidth.bytes, Nat.pow_eq]
  omega

/-- All but the least 32-bit integer have an opposite. -/
theorem fits_neg_i32 {n : Int64} (h : fits .i32 n = true) (hn : n ≠ -2147483648) :
    fits .i32 (-n) = true := by
  rw [fits_int] at h ⊢
  simp only [intRange, IntWidth.bits, IntWidth.bytes, Nat.pow_eq] at h ⊢
  have hne : n.toInt ≠ -2147483648 := fun heq => hn (Int64.toInt_inj.mp heq)
  rw [Int64.toInt_neg, Int.bmod_def]
  omega

end MachineType

/-- A conversion leads to a wider type of the same class; a change of view leads anywhere. -/
def Conversion.Widens : Conversion → (source target : MachineType) → Prop
  | .sext, .int _ w, .int _ w' | .zext, .int _ w, .int _ w' => w.bits < w'.bits
  | .fpext, .float w, .float w' => w = .single ∧ w' = .double
  | .bitcast, _, _ => True
  | _, _, _ => False

/-- A value has a type, given the types of the temporaries. -/
inductive Value.HasType (types : Nat → MachineType → Prop) : Value → MachineType → Prop
  | temp {t : Nat} {own type : MachineType} : types t own → own.Alike type →
    HasType types (.temp t) type
  | int (n : Int64) (s : Signedness) (w : IntWidth) : HasType types (.int n) (.int s w)
  | float (x : Binary64) (w : FloatWidth) : HasType types (.float x) (.float w)
  | bool (b : Bool) : HasType types (.bool b) .bool
  | null : HasType types .null .ptr
  | global (name : String) : HasType types (.global name) .ptr

/-- An integer constant is one of the integers of a type. -/
def Value.Fits (v : Value) (type : MachineType) : Prop :=
  ∀ n, v = .int n → type.fits n = true

namespace Value

variable {types types' : Nat → MachineType → Prop} {v : Value} {type type' : MachineType}

theorem HasType.imp (h : v.HasType types type) (himp : ∀ t own, types t own → types' t own) :
    v.HasType types' type := by
  cases h with
  | temp ht halike => exact .temp (himp _ _ ht) halike
  | int n s w => exact .int n s w
  | float x w => exact .float x w
  | bool b => exact .bool b
  | null => exact .null
  | global name => exact .global name

/-- A value of a type has every type alike. -/
theorem HasType.alike (h : v.HasType types type) (halike : type.Alike type') :
    v.HasType types type' := by
  cases h with
  | temp ht hown => exact .temp ht (hown.trans halike)
  | int n s w =>
    rcases halike with rfl | ⟨_, s', w', hw, rfl⟩
    · exact .int n s w
    · cases hw
      exact .int n s' w
  | float x w =>
    obtain rfl : .float w = type' := halike.resolve_right (by simp)
    exact .float x w
  | bool b =>
    obtain rfl : .bool = type' := halike.resolve_right (by simp)
    exact .bool b
  | null =>
    obtain rfl : .ptr = type' := halike.resolve_right (by simp)
    exact .null
  | global name =>
    obtain rfl : .ptr = type' := halike.resolve_right (by simp)
    exact .global name

/-- Integer constants have integer types only. -/
theorem HasType.fits (h : v.HasType types type) (htype : type.isInteger = false) :
    v.Fits type := by
  rintro n rfl
  cases h
  cases htype

theorem HasType.ne_undef (h : v.HasType types type) : v ≠ .undef := by
  rintro rfl
  cases h

end Value

namespace Instr

/-- The type of the temporary that an instruction defines. -/
def resultType? : Instr → Option MachineType
  | .binary _ op _ _ type => some (if op.isComparison then .bool else type)
  | .load _ _ type | .extract _ _ _ _ type | .phi _ _ type | .convert _ _ _ _ type => some type
  | .address .. | .alloca .. => some .ptr
  | .call (some _) _ (.function result _ _) _ => some result
  | _ => none

/-- The operands of an instruction with the types at which it reads them. A callee, the
indices of an address and a value that is taken apart are read at no type of their own. -/
def uses : Instr → List (Value × MachineType)
  | .binary _ _ lhs rhs type => [(lhs, type), (rhs, type)]
  | .load _ ptr _ | .address _ _ ptr _ => [(ptr, .ptr)]
  | .store value ptr type => [(value, type), (ptr, .ptr)]
  | .call _ _ _ args => args.map fun (type, value) => (value, type)
  | .ret (some (type, value)) => [(value, type)]
  | .branch condition _ _ => [(condition, .bool)]
  | .phi _ incoming type => incoming.map fun (value, _) => (value, type)
  | .convert _ _ value source _ => [(value, source)]
  | .extract .. | .alloca .. | .ret none | .jump _ | .unreachable => []

/-- Every operand of an instruction has the type at which it is read, conversions widen, and
a value that is returned is one of the return type. -/
structure WellTyped (types : Nat → MachineType → Prop) (returnType : MachineType) (i : Instr) :
    Prop where
  uses : ∀ use ∈ i.uses, use.1.HasType types use.2
  defined : .undef ∉ i.operands
  widens : ∀ result op value source target, i = .convert result op value source target →
    op.Widens source target
  returns : ∀ type value, i = .ret (some (type, value)) → type = returnType

theorem WellTyped.imp {types types' : Nat → MachineType → Prop} {returnType : MachineType}
    {i : Instr} (h : i.WellTyped types returnType)
    (himp : ∀ t own, types t own → types' t own) : i.WellTyped types' returnType where
  uses := fun use huse => (h.uses use huse).imp himp
  defined := h.defined
  widens := h.widens
  returns := h.returns

end Instr

namespace FunctionDef

variable {f : FunctionDef} {i j : Instr} {t : Nat} {type : MachineType}

/-- The instructions of a function, block after block. -/
def instrs (f : FunctionDef) : List Instr := f.blocks.flatMap (·.body)

/-- The type of a temporary: that of its parameter, or that of the first instruction that
defines it. -/
def typeOf? (f : FunctionDef) (t : Nat) : Option MachineType :=
  match f.params.lookup t with
  | some type => some type
  | none => f.instrs.findSome? fun i => if i.result? = some t then i.resultType? else none

theorem results_eq (f : FunctionDef) : f.results = f.instrs.filterMap (·.result?) := by
  rw [results, instrs, List.filterMap_flatMap]

/-- A temporary that is defined once is the result of one instruction only. -/
theorem instr_eq_of_result? (h : f.definitions.Nodup) (hi : i ∈ f.instrs) (hj : j ∈ f.instrs)
    (hit : i.result? = some t) (hjt : j.result? = some t) : i = j := by
  have hnodup : (f.instrs.filterMap (·.result?)).Nodup := by
    rw [← results_eq]
    exact (List.nodup_append.mp h).2.1
  generalize f.instrs = code at hi hj hnodup
  induction code with
  | nil => cases hi
  | cons k code ih =>
    have hhead (hk : k.result? = some t) : ∀ l ∈ code, l.result? ≠ some t := by
      intro l hl hlt
      rw [List.filterMap_cons_some hk, List.nodup_cons] at hnodup
      exact hnodup.1 (List.mem_filterMap.mpr ⟨l, hl, hlt⟩)
    rcases List.mem_cons.mp hi with rfl | hi'
    · rcases List.mem_cons.mp hj with rfl | hj'
      · rfl
      · exact absurd hjt (hhead hit j hj')
    · rcases List.mem_cons.mp hj with rfl | hj'
      · exact absurd hit (hhead hjt i hi')
      · apply ih hi' hj'
        exact hnodup.sublist ((List.sublist_cons_self k code).filterMap _)

/-- A parameter is no result. -/
theorem result?_ne_of_param (h : f.definitions.Nodup) (ht : (t, type) ∈ f.params)
    (hi : i ∈ f.instrs) : i.result? ≠ some t := by
  intro hit
  have hmem : t ∈ f.results := by
    rw [results_eq]
    exact List.mem_filterMap.mpr ⟨i, hi, hit⟩
  exact (List.nodup_append.mp h).2.2 t (List.mem_map_of_mem ht) t hmem rfl

theorem typeOf?_of_param (h : f.definitions.Nodup) (ht : (t, type) ∈ f.params) :
    f.typeOf? t = some type := by
  have hnodup : (f.params.map Prod.fst).Nodup := (List.nodup_append.mp h).1
  have hlookup : f.params.lookup t = some type := by
    generalize f.params = params at ht hnodup
    induction params with
    | nil => cases ht
    | cons param params ih =>
      rw [List.map_cons, List.nodup_cons] at hnodup
      rcases List.mem_cons.mp ht with rfl | ht
      · simp
      · have hne : t ≠ param.1 := fun heq => hnodup.1 (heq ▸ List.mem_map_of_mem ht)
        rw [List.lookup_cons, beq_eq_false_iff_ne.mpr hne]
        exact ih ht hnodup.2
  rw [typeOf?, hlookup]

theorem typeOf?_of_instr (h : f.definitions.Nodup) (hi : i ∈ f.instrs)
    (hit : i.result? = some t) (htype : i.resultType? = some type) :
    f.typeOf? t = some type := by
  have hlookup : f.params.lookup t = none := by
    cases hparam : f.params.lookup t with
    | none => rfl
    | some own =>
      obtain ⟨front, rest, heq, -⟩ := List.lookup_eq_some_iff.mp hparam
      exact absurd hit (result?_ne_of_param h (by simp [heq] : (t, own) ∈ f.params) hi)
  rw [typeOf?, hlookup]
  -- Whichever instruction is found first, it is this one.
  cases hfound : f.instrs.findSome? fun j => if j.result? = some t then j.resultType? else none with
  | none =>
    have hnone := List.findSome?_eq_none_iff.mp hfound i hi
    rw [if_pos hit, htype] at hnone
    cases hnone
  | some own =>
    obtain ⟨j, hj, hown⟩ := List.exists_of_findSome?_eq_some hfound
    split at hown
    · next hjt =>
      rw [instr_eq_of_result? h hi hj hit hjt, hown] at htype
      exact htype
    · cases hown

/-- Every instruction of a function is well typed. -/
def WellTyped (f : FunctionDef) : Prop :=
  ∀ i ∈ f.instrs, i.WellTyped (fun t own => f.typeOf? t = some own) f.returnType

end FunctionDef

end SsaLowering
