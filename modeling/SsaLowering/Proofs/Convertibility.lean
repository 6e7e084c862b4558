import SsaLowering.Proofs.Body
import SsaLowering.Proofs.Extension

/-!
# Which values convert to which types

Whether a value converts to a type is a matter of the value and the type alone. In an open block
a conversion that exists also succeeds, and adds at most one instruction.
-/

namespace SsaLowering

/-! ## Open blocks -/

namespace BodyState

/-- The function under construction, the label of the current block, and that block, which takes
more instructions. -/
structure StandsIn (s : BodyState) (f : FunctionDef) (l : Nat) (b : Block) : Prop extends
    s.WritesTo f l b where
  isOpen : b.isTerminated = false

/-- The state after an instruction with a result was added to a block. -/
def defining (s : BodyState) (f : FunctionDef) (l : Nat) (i : Instr) : BodyState :=
  { s with builder := { s.builder with
      nextTemp := s.builder.nextTemp + 1
      function := some (f.modifyBlock l (·.push i)) } }

variable {s : BodyState} {f : FunctionDef} {l : Nat} {b : Block}

/-- The block stays open, unless the instruction leaves it. -/
theorem StandsIn.defining (h : s.StandsIn f l b) {i : Instr} (hi : i.isTerminator = false) :
    (s.defining f l i).StandsIn (f.modifyBlock l (·.push i)) l (b.push i) where
  function := rfl
  current := h.current
  block := f.block?_push h.block i
  isOpen := by rw [Block.isTerminated_push, hi]

end BodyState

/-- The entry block of a body is open. -/
theorem UnitState.standsIn_opened (s : UnitState) (d : DeclaredFunction) :
    (s.opened d).StandsIn { d.declaration with blocks := [.fresh 0 "entry"], isExternal := false }
      0 (.fresh 0 "entry") :=
  ⟨⟨rfl, rfl, rfl⟩, rfl⟩

/-- A function that takes nothing and returns nothing. -/
def DeclaredFunction.procedure (name : String) : DeclaredFunction where
  decl := ⟨name, [], .named "void", none, none, none⟩
  signature := .ofSource .empty [] (.named "void") false none

namespace Lower

open BodyState

variable {s : BodyState} {f : FunctionDef} {l : Nat} {b : Block}

/-- The result of a new instruction is the next temporary. -/
theorem exec_define (h : s.StandsIn f l b) (instr : Nat → Instr) :
    exec (build (Build.define instr)) s =
      (.ok (.temp s.builder.nextTemp), s.defining f l (instr s.builder.nextTemp)) := by
  let drawn : BodyState := { s with builder := { s.builder with nextTemp := s.builder.nextTemp + 1 } }
  have hdraw : exec (build Build.newTemp) s = (.ok s.builder.nextTemp, drawn) := rfl
  have hemit : exec (build (Build.emit (instr s.builder.nextTemp))) drawn =
      (.ok (), s.defining f l (instr s.builder.nextTemp)) :=
    exec_build_of_ok (Build.exec_emit_of_open (b := drawn.builder) h.function h.current h.block
      h.isOpen _)
  rw [Build.define, build_bind, exec_bind_of_ok hdraw, build_bind, exec_bind_of_ok hemit,
    build_pure]
  rfl

end Lower

/-! ## Ways to another type -/

theorem IntWidth.bits_injective : Function.Injective IntWidth.bits := by
  intro w w' h
  cases w <;> cases w' <;> first | rfl | cases h

/-- How a value is taken to another type: as an operand that is there already, or by an
instruction. -/
inductive Way where
  | operand (value : Value)
  | instruction (op : Conversion)

/-- While the code runs, integers become integers of no fewer bits, and floats become doubles. -/
theorem isSome_widening?_iff {source target : MachineType} :
    (widening? source target).isSome = true ↔
      (∃ s s' w w', source = .int s w ∧ target = .int s' w' ∧ w.bits ≤ w'.bits) ∨
      source = .f32 ∧ target = .f64 := by
  constructor
  · intro h
    unfold widening? at h
    split at h
    · next s w s' w' =>
      refine .inl ⟨s, s', w, w', rfl, rfl, ?_⟩
      split at h
      · omega
      · split at h
        · omega
        · cases h
    · exact .inr ⟨rfl, rfl⟩
    · cases h
  · rintro (⟨s, s', w, w', rfl, rfl, hw⟩ | ⟨rfl, rfl⟩)
    · by_cases heq : w.bits = w'.bits
      · simp [widening?, heq]
      · simp [widening?, heq, lt_of_le_of_ne hw heq]
    · rfl

namespace TypedValue

/-- The way to a type, if there is one. A constant is taken there itself, if that is possible. -/
def way? (v : TypedValue) (target : MachineType) : Option Way :=
  match convertConstant? v target with
  | some value => some (.operand value)
  | none => (widening? v.type target).map fun
    | .same => .operand v.value
    | .extend op => .instruction op

/-- The value converts to the type. An integer converts to every integer type that is not
narrower, and a float to a wider one. Integer constants convert to all types that hold them, and
constants of numbers to all float types. -/
inductive ConvertsTo (v : TypedValue) : MachineType → Prop
  | same : ConvertsTo v v.type
  | integer {s s' : Signedness} {w w' : IntWidth} : v.type = .int s w → w.bits ≤ w'.bits →
    ConvertsTo v (.int s' w')
  | float : v.type = .f32 → ConvertsTo v .f64
  | integerConstant {n : Int64} {s s' : Signedness} {w w' : IntWidth} : v.value = .int n →
    v.type = .int s w → (MachineType.int s' w').fits n = true → ConvertsTo v (.int s' w')
  | roundedConstant {n : Int64} {s : Signedness} {w : IntWidth} (w' : FloatWidth) :
    v.value = .int n → v.type = .int s w → ConvertsTo v (.float w')
  | floatConstant {x : Binary64} {w : FloatWidth} (w' : FloatWidth) :
    v.value = .float x → v.type = .float w → ConvertsTo v (.float w')

variable {v : TypedValue} {target : MachineType}

theorem convertsTo_of_convertConstant? {value : Value} (h : convertConstant? v target = some value) :
    v.ConvertsTo target := by
  by_cases hsame : v.type = target
  · exact hsame ▸ .same
  rw [convertConstant?, if_neg hsame] at h
  cases hvalue : v.value with
  | int n =>
    cases htype : v.type with
    | int s w =>
      cases target with
      | int s' w' =>
        apply ConvertsTo.integerConstant hvalue htype
        by_contra hfits
        simp [hvalue, htype, MachineType.isFloat, hfits] at h
      | float w' => exact .roundedConstant w' hvalue htype
      | _ => simp [hvalue, MachineType.isInteger, MachineType.isFloat] at h
    | _ => simp [hvalue, htype, MachineType.isInteger] at h
  | float x =>
    cases htype : v.type with
    | float w =>
      cases target with
      | float w' => exact .floatConstant w' hvalue htype
      | _ => simp [hvalue, MachineType.isFloat] at h
    | _ => simp [hvalue, htype, MachineType.isFloat] at h
  | _ => simp [hvalue] at h

/-- A value that is no constant converts as its type does. -/
theorem convertsTo_iff (hv : v.value.isConstant = false) : v.ConvertsTo target ↔
    v.type = target ∨
      (∃ s s' w w', v.type = .int s w ∧ target = .int s' w' ∧ w.bits ≤ w'.bits) ∨
      v.type = .f32 ∧ target = .f64 := by
  constructor
  · intro h
    cases h with
    | same => exact .inl rfl
    | @integer s s' w w' htype hw => exact .inr (.inl ⟨s, s', w, w', htype, rfl, hw⟩)
    | float htype => exact .inr (.inr ⟨htype, rfl⟩)
    | integerConstant hvalue | roundedConstant _ hvalue | floatConstant _ hvalue =>
      rw [hvalue] at hv
      cases hv
  · rintro (rfl | ⟨s, s', w, w', htype, rfl, hw⟩ | ⟨htype, rfl⟩)
    · exact .same
    · exact .integer htype hw
    · exact .float htype

/-- A value converts to its own type, or from an integer to another one, or to a float type. -/
theorem ConvertsTo.eq_or_integers_or_float (h : v.ConvertsTo target) :
    v.type = target ∨ (∃ s w s' w', v.type = .int s w ∧ target = .int s' w') ∨
      ∃ w', target = .float w' := by
  cases h with
  | same => exact .inl rfl
  | integer htype | integerConstant _ htype => exact .inr (.inl ⟨_, _, _, _, htype, rfl⟩)
  | float | roundedConstant | floatConstant => exact .inr (.inr ⟨_, rfl⟩)

/-- There is a way to exactly the types to which the value converts. -/
theorem isSome_way?_iff : (v.way? target).isSome = true ↔ v.ConvertsTo target := by
  constructor
  · intro h
    rw [way?] at h
    split at h
    · next hconstant => exact convertsTo_of_convertConstant? hconstant
    · rw [Option.isSome_map, isSome_widening?_iff] at h
      rcases h with ⟨s, s', w, w', htype, rfl, hw⟩ | ⟨htype, rfl⟩
      · exact .integer htype hw
      · exact .float htype
  · intro h
    rw [way?]
    cases hconstant : convertConstant? v target with
    | some value => rfl
    | none =>
      rw [Option.isSome_map, isSome_widening?_iff]
      cases h with
      | same => simp [convertConstant?] at hconstant
      | integer htype hw => exact .inl ⟨_, _, _, _, htype, rfl, hw⟩
      | float htype => exact .inr ⟨htype, rfl⟩
      | integerConstant hvalue htype hfits =>
        simp [convertConstant?, hvalue, htype, hfits, MachineType.isInteger] at hconstant
      | roundedConstant w' hvalue htype =>
        simp [convertConstant?, hvalue, htype, MachineType.isInteger, MachineType.isFloat] at hconstant
      | floatConstant w' hvalue htype =>
        simp [convertConstant?, hvalue, htype, MachineType.isFloat] at hconstant

end TypedValue

namespace Lower

open BodyState

variable {s : BodyState} {f : FunctionDef} {l : Nat} {b : Block} {v : TypedValue}
  {target : MachineType}

/-- In an open block, a conversion goes the way there is. -/
theorem exec_convert? (h : s.StandsIn f l b) (v : TypedValue) (target : MachineType) :
    exec (convert? v target) s = match v.way? target with
      | none => (.ok none, s)
      | some (.operand value) => (.ok (some value), s)
      | some (.instruction op) => (.ok (some (.temp s.builder.nextTemp)),
          s.defining f l (.convert s.builder.nextTemp op v.value v.type target)) := by
  rw [convert?, TypedValue.way?]
  cases convertConstant? v target with
  | some value => rfl
  | none =>
    cases widening? v.type target with
    | none => rfl
    | some widening =>
      cases widening with
      | same => rfl
      | extend op =>
        exact exec_bind_of_ok (exec_define h fun t => .convert t op v.value v.type target)

/-- In an open block, a conversion succeeds or changes nothing, and the block stays open. -/
theorem exists_exec_convert? (h : s.StandsIn f l b) (v : TypedValue) (target : MachineType) :
    ∃ result s' f' b', exec (convert? v target) s = (.ok result, s') ∧ s'.StandsIn f' l b' ∧
      (result.isSome = true ↔ v.ConvertsTo target) ∧ (result = none → s' = s) := by
  rw [exec_convert? h, ← TypedValue.isSome_way?_iff]
  cases v.way? target with
  | none => exact ⟨none, s, f, b, rfl, h, Iff.rfl, fun _ => rfl⟩
  | some way =>
    cases way with
    | operand value => exact ⟨some value, s, f, b, rfl, h, by simp, nofun⟩
    | instruction op => exact ⟨_, _, _, _, rfl, h.defining rfl, by simp, nofun⟩

end Lower

end SsaLowering
