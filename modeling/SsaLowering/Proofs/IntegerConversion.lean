import SsaLowering.Proofs.Convertibility
import SsaLowering.Proofs.Typing

/-!
# Integers at other types

An integer operand stands for a word of its width, which its type reads as a number. A conversion
extends the word by the signedness of the source. So it keeps the number, provided that the
target has it.
-/

namespace SsaLowering

namespace Signedness

/-- The number that a word stands for. -/
def number (s : Signedness) {n : Nat} (x : BitVec n) : Int :=
  match s with
  | .signed => x.toInt
  | .unsigned => x.toNat

/-- A word at another width: a wider one begins with copies of the sign, or with zeros. -/
def extend (s : Signedness) {n : Nat} (x : BitVec n) (m : Nat) : BitVec m :=
  match s with
  | .signed => x.signExtend m
  | .unsigned => x.setWidth m

/-- Extension takes the number to the other width. -/
theorem extend_eq_ofInt (s : Signedness) {n : Nat} (x : BitVec n) (m : Nat) :
    s.extend x m = BitVec.ofInt m (s.number x) := by
  cases s with
  | signed => rfl
  | unsigned => simp only [extend, number, BitVec.ofInt_natCast, BitVec.ofNat_toNat]

@[simp] theorem extend_self (s : Signedness) {n : Nat} (x : BitVec n) : s.extend x n = x := by
  cases s with
  | signed => exact BitVec.signExtend_eq x
  | unsigned => exact BitVec.setWidth_eq x

/-- A type reads every number that it holds from the word of the number. -/
theorem number_ofInt {s : Signedness} {w : IntWidth} {n : Int}
    (h : (MachineType.int s w).Holds n) : s.number (BitVec.ofInt w.bits n) = n := by
  cases s with
  | signed =>
    have hscalar : (MachineType.int .signed w).IsScalar := trivial
    rw [number, BitVec.toInt_ofInt]
    exact MachineType.wrap_of_holds hscalar h
  | unsigned =>
    rw [number, BitVec.toNat_ofInt]
    cases w <;>
      simp only [MachineType.Holds, MachineType.intRange, IntWidth.bits, IntWidth.bytes,
        Nat.pow_eq] at h ⊢ <;> omega

end Signedness

/-- The word that an operand stands for at a width, given the numbers that temporaries hold. -/
def Value.word? (ρ : Temps) (w : IntWidth) : Value → Option (BitVec w.bits)
  | .temp t => some (BitVec.ofInt w.bits (ρ t))
  | .int n => some (BitVec.ofInt w.bits n.toInt)
  | _ => none

/-- What the temporaries hold behind the extension of an integer. -/
def Instr.extend? (ρ : Temps) : Instr → Option Temps
  | .convert t .sext v (.int _ w) (.int _ w') => (v.word? ρ w).map fun x =>
    Function.update ρ t (x.signExtend w'.bits).toInt
  | .convert t .zext v (.int _ w) (.int _ w') => (v.word? ρ w).map fun x =>
    Function.update ρ t (x.setWidth w'.bits).toNat
  | _ => none

/-- The conversion leads to a strictly wider type of the same class, and suits the sign of the
source. -/
inductive Conversion.Extends : Conversion → (source target : MachineType) → Prop
  | signed {s : Signedness} {w w' : IntWidth} : w.bits < w'.bits →
    Extends .sext (.int .signed w) (.int s w')
  | unsigned {s : Signedness} {w w' : IntWidth} : w.bits < w'.bits →
    Extends .zext (.int .unsigned w) (.int s w')
  | float : Extends .fpext .f32 .f64

theorem Conversion.Extends.bits_lt {op : Conversion} {s s' : Signedness} {w w' : IntWidth}
    (h : op.Extends (.int s w) (.int s' w')) : w.bits < w'.bits := by
  cases h <;> assumption

/-- An instruction that extends a word has the extended word as its result. -/
theorem Conversion.Extends.word? {op : Conversion} {s s' : Signedness} {w w' : IntWidth}
    (h : op.Extends (.int s w) (.int s' w')) {v : Value} {ρ : Temps} {x : BitVec w.bits}
    (hx : v.word? ρ w = some x) (t : Nat) :
    ∃ ρ', Instr.extend? ρ (.convert t op v (.int s w) (.int s' w')) = some ρ' ∧
      (Value.temp t).word? ρ' w' = some (s.extend x w'.bits) := by
  cases h with
  | signed =>
    refine ⟨_, by rw [Instr.extend?, hx]; rfl, ?_⟩
    simp only [Value.word?, Function.update_self, BitVec.ofInt_toInt, Signedness.extend]
  | unsigned =>
    refine ⟨_, by rw [Instr.extend?, hx]; rfl, ?_⟩
    simp only [Value.word?, Function.update_self, BitVec.ofInt_natCast, BitVec.ofNat_toNat,
      BitVec.setWidth_eq, Signedness.extend]

/-- An instruction that widens suits the types. -/
theorem Conversion.extends_of_widening? {op : Conversion} {source target : MachineType}
    (h : widening? source target = some (.extend op)) : op.Extends source target := by
  unfold widening? at h
  split at h
  · next s w s' w' =>
    split at h
    · cases h
    · split at h
      · next hlt =>
        cases s with
        | signed =>
          cases h
          exact .signed hlt
        | unsigned =>
          cases h
          exact .unsigned hlt
      · cases h
  · cases h
    exact .float
  · cases h

/-- Integers of two types have the same bits if these are of the same width. -/
theorem width_eq_of_widening? {s s' : Signedness} {w w' : IntWidth}
    (h : widening? (.int s w) (.int s' w') = some .same) : w = w' := by
  simp only [widening?] at h
  split at h
  · next hbits => exact IntWidth.bits_injective hbits
  · split at h <;> cases h

namespace TypedValue

variable {v : TypedValue} {target : MachineType} {value : Value} {op : Conversion}
  {s s' : Signedness} {w w' : IntWidth}

/-- The instruction on the way to another type extends the value. -/
theorem extends_of_way? (h : v.way? target = some (.instruction op)) :
    op.Extends v.type target := by
  rw [way?] at h
  split at h
  · cases h
  · obtain ⟨widening, hwidening, hop⟩ := Option.map_eq_some_iff.mp h
    cases widening with
    | same => cases hop
    | extend op' =>
      cases hop
      exact Conversion.extends_of_widening? hwidening

/-- An integer constant that becomes a constant of another type is that same constant. -/
theorem eq_of_convertConstant? (h : convertConstant? v (.int s' w') = some value)
    (htype : v.type = .int s w) :
    value = v.value ∧ (v.type = .int s' w' ∨
      ∃ n, v.value = .int n ∧ (MachineType.int s' w').Holds n.toInt) := by
  by_cases hsame : v.type = .int s' w'
  · rw [convertConstant?, if_pos hsame] at h
    exact ⟨(Option.some.inj h).symm, .inl hsame⟩
  · rw [convertConstant?, if_neg hsame] at h
    cases hvalue : v.value with
    | int n =>
      by_cases hfits : (MachineType.int s' w').fits n = true
      · have heq : Value.int n = value := by
          simpa [hvalue, htype, MachineType.isInteger, hfits] using h
        exact ⟨heq.symm, .inr ⟨n, rfl, MachineType.fits_iff.mp hfits⟩⟩
      · simp [hvalue, MachineType.isFloat, hfits] at h
    | float x => simp [hvalue, htype, MachineType.isFloat] at h
    | _ => simp [hvalue] at h

/-- An integer that is taken to another integer type without an instruction stays the operand that
it is. It is a constant of that type, or the types have the same width. -/
theorem eq_of_way? (h : v.way? (.int s' w') = some (.operand value)) (htype : v.type = .int s w) :
    value = v.value ∧
      (w = w' ∨ ∃ n, v.value = .int n ∧ (MachineType.int s' w').Holds n.toInt) := by
  rw [way?] at h
  split at h
  · next hconstant =>
    cases h
    obtain ⟨heq, hsame | hholds⟩ := eq_of_convertConstant? hconstant htype
    · rw [htype] at hsame
      cases hsame
      exact ⟨heq, .inl rfl⟩
    · exact ⟨heq, .inr hholds⟩
  · obtain ⟨widening, hwidening, hoperand⟩ := Option.map_eq_some_iff.mp h
    rw [htype] at hwidening
    cases widening with
    | same =>
      cases hoperand
      exact ⟨rfl, .inl (width_eq_of_widening? hwidening)⟩
    | extend op => cases hoperand

/-- The operand that an integer is taken to stands for the extended word. -/
theorem word?_of_way? (h : v.way? (.int s' w') = some (.operand value)) (htype : v.type = .int s w)
    (hv : v.value.Fits v.type) {ρ : Temps} {x : BitVec w.bits} (hx : v.value.word? ρ w = some x) :
    value.word? ρ w' = some (s.extend x w'.bits) := by
  obtain ⟨rfl, rfl | ⟨n, hn, -⟩⟩ := eq_of_way? h htype
  · rw [hx, Signedness.extend_self]
  · have hholds : (MachineType.int s w).Holds n.toInt := MachineType.fits_iff.mp (htype ▸ hv n hn)
    rw [hn, Value.word?] at hx ⊢
    obtain rfl := Option.some.inj hx
    rw [Signedness.extend_eq_ofInt, Signedness.number_ofInt hholds]

/-- An integer is taken to a type of fewer bits only if the type has it. -/
theorem bits_le_of_way? {way : Way} (h : v.way? (.int s' w') = some way)
    (htype : v.type = .int s w) (hv : v.value.Fits v.type) {ρ : Temps} {x : BitVec w.bits}
    (hx : v.value.word? ρ w = some x) (hnumber : ¬ (MachineType.int s' w').Holds (s.number x)) :
    w.bits ≤ w'.bits := by
  cases way with
  | operand value =>
    obtain ⟨-, rfl | ⟨n, hn, hholds⟩⟩ := eq_of_way? h htype
    · exact le_rfl
    · have hown : (MachineType.int s w).Holds n.toInt := MachineType.fits_iff.mp (htype ▸ hv n hn)
      rw [hn, Value.word?] at hx
      obtain rfl := Option.some.inj hx
      rw [Signedness.number_ofInt hown] at hnumber
      exact absurd hholds hnumber
  | instruction op =>
    have hextends := extends_of_way? h
    rw [htype] at hextends
    exact hextends.bits_lt.le

/-- What an operand at another type has to do with a value, if at most one instruction was added to
get there. -/
structure Becomes (v : TypedValue) (target : MachineType) (added : Option Instr)
    (value : Value) : Prop where
  /-- An instruction widens the value, by its own sign. -/
  widens : ∀ i ∈ added, ∃ t op,
    op.Extends v.type target ∧ i = .convert t op v.value v.type target ∧ value = .temp t
  /-- An integer keeps its number if the target has it, and else all of its bits. -/
  keeps {s s' : Signedness} {w w' : IntWidth} : v.type = .int s w → target = .int s' w' →
    ∀ ρ x, v.value.word? ρ w = some x → ∃ ρ' y,
      added.elim (some ρ) (Instr.extend? ρ) = some ρ' ∧ value.word? ρ' w' = some y ∧
      y = s.extend x w'.bits ∧
      ((MachineType.int s' w').Holds (s.number x) → s'.number y = s.number x) ∧
      (¬ (MachineType.int s' w').Holds (s.number x) → w.bits ≤ w'.bits)

/-- An extended word stands for the same number at every type that has it. -/
theorem number_extend {s s' : Signedness} {w' : IntWidth} {n : Nat} {x : BitVec n}
    (h : (MachineType.int s' w').Holds (s.number x)) :
    s'.number (s.extend x w'.bits) = s.number x := by
  rw [Signedness.extend_eq_ofInt, Signedness.number_ofInt h]

theorem becomes_operand (h : v.way? target = some (.operand value)) (hv : v.value.Fits v.type) :
    v.Becomes target none value where
  widens := by simp
  keeps := by
    rintro s s' w w' htype rfl ρ x hx
    exact ⟨ρ, _, rfl, word?_of_way? h htype hv hx, rfl, number_extend,
      bits_le_of_way? h htype hv hx⟩

theorem becomes_instruction (h : v.way? target = some (.instruction op))
    (hv : v.value.Fits v.type) (t : Nat) :
    v.Becomes target (some (.convert t op v.value v.type target)) (.temp t) where
  widens := by
    rintro i ⟨⟩
    exact ⟨t, op, extends_of_way? h, rfl, rfl⟩
  keeps := by
    rintro s s' w w' htype rfl ρ x hx
    have hextends := extends_of_way? h
    rw [htype] at hextends ⊢
    obtain ⟨ρ', hρ', hword⟩ := hextends.word? hx t
    exact ⟨ρ', _, hρ', hword, rfl, number_extend, bits_le_of_way? h htype hv hx⟩

end TypedValue

namespace Lower

open BodyState

variable {s : BodyState} {f : FunctionDef} {l : Nat} {b : Block} {v : TypedValue}

/-- A conversion in an open block. It succeeds for exactly the types to which the value converts,
and adds nothing but an instruction that widens the value. -/
theorem conversion_keeps_integers (h : s.StandsIn f l b) (hv : v.value.Fits v.type)
    (target : MachineType) :
    ∃ result s', exec (convert? v target) s = (.ok result, s') ∧
      (result.isSome = true ↔ v.ConvertsTo target) ∧
      (result = none → s' = s) ∧
      ∀ value, result = some value → ∃ added : Option Instr,
        s' = added.elim s (s.defining f l) ∧ v.Becomes target added value := by
  rw [exec_convert? h, ← TypedValue.isSome_way?_iff]
  cases hway : v.way? target with
  | none => exact ⟨none, s, rfl, Iff.rfl, fun _ => rfl, nofun⟩
  | some way =>
    cases way with
    | operand value =>
      refine ⟨some value, s, rfl, by simp, nofun, ?_⟩
      rintro _ ⟨⟩
      exact ⟨none, rfl, TypedValue.becomes_operand hway hv⟩
    | instruction op =>
      refine ⟨some (.temp s.builder.nextTemp), _, rfl, by simp, nofun, ?_⟩
      rintro _ ⟨⟩
      exact ⟨some _, rfl, TypedValue.becomes_instruction hway hv s.builder.nextTemp⟩

/-- A negative constant becomes the word that is all ones, by an instruction. -/
theorem conversion_keeps_integers_minusOne :
    ∃ result s', exec (convert? (.plain (.int (-1)) .i32) .u64)
        ((UnitState.initial "main" .empty).opened (.procedure "main")) = (.ok result, s') ∧
      (result.isSome = true ↔ (TypedValue.plain (.int (-1)) .i32).ConvertsTo .u64) ∧
      ∃ value added, result = some value ∧
        (TypedValue.plain (.int (-1)) .i32).Becomes .u64 added value := by
  have hfits : (Value.int (-1)).Fits .i32 := by
    rintro n ⟨⟩
    decide
  obtain ⟨result, s', hexec, hiff, -, hbecomes⟩ := conversion_keeps_integers
    (v := .plain (.int (-1)) .i32) ((UnitState.initial "main" .empty).standsIn_opened
      (.procedure "main")) hfits .u64
  have hconverts : (TypedValue.plain (.int (-1)) .i32).ConvertsTo .u64 :=
    .integer rfl (by decide)
  obtain ⟨value, hvalue⟩ := Option.isSome_iff_exists.mp (hiff.mpr hconverts)
  obtain ⟨added, -, hadded⟩ := hbecomes value hvalue
  exact ⟨result, s', hexec, hiff, value, added, hvalue, hadded⟩

end Lower

end SsaLowering
