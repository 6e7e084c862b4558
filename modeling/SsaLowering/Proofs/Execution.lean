import SsaLowering.Code.FunctionDef
import Mathlib.Logic.Function.Basic
import Mathlib.Logic.Relation

/-!
# Execution of code over truth values and integers

A machine executes one instruction at a time. A truth value or a signed integer is kept as the
number that its bits stand for, and so is an address. Instructions on anything else, and
divisions without a result, cannot be executed.
-/

namespace SsaLowering

namespace MachineType

/-- Whether values of the type are truth values or signed integers. -/
def IsScalar : MachineType → Prop
  | .bool | .int .signed _ => True
  | _ => False

/-- Whether a number is a value of the type. -/
def Holds : MachineType → Int → Prop
  | .bool, n => n = 0 ∨ n = 1
  | .int s w, n => (intRange s w).1 ≤ n ∧ n ≤ (intRange s w).2
  | _, _ => False

instance (type : MachineType) : Decidable type.IsScalar :=
  match type with
  | .bool | .int .signed _ => isTrue trivial
  | .void | .int .unsigned _ | .float _ | .ptr | .array .. | .function .. | .struct .. => isFalse id

instance (type : MachineType) (n : Int) : Decidable (type.Holds n) :=
  match type with
  | .bool => inferInstanceAs (Decidable (n = 0 ∨ n = 1))
  | .int s w => inferInstanceAs (Decidable ((intRange s w).1 ≤ n ∧ n ≤ (intRange s w).2))
  | .void | .float _ | .ptr | .array .. | .function .. | .struct .. => isFalse id

/-- The value of the type that has the same low bits as a number. -/
def wrap : MachineType → Int → Int
  | .bool, n => n % 2
  | .int .signed w, n => n.bmod (Nat.pow 2 w.bits)
  | .int .unsigned w, n => n % Nat.pow 2 w.bits
  | _, n => n

variable {type target : MachineType} {n : Int}

theorem isScalar_iff : type.IsScalar ↔ type = .bool ∨ ∃ w, type = .int .signed w := by
  cases type with
  | int s w => cases s <;> simp [IsScalar]
  | _ => simp [IsScalar]

theorem holds_wrap (h : type.IsScalar) (n : Int) : type.Holds (type.wrap n) := by
  cases type with
  | bool => exact Int.emod_two_eq n
  | int s w =>
    cases s with
    | signed =>
      cases w <;> simp only [Holds, wrap, intRange, IntWidth.bits, IntWidth.bytes, Int.bmod_def,
        Nat.pow_eq] <;> omega
    | unsigned => exact h.elim
  | _ => exact h.elim

theorem wrap_of_holds (h : type.IsScalar) (hn : type.Holds n) : type.wrap n = n := by
  cases type with
  | bool => rcases hn with rfl | rfl <;> rfl
  | int s w =>
    cases s with
    | signed =>
      cases w <;> simp only [Holds, intRange, IntWidth.bits, IntWidth.bytes, Nat.pow_eq] at hn <;>
        simp only [wrap, IntWidth.bits, IntWidth.bytes, Int.bmod_def, Nat.pow_eq] <;> omega
    | unsigned => exact h.elim
  | _ => exact h.elim

/-- A wider signed type holds what a narrower one holds. -/
theorem holds_of_narrower {w w' : IntWidth} (hw : w.bits ≤ w'.bits)
    (hn : (int .signed w).Holds n) : (int .signed w').Holds n := by
  cases w <;> cases w' <;>
    simp only [Holds, intRange, IntWidth.bits, IntWidth.bytes, Nat.pow_eq] at hw hn ⊢ <;> omega

theorem fits_iff {s : Signedness} {w : IntWidth} {n : Int64} :
    (int s w).fits n = true ↔ (int s w).Holds n.toInt := by
  simp [fits, Holds]

@[simp] theorem holds_bool (b : Bool) : bool.Holds b.toInt := by cases b <;> simp [Holds]

end MachineType

/-- What a run does that can be seen from outside. -/
inductive Event where
  | store (address : Int) (type : MachineType) (value : Int)
  | call (callee : String) (args : List (MachineType × Int))
deriving DecidableEq

/-- The memory, and what was done so far. -/
structure World where
  memory : Int → Int
  events : List Event

namespace World

/-- The value of a type that the memory holds. -/
def load (w : World) (address : Int) (type : MachineType) : Int :=
  type.wrap (w.memory address)

/-- Put a value into the memory. -/
def store (w : World) (address : Int) (type : MachineType) (value : Int) : World where
  memory := Function.update w.memory address value
  events := w.events ++ [.store address type value]

end World

/-- What code runs in: the addresses of the global variables, and the functions. A function
returns a number and leaves a memory, which may depend on all that was done before. -/
structure Surroundings where
  address : String → Int
  respond : World → String → List (MachineType × Int) → Int × (Int → Int)

namespace Surroundings

/-- Call a function, and take its result at a type. -/
def call (m : Surroundings) (w : World) (callee : String) (type : MachineType)
    (args : List (MachineType × Int)) : Int × World :=
  let (result, memory) := m.respond w callee args
  (type.wrap result, ⟨memory, w.events ++ [.call callee args]⟩)

end Surroundings

/-- The numbers that the temporaries hold. -/
abbrev Temps := Nat → Int

namespace Opcode

/-- The result of an operation on two values of a type, if it has one. -/
def evaluate? : Opcode → MachineType → Int → Int → Option Int
  | .add, type, x, y => some (type.wrap (x + y))
  | .sub, type, x, y => some (type.wrap (x - y))
  | .mul, type, x, y => some (type.wrap (x * y))
  | .sdiv, type, x, y => if y = 0 ∨ ¬ type.Holds (x.tdiv y) then none else some (x.tdiv y)
  | .srem, type, x, y =>
    if y = 0 ∨ ¬ type.Holds (x.tdiv y) then none else some (type.wrap (x.tmod y))
  | .and, .bool, x, y => some (decide (x ≠ 0) && decide (y ≠ 0)).toInt
  | .or, .bool, x, y => some (decide (x ≠ 0) || decide (y ≠ 0)).toInt
  | .xor, .bool, x, y => some (decide (x ≠ 0) ^^ decide (y ≠ 0)).toInt
  | .eq, _, x, y => some (decide (x = y)).toInt
  | .ne, _, x, y => some (decide (x ≠ y)).toInt
  | .slt, _, x, y => some (decide (x < y)).toInt
  | .sle, _, x, y => some (decide (x ≤ y)).toInt
  | .sgt, _, x, y => some (decide (y < x)).toInt
  | .sge, _, x, y => some (decide (y ≤ x)).toInt
  | _, _, _, _ => none

end Opcode

/-- A machine in the middle of a function: the block that it executes, the number of the next
instruction there, and the block that it came from. -/
structure Machine where
  label : Nat
  index : Nat
  previous : Option Nat
  temps : Temps
  world : World

namespace Machine

/-- The machine behind an instruction with a result. -/
def define (σ : Machine) (t : Nat) (n : Int) (w : World) : Machine :=
  { σ with index := σ.index + 1, temps := Function.update σ.temps t n, world := w }

/-- The machine behind an instruction without a result. -/
def pass (σ : Machine) (w : World) : Machine := { σ with index := σ.index + 1, world := w }

/-- The machine at the beginning of another block. -/
def enter (σ : Machine) (label : Nat) : Machine :=
  { σ with label, index := 0, previous := some σ.label }

end Machine

namespace Surroundings

variable (m : Surroundings)

/-- The number that an operand stands for. -/
def operand? (ρ : Temps) : Value → Option Int
  | .temp t => some (ρ t)
  | .int n => some n.toInt
  | .bool b => some b.toInt
  | .global name => some (m.address name)
  | _ => none

/-- The arguments of a call. -/
def operands? (ρ : Temps) : List (MachineType × Value) → Option (List (MachineType × Int))
  | [] => some []
  | (type, v) :: rest => do
    let n ← m.operand? ρ v
    return (type, n) :: (← operands? ρ rest)

/-- The operand of a phi that belongs to a block. -/
def incoming? (previous : Option Nat) (incoming : List (Value × Nat)) : Option Value :=
  (incoming.find? fun entry => some entry.2 = previous).map Prod.fst

/-- Execute an instruction, if it can be executed. -/
def execute? (σ : Machine) : Instr → Option Machine
  | .binary result op lhs rhs type => do
    let x ← m.operand? σ.temps lhs
    let y ← m.operand? σ.temps rhs
    return σ.define result (← op.evaluate? type x y) σ.world
  | .load result ptr type => do
    let address ← m.operand? σ.temps ptr
    return σ.define result (σ.world.load address type) σ.world
  | .store value ptr type => do
    let n ← m.operand? σ.temps value
    let address ← m.operand? σ.temps ptr
    return σ.pass (σ.world.store address type n)
  | .call (some result) (.function callee) (.function type _ _) args => do
    let args ← m.operands? σ.temps args
    let (n, w) := m.call σ.world callee type args
    return σ.define result n w
  | .jump target => some (σ.enter target)
  | .branch condition ifTrue ifFalse => do
    let n ← m.operand? σ.temps condition
    return σ.enter (if n ≠ 0 then ifTrue else ifFalse)
  | .phi result incoming _ => do
    let n ← m.operand? σ.temps (← incoming? σ.previous incoming)
    return σ.define result n σ.world
  | .convert result .sext value _ target => do
    let n ← m.operand? σ.temps value
    return σ.define result (target.wrap n) σ.world
  | _ => none

/-- Whether an instruction is next. -/
def Next (f : FunctionDef) (σ : Machine) (i : Instr) : Prop :=
  ∃ b, f.block? σ.label = some b ∧ b.body[σ.index]? = some i

/-- One step in a function. -/
def Step (f : FunctionDef) (σ σ' : Machine) : Prop :=
  ∃ i, Next f σ i ∧ m.execute? σ i = some σ'

/-- Some steps in a function. -/
abbrev Runs (f : FunctionDef) : Machine → Machine → Prop := Relation.ReflTransGen (m.Step f)

/-- The next instruction cannot be executed. -/
def Stuck (f : FunctionDef) (σ : Machine) : Prop := ∃ i, Next f σ i ∧ m.execute? σ i = none

variable {m} {f : FunctionDef} {σ σ' σ'' : Machine} {i j : Instr}

theorem Next.unique (h : Next f σ i) (h' : Next f σ j) : i = j := by
  obtain ⟨b, hb, hi⟩ := h
  obtain ⟨b', hb', hj⟩ := h'
  obtain rfl := Option.some.inj (hb.symm.trans hb')
  exact Option.some.inj (hi.symm.trans hj)

/-- A machine has one way to go. -/
theorem Step.unique (h : m.Step f σ σ') (h' : m.Step f σ σ'') : σ' = σ'' := by
  obtain ⟨i, hi, hσ'⟩ := h
  obtain ⟨j, hj, hσ''⟩ := h'
  obtain rfl := hi.unique hj
  exact Option.some.inj (hσ'.symm.trans hσ'')

/-- A machine that is stuck does not go on. -/
theorem Stuck.not_step (h : m.Stuck f σ) : ¬ m.Step f σ σ' := by
  rintro ⟨j, hj, hσ'⟩
  obtain ⟨i, hi, hnone⟩ := h
  obtain rfl := hi.unique hj
  simp [hnone] at hσ'

end Surroundings

end SsaLowering
