import SsaLowering.Code.FunctionBuilder
import Mathlib.Data.Set.Basic
import Mathlib.Data.List.Nodup

/-!
# Functions written out

A function written out is one list: every block is its label followed by its instructions.
Stack slots are listed apart, since they stand in front of the entry block and can be added
at any time. What a function defines and reads is read off its instructions.
-/

namespace SsaLowering

/-- The temporaries that an operand names. -/
def Value.temps (v : Value) : Set Nat := {t | v = .temp t}

namespace Value

@[simp] theorem mem_temps {v : Value} {t : Nat} : t ∈ v.temps ↔ v = .temp t := Iff.rfl

/-- An operand that is no temporary names none. -/
theorem temps_eq_empty {v : Value} (h : ∀ t, v ≠ .temp t) : v.temps = ∅ := by
  ext t
  simp [h t]

end Value

namespace Instr

/-- The temporaries that an instruction reads. -/
def temps (i : Instr) : Set Nat := {t | .temp t ∈ i.operands}

@[simp] theorem mem_temps {i : Instr} {t : Nat} : t ∈ i.temps ↔ .temp t ∈ i.operands := Iff.rfl

/-- Whether an instruction stands inside a block and reads its operands where it stands. -/
def isPlain (i : Instr) : Bool := !i.isTerminator && !i.isPhi && !i.isAlloca

theorem isPlain_iff {i : Instr} :
    i.isPlain = true ↔ i.isTerminator = false ∧ i.isPhi = false ∧ i.isAlloca = false := by
  simp [isPlain, and_assoc]

theorem isAlloca_eq_false_of_isTerminator {i : Instr} (h : i.isTerminator = true) :
    i.isAlloca = false := by
  cases i <;> simp_all [isTerminator, isAlloca]

theorem isPhi_eq_false_of_isTerminator {i : Instr} (h : i.isTerminator = true) :
    i.isPhi = false := by
  cases i <;> simp_all [isTerminator, isPhi]

theorem result?_eq_none_of_isTerminator {i : Instr} (h : i.isTerminator = true) :
    i.result? = none := by
  cases i <;> simp_all [isTerminator, result?]

/-- Only terminators lead to other blocks. -/
theorem successors_eq_nil {i : Instr} (h : i.isTerminator = false) : i.successors = [] := by
  cases i <;> simp_all [isTerminator, successors]

end Instr

/-- A line of a function that is written out. -/
inductive Item where
  | label (label : Nat)
  | instr (i : Instr)
deriving DecidableEq

namespace Item

def label? : Item → Option Nat
  | .label l => some l
  | .instr _ => none

end Item

namespace Block

/-- The instructions of a block, its stack slots left out. -/
def code (b : Block) : List Instr := b.body.filter (!·.isAlloca)

/-- The stack slots of a block. -/
def slots (b : Block) : List Instr := b.body.filter (·.isAlloca)

/-- A block written out. -/
def listing (b : Block) : List Item := .label b.label :: b.code.map .instr

@[simp] theorem label_push (b : Block) (i : Instr) : (b.push i).label = b.label := rfl

@[simp] theorem body_push (b : Block) (i : Instr) : (b.push i).body = b.body ++ [i] := rfl

theorem code_push (b : Block) {i : Instr} (h : i.isAlloca = false) :
    (b.push i).code = b.code ++ [i] := by
  simp [code, h]

theorem slots_push (b : Block) {i : Instr} (h : i.isAlloca = false) :
    (b.push i).slots = b.slots := by
  simp [slots, h]

theorem listing_push (b : Block) {i : Instr} (h : i.isAlloca = false) :
    (b.push i).listing = b.listing ++ [.instr i] := by
  simp [listing, code_push b h]

@[simp] theorem isTerminated_push (b : Block) (i : Instr) :
    (b.push i).isTerminated = i.isTerminator := by
  cases h : i.isTerminator <;> simp [isTerminated, terminator?, Option.filter, h]

@[simp] theorem label_fresh (l : Nat) (hint : String) : (fresh l hint).label = l := rfl

@[simp] theorem slots_fresh (l : Nat) (hint : String) : (fresh l hint).slots = [] := rfl

@[simp] theorem code_fresh (l : Nat) (hint : String) : (fresh l hint).code = [] := rfl

@[simp] theorem body_fresh (l : Nat) (hint : String) : (fresh l hint).body = [] := rfl

@[simp] theorem listing_fresh (l : Nat) (hint : String) :
    (fresh l hint).listing = [.label l] := rfl

@[simp] theorem isTerminated_fresh (l : Nat) (hint : String) :
    (fresh l hint).isTerminated = false := rfl

theorem mem_code {b : Block} {i : Instr} : i ∈ b.code ↔ i ∈ b.body ∧ i.isAlloca = false := by
  simp [code]

theorem mem_slots {b : Block} {i : Instr} : i ∈ b.slots ↔ i ∈ b.body ∧ i.isAlloca = true := by
  simp [slots]

/-- A block whose slots come first is its slots and then its code. -/
theorem takeWhile_of_slots_first {b : Block} (h : b.body = b.slots ++ b.code) :
    b.body.takeWhile (·.isAlloca) = b.slots ∧ b.body.dropWhile (·.isAlloca) = b.code := by
  have hs : ∀ i ∈ b.slots, i.isAlloca = true := fun i hi => (mem_slots.mp hi).2
  have hc : ∀ i ∈ b.code, i.isAlloca = false := fun i hi => (mem_code.mp hi).2
  have htake : b.code.takeWhile (·.isAlloca) = [] := by
    cases hcode : b.code with
    | nil => rfl
    | cons i rest => simp [hc i (by simp [hcode])]
  have hdrop : b.code.dropWhile (·.isAlloca) = b.code := by
    cases hcode : b.code with
    | nil => rfl
    | cons i rest => simp [hc i (by simp [hcode])]
  rw [h]
  constructor
  · rw [List.takeWhile_append_of_pos hs, htake, List.append_nil]
  · rw [List.dropWhile_append_of_pos hs, hdrop]

end Block

namespace FunctionDef

/-- The labels of the blocks, in order. -/
def labels (f : FunctionDef) : List Nat := f.blocks.map (·.label)

/-- A function written out, its stack slots left out. -/
def listing (f : FunctionDef) : List Item := f.blocks.flatMap Block.listing

/-- The temporaries that hold the addresses of the stack slots. -/
def slots (f : FunctionDef) : List Nat :=
  f.blocks.flatMap fun b => b.slots.filterMap (·.result?)

/-- The temporaries of the parameters. -/
def parameters (f : FunctionDef) : List Nat := f.params.map Prod.fst

/-- The results of all instructions. -/
def results (f : FunctionDef) : List Nat :=
  f.blocks.flatMap fun b => b.body.filterMap (·.result?)

/-- Every temporary that the function defines, as a parameter or as a result. -/
def definitions (f : FunctionDef) : List Nat := f.parameters ++ f.results

/-- The labels in a written-out function are those of its blocks. -/
theorem filterMap_label?_listing (f : FunctionDef) :
    f.listing.filterMap Item.label? = f.labels := by
  have h (b : Block) : b.listing.filterMap Item.label? = [b.label] := by
    have hcode : (b.code.map Item.instr).filterMap Item.label? = [] := by
      simp [List.filterMap_map, Function.comp_def, Item.label?]
    simp [Block.listing, Item.label?, hcode]
  simp only [listing, labels]
  induction f.blocks with
  | nil => rfl
  | cons b rest ih => simp [List.filterMap_append, h, ih]

/-- A label is found in exactly the first block that has it. -/
theorem block?_append_of_not_mem {f : FunctionDef} {done rest : List Block} {b : Block}
    (hf : f.blocks = done ++ b :: rest) (h : b.label ∉ done.map (·.label)) :
    f.block? b.label = some b := by
  have hdone : done.find? (·.label == b.label) = none := by
    simp only [List.find?_eq_none, beq_iff_eq]
    intro c hc heq
    exact h (List.mem_map.mpr ⟨c, hc, heq⟩)
  simp [block?, hf, List.find?_append, hdone]

/-- With distinct labels, a block is found under its label. -/
theorem block?_of_mem {f : FunctionDef} (hf : f.labels.Nodup) {b : Block}
    (hb : b ∈ f.blocks) : f.block? b.label = some b := by
  obtain ⟨done, rest, h⟩ := List.append_of_mem hb
  apply block?_append_of_not_mem h
  simp only [labels, h, List.map_append, List.map_cons, List.nodup_append] at hf
  intro hmem
  exact hf.2.2 _ hmem _ (by simp) rfl

theorem block?_eq_none {f : FunctionDef} {l : Nat} : f.block? l = none ↔ l ∉ f.labels := by
  simp [block?, labels]

theorem modifyFirst_append_of_not_mem {l : Nat} {change : Block → Block} {done rest : List Block}
    {b : Block} (hb : b.label = l) (h : l ∉ done.map (·.label)) :
    modifyFirst l change (done ++ b :: rest) = done ++ change b :: rest := by
  induction done with
  | nil => simp [modifyFirst, hb]
  | cons c done ih =>
    simp only [List.map_cons, List.mem_cons, not_or] at h
    have hc : (c.label == l) = false := by
      simp only [beq_eq_false_iff_ne]
      exact fun heq => h.1 heq.symm
    simp [modifyFirst, hc, ih h.2]

/-- The block that is changed is the one that is found. -/
theorem exists_modifyBlock {f : FunctionDef} {l : Nat} {b : Block} (hb : f.block? l = some b)
    (change : Block → Block) : ∃ done rest, f.blocks = done ++ b :: rest ∧
      (f.modifyBlock l change).blocks = done ++ change b :: rest := by
  obtain ⟨hlabel, done, rest, hblocks, hdone⟩ := List.find?_eq_some_iff_append.mp hb
  have hnot : l ∉ done.map (·.label) := by
    intro hmem
    obtain ⟨c, hc, rfl⟩ := List.mem_map.mp hmem
    simpa using hdone c hc
  refine ⟨done, rest, hblocks, ?_⟩
  rw [modifyBlock, hblocks]
  exact modifyFirst_append_of_not_mem (by simpa using hlabel) hnot

end FunctionDef

end SsaLowering
