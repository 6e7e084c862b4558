import SsaLowering.Proofs.Front

/-!
# The actions of the builder at the front of a function

Each action succeeds there, and leaves a builder that is again at the front.
-/

namespace SsaLowering

namespace FunctionDef

/-- The function after a stack slot was put into its entry block. -/
def withSlot (f : FunctionDef) (slot : Instr) : FunctionDef :=
  match f.blocks with
  | [] => f
  | entry :: rest => { f with blocks := Build.insertSlot slot entry :: rest }

variable {f : FunctionDef} {entry : Block} {rest : List Block}

theorem withSlot_of_nil (h : f.blocks = []) (slot : Instr) : f.withSlot slot = f := by
  simp [withSlot, h]

theorem withSlot_of_cons (h : f.blocks = entry :: rest) (slot : Instr) :
    f.withSlot slot = { f with blocks := Build.insertSlot slot entry :: rest } := by
  simp [withSlot, h]

@[simp] theorem labels_withSlot (f : FunctionDef) (slot : Instr) :
    (f.withSlot slot).labels = f.labels := by
  cases h : f.blocks with
  | nil => rw [withSlot_of_nil h]
  | cons entry rest => simp [withSlot_of_cons h, labels, h, Build.insertSlot]

/-- Only the first block has changed. -/
@[simp] theorem tail_blocks_withSlot (f : FunctionDef) (slot : Instr) :
    (f.withSlot slot).blocks.tail = f.blocks.tail := by
  cases h : f.blocks with
  | nil => rw [withSlot_of_nil h, h]
  | cons entry rest => rw [withSlot_of_cons h, List.tail_cons, List.tail_cons]

end FunctionDef

namespace Block

variable {b : Block} {slot : Instr}

theorem body_insertSlot (h : b.body = b.slots ++ b.code) :
    (Build.insertSlot slot b).body = b.slots ++ slot :: b.code := by
  simp [Build.insertSlot, (takeWhile_of_slots_first h).1, (takeWhile_of_slots_first h).2]

theorem slots_insertSlot (h : b.body = b.slots ++ b.code) (hslot : slot.isAlloca = true) :
    (Build.insertSlot slot b).slots = b.slots ++ [slot] := by
  rw [slots, body_insertSlot h]
  simp [hslot, slots, code]

theorem code_insertSlot (h : b.body = b.slots ++ b.code) (hslot : slot.isAlloca = true) :
    (Build.insertSlot slot b).code = b.code := by
  rw [code, body_insertSlot h]
  simp [hslot, slots, code]

/-- A stack slot never stands at the end of a block that has left. -/
theorem isTerminated_of_slots_first (h : b.body = b.slots ++ b.code) :
    b.isTerminated = (b.code.getLast?.filter (·.isTerminator)).isSome := by
  rw [isTerminated, terminator?, h, List.getLast?_append]
  cases hc : b.code.getLast? with
  | some i => simp
  | none =>
    cases hs : b.slots.getLast? with
    | none => simp
    | some i =>
      have hi : i.isAlloca = true := (mem_slots.mp (List.mem_of_getLast? hs)).2
      have hterm : i.isTerminator = false := by
        cases i <;> simp_all [Instr.isAlloca, Instr.isTerminator]
      simp [hterm]

theorem isTerminated_insertSlot (h : b.body = b.slots ++ b.code)
    (hslot : slot.isAlloca = true) :
    (Build.insertSlot slot b).isTerminated = b.isTerminated := by
  rw [isTerminated_of_slots_first h, isTerminated_of_slots_first, code_insertSlot h hslot]
  rw [slots_insertSlot h hslot, code_insertSlot h hslot, body_insertSlot h]
  simp

end Block

namespace FunctionDef

variable {f : FunctionDef} {t : Nat} {type : MachineType}

/-- The slots are still in front of the code. -/
theorem slots_first_withSlot (h : ∀ c ∈ f.blocks, c.body = c.slots ++ c.code) {slot : Instr}
    (hslot : slot.isAlloca = true) :
    ∀ c ∈ (f.withSlot slot).blocks, c.body = c.slots ++ c.code := by
  cases hblocks : f.blocks with
  | nil =>
    rw [withSlot_of_nil hblocks]
    exact h
  | cons entry rest =>
    have hentry : entry.body = entry.slots ++ entry.code := h entry (by simp [hblocks])
    rw [withSlot_of_cons hblocks]
    intro c hc
    rcases List.mem_cons.mp hc with rfl | hc
    · rw [Block.body_insertSlot hentry, Block.slots_insertSlot hentry hslot,
        Block.code_insertSlot hentry hslot, List.append_assoc, List.singleton_append]
    · exact h c (by simp [hblocks, hc])

/-- The address of the slot is the one thing that is defined in addition. -/
theorem perm_definitions_withSlot {entry : Block} {rest : List Block}
    (hblocks : f.blocks = entry :: rest) (hentry : entry.body = entry.slots ++ entry.code) :
    ((f.withSlot (.alloca t type)).definitions).Perm (t :: f.definitions) := by
  have hbody : ((Build.insertSlot (.alloca t type) entry).body.filterMap (·.result?)).Perm
      (t :: entry.body.filterMap (·.result?)) := by
    rw [Block.body_insertSlot hentry, hentry]
    simp only [List.filterMap_append, List.filterMap_cons, Instr.result?]
    exact List.perm_middle
  simp only [withSlot_of_cons hblocks, definitions, results, parameters, hblocks,
    List.flatMap_cons]
  exact ((hbody.append_right _).append_left _).trans List.perm_middle

end FunctionDef

namespace FunctionBuilder.Front

variable {b : FunctionBuilder} {f : FunctionDef} {done : List Block} {last : Block}

/-- There is an entry block, and its slots are in front. -/
theorem exists_entry (h : b.Front f done last) :
    ∃ entry rest, f.blocks = entry :: rest ∧ entry.body = entry.slots ++ entry.code := by
  have hfirst := h.slots_first
  cases hblocks : f.blocks with
  | nil => simp [h.blocks] at hblocks
  | cons entry rest => exact ⟨entry, rest, rfl, hfirst entry (by simp [hblocks])⟩

/-- A stack slot with a fresh address leaves what a builder at the front relies on. -/
theorem of_withSlot (h : b.Front f done last) {t : Nat} {type : MachineType}
    (ht : t ∉ f.definitions) (hlt : t < b.nextTemp) {done' : List Block} {last' : Block}
    (hdone : (f.withSlot (.alloca t type)).blocks = done' ++ [last'])
    (hlast : last'.label = last.label) :
    { b with function := some (f.withSlot (.alloca t type)) }.Front
      (f.withSlot (.alloca t type)) done' last' where
  function := rfl
  blocks := hdone
  current := hlast ▸ h.current
  labels_nodup := by
    rw [FunctionDef.labels_withSlot]
    exact h.labels_nodup
  labels_lt := by
    rw [FunctionDef.labels_withSlot]
    exact h.labels_lt
  slots_first := FunctionDef.slots_first_withSlot h.slots_first rfl
  slots_entry := by
    rw [FunctionDef.tail_blocks_withSlot]
    exact h.slots_entry
  definitions_nodup := by
    obtain ⟨entry, rest, hblocks, hentry⟩ := h.exists_entry
    rw [(FunctionDef.perm_definitions_withSlot hblocks hentry).nodup_iff]
    exact List.nodup_cons.mpr ⟨ht, h.definitions_nodup⟩
  definitions_lt := by
    obtain ⟨entry, rest, hblocks, hentry⟩ := h.exists_entry
    intro t' ht'
    have hmem := (FunctionDef.perm_definitions_withSlot hblocks hentry).mem_iff.mp ht'
    rcases List.mem_cons.mp hmem with rfl | ht'
    · exact hlt
    · exact h.definitions_lt t' ht'

/-- A stack slot with a fresh address keeps a builder at the front, and its last block as
open or closed as it was. -/
theorem withSlot (h : b.Front f done last) {t : Nat} (type : MachineType)
    (ht : t ∉ f.definitions) (hlt : t < b.nextTemp) :
    ∃ done' last', { b with function := some (f.withSlot (.alloca t type)) }.Front
        (f.withSlot (.alloca t type)) done' last' ∧
      last'.label = last.label ∧ last'.isTerminated = last.isTerminated := by
  obtain ⟨entry, rest, hblocks, hentry⟩ := h.exists_entry
  have hwith := FunctionDef.withSlot_of_cons hblocks (.alloca t type)
  have hsplit := h.blocks
  cases done with
  | nil =>
    simp only [hblocks, List.nil_append, List.cons.injEq] at hsplit
    obtain ⟨rfl, rfl⟩ := hsplit
    exact ⟨[], Build.insertSlot (.alloca t type) entry,
      h.of_withSlot ht hlt (by simp [hwith]) rfl, rfl, Block.isTerminated_insertSlot hentry rfl⟩
  | cons e done =>
    simp only [hblocks, List.cons_append, List.cons.injEq] at hsplit
    obtain ⟨rfl, rfl⟩ := hsplit
    exact ⟨Build.insertSlot (.alloca t type) entry :: done, last,
      h.of_withSlot ht hlt (by simp [hwith]) rfl, rfl, rfl⟩

/-- A stack slot adds no line, and its address can be read everywhere. -/
theorem grows_withSlot (h : b.Front f done last) (t : Nat) (type : MachineType) :
    b.Grows { b with function := some (f.withSlot (.alloca t type)) } [] ∧
      t ∈ { b with function := some (f.withSlot (.alloca t type)) }.base := by
  obtain ⟨entry, rest, hblocks, hentry⟩ := h.exists_entry
  have hwith := FunctionDef.withSlot_of_cons hblocks (.alloca t type)
  have hslots : (Build.insertSlot (.alloca t type) entry).slots = entry.slots ++ [.alloca t type] :=
    Block.slots_insertSlot hentry rfl
  have hcode : (Build.insertSlot (.alloca t type) entry).code = entry.code :=
    Block.code_insertSlot hentry rfl
  refine ⟨⟨?_, ?_, ?_, Nat.le_refl _⟩, ?_⟩
  · have hlisting : (Build.insertSlot (.alloca t type) entry).listing = entry.listing := by
      rw [Block.listing, hcode, Block.listing]
      rfl
    simp [listing, h.function, hwith, hblocks, FunctionDef.listing, hlisting]
  · intro g hg
    rw [h.function] at hg
    obtain rfl := Option.some.inj hg
    exact ⟨Build.insertSlot (.alloca t type) entry :: rest, by simp [hwith]⟩
  · rintro t' ht'
    refine ⟨_, rfl, ?_⟩
    rcases h.mem_base.mp ht' with ht' | ht'
    · left
      simpa [hwith, FunctionDef.parameters] using ht'
    · right
      simp only [FunctionDef.slots, hblocks, List.flatMap_cons, List.mem_append] at ht'
      simp only [hwith, FunctionDef.slots, List.flatMap_cons, hslots,
        List.filterMap_append, List.mem_append]
      tauto
  · refine ⟨_, rfl, .inr ?_⟩
    simp [hwith, FunctionDef.slots, hslots, Instr.result?]

end FunctionBuilder.Front

namespace Build

variable {b : FunctionBuilder} {f : FunctionDef} {done : List Block} {last : Block}

open FunctionBuilder (Front)

theorem exec_function (h : b.function = some f) : exec function b = (.ok f, b) := by
  simp [function, exec_bind, h]

/-- An instruction is added at the end of the current block, if that is open. -/
theorem exec_emit_of_open {l : Nat} {c : Block} (hf : b.function = some f)
    (hl : b.current = some l) (hc : f.block? l = some c) (ho : c.isTerminated = false)
    (i : Instr) :
    exec (emit i) b = (.ok (), { b with function := some (f.modifyBlock l (·.push i)) }) := by
  simp [emit, exec_bind, exec_function hf, hl, hc, ho]

theorem exec_emit (h : b.Front f done last) (ho : last.isTerminated = false) (i : Instr) :
    exec (emit i) b = (.ok (), Front.pushed b f done last i) := by
  have hnot : last.label ∉ done.map (·.label) := by
    have hnodup := h.labels_nodup
    simp only [FunctionDef.labels, h.blocks, List.map_append, List.nodup_append] at hnodup
    intro hmem
    exact hnodup.2.2 _ hmem _ (by simp) rfl
  have hmodify : FunctionDef.modifyFirst last.label (·.push i) (done ++ [last]) =
      done ++ [last.push i] := FunctionDef.modifyFirst_append_of_not_mem rfl hnot
  rw [exec_emit_of_open h.function h.current h.block?_last ho, FunctionDef.modifyBlock, h.blocks,
    hmodify]
  rfl

theorem exec_createBlock (hf : b.function = some f) {l : Nat} (hl : l ∉ f.labels)
    (hint : String) :
    exec (createBlock l hint) b = (.ok (), Front.opened b f l hint) := by
  have hnone : f.block? l = none := FunctionDef.block?_eq_none.mpr hl
  simp [createBlock, exec_bind, exec_function hf, hnone, Front.opened]

theorem exec_entryAlloca (h : b.Front f done last) (type : MachineType) :
    exec (entryAlloca type) b = (.ok (.temp b.nextTemp),
      { b with
        nextTemp := b.nextTemp + 1
        function := some (f.withSlot (.alloca b.nextTemp type)) }) := by
  obtain ⟨entry, rest, hblocks⟩ : ∃ entry rest, f.blocks = entry :: rest := by
    rw [h.blocks]
    cases done <;> simp
  have hf : { b with nextTemp := b.nextTemp + 1 }.function = some f := h.function
  simp [entryAlloca, newTemp, exec_bind, exec_map, exec_function hf, hblocks,
    FunctionDef.withSlot]

end Build

end SsaLowering
