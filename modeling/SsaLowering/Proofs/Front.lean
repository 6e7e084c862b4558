import SsaLowering.Proofs.Action
import SsaLowering.Proofs.Listing

/-!
# Builders at the front of a function

The lowering only ever writes at the end of a function: its current block is the last one,
and every label and temporary in use was drawn before. In such a builder no action can fail
for want of a block or for a repeated label, and each action extends the written-out
function by the line it stands for. A stack slot is the exception: it goes to the entry
block and leaves the written-out function as it was.
-/

namespace SsaLowering

namespace FunctionBuilder

variable {b : FunctionBuilder} {f : FunctionDef} {done : List Block} {last : Block}

/-- The function under construction, written out. -/
def listing (b : FunctionBuilder) : List Item :=
  match b.function with
  | some f => f.listing
  | none => []

/-- The label of the current block. -/
def here (b : FunctionBuilder) : Nat := b.current.getD 0

/-- The temporaries that can be read everywhere: parameters and addresses of stack slots. -/
def base (b : FunctionBuilder) : Set Nat :=
  {t | ∃ f, b.function = some f ∧ (t ∈ f.parameters ∨ t ∈ f.slots)}

/-- The builder writes at the end of a function: after the blocks `done`, in the block
`last`. -/
structure Front (b : FunctionBuilder) (f : FunctionDef) (done : List Block) (last : Block) :
    Prop where
  function : b.function = some f
  blocks : f.blocks = done ++ [last]
  current : b.current = some last.label
  labels_nodup : f.labels.Nodup
  labels_lt : ∀ l ∈ f.labels, l < b.nextLabel
  slots_first : ∀ c ∈ f.blocks, c.body = c.slots ++ c.code
  slots_entry : ∀ c ∈ f.blocks.tail, c.slots = []
  definitions_nodup : f.definitions.Nodup
  definitions_lt : ∀ t ∈ f.definitions, t < b.nextTemp

/-- One builder comes from another by writing some lines. The signature of the function
stays as it is, and what can be read everywhere stays readable. -/
structure Grows (b b' : FunctionBuilder) (lines : List Item) : Prop where
  listing : b'.listing = b.listing ++ lines
  signature : ∀ f, b.function = some f → ∃ blocks, b'.function = some { f with blocks }
  base : b.base ⊆ b'.base
  labels : b.nextLabel ≤ b'.nextLabel

namespace Grows

theorem refl (b : FunctionBuilder) : b.Grows b [] where
  listing := by simp
  signature f hf := ⟨f.blocks, hf⟩
  base := fun _ h => h
  labels := Nat.le_refl _

theorem trans {b b' b'' : FunctionBuilder} {x y : List Item} (h : b.Grows b' x)
    (h' : b'.Grows b'' y) : b.Grows b'' (x ++ y) where
  listing := by rw [h'.listing, h.listing, List.append_assoc]
  signature f hf := by
    obtain ⟨bs, hbs⟩ := h.signature f hf
    obtain ⟨bs', hbs'⟩ := h'.signature _ hbs
    exact ⟨bs', hbs'⟩
  base := fun _ ht => h'.base (h.base ht)
  labels := Nat.le_trans h.labels h'.labels

end Grows

namespace Front

theorem here_eq (h : b.Front f done last) : b.here = last.label := by
  simp [here, h.current]

theorem listing_eq (h : b.Front f done last) : b.listing = f.listing := by
  simp [listing, h.function]

theorem block?_last (h : b.Front f done last) : f.block? last.label = some last := by
  apply FunctionDef.block?_of_mem h.labels_nodup
  simp [h.blocks]

theorem isTerminated_eq (h : b.Front f done last) : b.isTerminated = last.isTerminated := by
  simp [isTerminated, h.function, h.current, h.block?_last]

theorem last_label_mem (h : b.Front f done last) : last.label ∈ f.labels := by
  simp [FunctionDef.labels, h.blocks]

theorem mem_base (h : b.Front f done last) {t : Nat} :
    t ∈ b.base ↔ t ∈ f.parameters ∨ t ∈ f.slots := by
  constructor
  · rintro ⟨f', hf', ht⟩
    rw [h.function] at hf'
    obtain rfl := Option.some.inj hf'
    exact ht
  · intro ht
    exact ⟨f, h.function, ht⟩

/-- Drawing numbers keeps a builder at the front. -/
theorem draw (h : b.Front f done last) {m n : Nat} (hm : b.nextTemp ≤ m)
    (hn : b.nextLabel ≤ n) :
    { b with nextTemp := m, nextLabel := n }.Front f done last where
  function := h.function
  blocks := h.blocks
  current := h.current
  labels_nodup := h.labels_nodup
  labels_lt l hl := Nat.lt_of_lt_of_le (h.labels_lt l hl) hn
  slots_first := h.slots_first
  slots_entry := h.slots_entry
  definitions_nodup := h.definitions_nodup
  definitions_lt t ht := Nat.lt_of_lt_of_le (h.definitions_lt t ht) hm

/-- The builder after an instruction was added to the last block. -/
def pushed (b : FunctionBuilder) (f : FunctionDef) (done : List Block) (last : Block)
    (i : Instr) : FunctionBuilder :=
  { b with function := some { f with blocks := done ++ [last.push i] } }

theorem definitions_push (hf : f.blocks = done ++ [last]) (i : Instr) :
    { f with blocks := done ++ [last.push i] }.definitions =
      f.definitions ++ i.result?.toList := by
  have hlist : List.filterMap (·.result?) [i] = i.result?.toList := by
    cases h : i.result? <;> simp [List.filterMap, h]
  simp [FunctionDef.definitions, FunctionDef.parameters, FunctionDef.results, hf,
    List.filterMap_append, hlist]

/-- An instruction with a fresh result keeps the builder at the front. -/
theorem push (h : b.Front f done last) {i : Instr} (hi : i.isAlloca = false)
    (hr : ∀ t, i.result? = some t → t ∉ f.definitions ∧ t < b.nextTemp) :
    (pushed b f done last i).Front { f with blocks := done ++ [last.push i] } done
      (last.push i) where
  function := rfl
  blocks := rfl
  current := h.current
  labels_nodup := by simpa [FunctionDef.labels, h.blocks] using h.labels_nodup
  labels_lt := by simpa [pushed, FunctionDef.labels, h.blocks] using h.labels_lt
  slots_first := by
    have hf := h.slots_first
    simp only [h.blocks, List.mem_append, List.mem_singleton] at hf ⊢
    rintro c (hc | rfl)
    · exact hf c (.inl hc)
    · have hlast := hf last (.inr rfl)
      rw [Block.slots_push _ hi, Block.code_push _ hi, Block.body_push, ← List.append_assoc,
        ← hlast]
  slots_entry := by
    have hf := h.slots_entry
    cases done with
    | nil => simp
    | cons e done =>
      simp only [h.blocks, List.cons_append, List.tail_cons, List.mem_append,
        List.mem_singleton] at hf ⊢
      rintro c (hc | rfl)
      · exact hf c (.inl hc)
      · rw [Block.slots_push _ hi]
        exact hf last (.inr rfl)
  definitions_nodup := by
    rw [definitions_push h.blocks]
    cases hres : i.result? with
    | none => simpa using h.definitions_nodup
    | some t =>
      simp only [Option.toList_some, List.nodup_append, h.definitions_nodup, true_and,
        List.nodup_singleton, List.mem_singleton, forall_eq]
      rintro a ha rfl
      exact (hr a hres).1 ha
  definitions_lt := by
    rw [definitions_push h.blocks]
    intro t ht
    simp only [List.mem_append, Option.mem_toList] at ht
    rcases ht with ht | ht
    · exact h.definitions_lt t ht
    · exact (hr t ht).2

theorem slots_push (hf : f.blocks = done ++ [last]) {i : Instr} (hi : i.isAlloca = false) :
    { f with blocks := done ++ [last.push i] }.slots = f.slots := by
  simp [FunctionDef.slots, hf, Block.slots_push last hi]

/-- An instruction adds one line. -/
theorem grows_push (h : b.Front f done last) {i : Instr} (hi : i.isAlloca = false) :
    b.Grows (pushed b f done last i) [.instr i] where
  listing := by
    simp [listing, h.function, pushed, FunctionDef.listing, h.blocks, Block.listing_push _ hi]
  signature g hg := by
    rw [h.function] at hg
    obtain rfl := Option.some.inj hg
    exact ⟨_, rfl⟩
  base := by
    rintro t ⟨g, hg, ht⟩
    rw [h.function] at hg
    obtain rfl := Option.some.inj hg
    refine ⟨_, rfl, ?_⟩
    rw [slots_push h.blocks hi]
    exact ht
  labels := Nat.le_refl _

/-- The builder after a block was opened. -/
def opened (b : FunctionBuilder) (f : FunctionDef) (l : Nat) (hint : String) :
    FunctionBuilder :=
  { b with function := some { f with blocks := f.blocks ++ [.fresh l hint] }, current := some l }

/-- A block with a label that was drawn but not used keeps the builder at the front. -/
theorem opens (h : b.Front f done last) {l : Nat} (hl : l ∉ f.labels) (hlt : l < b.nextLabel)
    (hint : String) :
    (opened b f l hint).Front { f with blocks := f.blocks ++ [.fresh l hint] } f.blocks
      (.fresh l hint) where
  function := rfl
  blocks := rfl
  current := rfl
  labels_nodup := by
    simp only [FunctionDef.labels, List.map_append, List.map_cons, List.map_nil,
      Block.label_fresh, List.nodup_append, List.nodup_singleton, List.mem_singleton, forall_eq,
      true_and]
    refine ⟨h.labels_nodup, ?_⟩
    rintro a ha rfl
    exact hl ha
  labels_lt := by
    intro l' hl'
    simp only [FunctionDef.labels, List.map_append, List.map_cons, List.map_nil,
      Block.label_fresh, List.mem_append, List.mem_singleton] at hl'
    rcases hl' with hl' | rfl
    · exact h.labels_lt l' hl'
    · exact hlt
  slots_first := by
    intro c hc
    simp only [List.mem_append, List.mem_singleton] at hc
    rcases hc with hc | rfl
    · exact h.slots_first c hc
    · rfl
  slots_entry := by
    intro c hc
    rw [h.blocks, List.append_assoc] at hc
    have htail : f.blocks.tail = (done ++ [last]).tail := by rw [h.blocks]
    have hmem : c ∈ f.blocks.tail ∨ c = .fresh l hint := by
      rw [htail]
      cases done with
      | nil => simpa using hc
      | cons e done => simpa [or_assoc] using hc
    rcases hmem with hc | rfl
    · exact h.slots_entry c hc
    · rfl
  definitions_nodup := by
    simpa [FunctionDef.definitions, FunctionDef.parameters, FunctionDef.results]
      using h.definitions_nodup
  definitions_lt := by
    simpa [opened, FunctionDef.definitions, FunctionDef.parameters, FunctionDef.results]
      using h.definitions_lt

/-- A block adds its label as one line. -/
theorem grows_opens (h : b.Front f done last) (l : Nat) (hint : String) :
    b.Grows (opened b f l hint) [.label l] where
  listing := by simp [listing, h.function, opened, FunctionDef.listing]
  signature g hg := by
    rw [h.function] at hg
    obtain rfl := Option.some.inj hg
    exact ⟨_, rfl⟩
  base := by
    rintro t ⟨g, hg, ht⟩
    rw [h.function] at hg
    obtain rfl := Option.some.inj hg
    refine ⟨_, rfl, ?_⟩
    simpa [FunctionDef.parameters, FunctionDef.slots] using ht
  labels := Nat.le_refl _

end Front

end FunctionBuilder

end SsaLowering
