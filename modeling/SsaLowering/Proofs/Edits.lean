import Mathlib.Logic.Relation
import SsaLowering.Proofs.Building
import SsaLowering.Proofs.Invariant

/-!
# Edits of a function under construction

Whatever is asked of a builder, it does one of five things: it draws numbers, goes on in another
block, adds an empty block, puts an instruction behind an open block, or puts a stack slot into
the entry block. Each of them keeps a function tidy. An action that fails has only drawn numbers.
-/

namespace SsaLowering

namespace FunctionBuilder

/-- One change of a builder. A result is a temporary that was not drawn before. -/
inductive Edit (b : FunctionBuilder) : FunctionBuilder → Prop
  | draw {m n : Nat} : b.nextTemp ≤ m → b.nextLabel ≤ n →
    Edit b { b with nextTemp := m, nextLabel := n }
  | goTo {f : FunctionDef} {l : Nat} : b.function = some f → l ∈ f.labels →
    Edit b { b with current := some l }
  | create {f : FunctionDef} {l : Nat} (hint : String) : b.function = some f → l ∉ f.labels →
    Edit b (Front.opened b f l hint)
  | push {f : FunctionDef} {c : Block} {l n : Nat} {i : Instr} : b.function = some f →
    b.current = some l → f.block? l = some c → c.isTerminated = false → i.isAlloca = false →
    b.nextTemp ≤ n → (∀ t, i.result? = some t → b.nextTemp ≤ t ∧ t < n) →
    Edit b { b with function := some (f.modifyBlock l (·.push i)), nextTemp := n }
  | insert {f : FunctionDef} {t n : Nat} {type : MachineType} : b.function = some f →
    b.nextTemp ≤ t → t < n →
    Edit b { b with function := some (f.withSlot (.alloca t type)), nextTemp := n }

/-- Any number of changes. -/
abbrev Edits : FunctionBuilder → FunctionBuilder → Prop := Relation.ReflTransGen Edit

/-- The function under construction has blocks with different labels. In each of them a terminator
is the last instruction, stack slots stand in front of the entry block, and every result is a
temporary that was drawn for it. -/
structure Tidy (b : FunctionBuilder) (f : FunctionDef) : Prop where
  current : ∀ l, b.current = some l → l ∈ f.labels
  labels_nodup : f.labels.Nodup
  code : ∀ c ∈ f.blocks, ∀ i ∈ c.code.dropLast, i.isTerminator = false
  slots_first : ∀ c ∈ f.blocks, c.body = c.slots ++ c.code
  slots_entry : ∀ c ∈ f.blocks.tail, c.slots = []
  results_nodup : f.results.Nodup
  results_drawn : ∀ t ∈ f.results, firstTemp f ≤ t ∧ t < b.nextTemp
  firstTemp_le : firstTemp f ≤ b.nextTemp

namespace Tidy

variable {b : FunctionBuilder} {f : FunctionDef} {c : Block} {i : Instr} {l n : Nat}

/-- In an open block there is no terminator. -/
theorem isTerminator_eq_false (h : b.Tidy f) (hc : c ∈ f.blocks) (hopen : c.isTerminated = false) :
    ∀ i ∈ c.code, i.isTerminator = false := by
  intro i hi
  rw [Block.isTerminated_of_slots_first (h.slots_first c hc)] at hopen
  rcases List.eq_nil_or_concat' c.code with hcode | ⟨front, last, hcode⟩
  · simp [hcode] at hi
  · have hfront := h.code c hc
    simp only [hcode, List.dropLast_concat] at hfront
    rw [hcode, List.mem_append] at hi
    rcases hi with hi | hi
    · exact hfront i hi
    · obtain rfl := List.mem_singleton.mp hi
      simpa [hcode, Option.filter] using hopen

/-- A terminator stands at the end of its block, whatever slots stand in front. -/
theorem terminator_last (h : b.Tidy f) (hc : c ∈ f.blocks) :
    ∀ i ∈ c.body.dropLast, i.isTerminator = false := by
  intro i hi
  by_contra hterm
  rw [Bool.not_eq_false] at hterm
  have halloca := Instr.isAlloca_eq_false_of_isTerminator hterm
  rcases List.eq_nil_or_concat' c.code with hcode | ⟨front, last, hcode⟩
  · have hmem := List.dropLast_subset _ hi
    have hincode : i ∈ c.code := Block.mem_code.mpr ⟨hmem, halloca⟩
    simp [hcode] at hincode
  · rw [h.slots_first c hc, hcode, ← List.append_assoc, List.dropLast_concat,
      List.mem_append] at hi
    rcases hi with hi | hi
    · simp [(Block.mem_slots.mp hi).2] at halloca
    · have hfront := h.code c hc i
      rw [hcode, List.dropLast_concat] at hfront
      simp [hfront hi] at hterm

theorem results_eq (f : FunctionDef) : f.results = f.instrs.filterMap (·.result?) := by
  rw [FunctionDef.results, FunctionDef.instrs, List.filterMap_flatMap]

/-- A new temporary is added to the results. -/
theorem results_of_perm (h : b.Tidy f) {g : FunctionDef} (hperm : g.instrs.Perm (i :: f.instrs))
    (hparams : g.params = f.params) (hle : b.nextTemp ≤ n)
    (hi : ∀ t, i.result? = some t → b.nextTemp ≤ t ∧ t < n) :
    g.results.Nodup ∧ (∀ t ∈ g.results, firstTemp g ≤ t ∧ t < n) ∧ firstTemp g ≤ n := by
  have hfirst : firstTemp g = firstTemp f := by rw [firstTemp, firstTemp, hparams]
  have hresults : g.results.Perm (i.result?.toList ++ f.results) := by
    rw [results_eq, results_eq]
    refine (hperm.filterMap _).trans (.of_eq ?_)
    cases hresult : i.result? <;> simp [hresult]
  rw [hfirst]
  refine ⟨?_, ?_, h.firstTemp_le.trans hle⟩
  · rw [hresults.nodup_iff]
    cases hresult : i.result? with
    | none => exact h.results_nodup
    | some t =>
      refine List.nodup_cons.mpr ⟨fun hmem => ?_, h.results_nodup⟩
      have hold := (h.results_drawn t hmem).2
      have hnew := (hi t hresult).1
      omega
  · intro t ht
    rcases List.mem_append.mp (hresults.mem_iff.mp ht) with ht | ht
    · have hnew := hi t (Option.mem_toList.mp ht)
      exact ⟨h.firstTemp_le.trans hnew.1, hnew.2⟩
    · have hold := h.results_drawn t ht
      exact ⟨hold.1, hold.2.trans_le hle⟩

/-- The same function is tidy in another block of it, and with more numbers drawn. -/
theorem elsewhere (h : b.Tidy f) {b' : FunctionBuilder}
    (hcurrent : ∀ l, b'.current = some l → l ∈ f.labels) (hle : b.nextTemp ≤ b'.nextTemp) :
    b'.Tidy f where
  current := hcurrent
  labels_nodup := h.labels_nodup
  code := h.code
  slots_first := h.slots_first
  slots_entry := h.slots_entry
  results_nodup := h.results_nodup
  results_drawn t ht := ⟨(h.results_drawn t ht).1, (h.results_drawn t ht).2.trans_le hle⟩
  firstTemp_le := h.firstTemp_le.trans hle

theorem create (h : b.Tidy f) (hl : l ∉ f.labels) (hint : String) :
    (Front.opened b f l hint).Tidy { f with blocks := f.blocks ++ [.fresh l hint] } where
  current := by
    rintro _ ⟨rfl⟩
    simp [FunctionDef.labels]
  labels_nodup := by
    have hnew : ∀ k ∈ f.labels, k ≠ l := fun k hk heq => hl (heq ▸ hk)
    simpa [FunctionDef.labels, List.nodup_append, h.labels_nodup] using
      ⟨h.labels_nodup, by simpa [FunctionDef.labels] using hnew⟩
  code := by
    intro c hc
    rcases List.mem_append.mp hc with hc | hc
    · exact h.code c hc
    · obtain rfl := List.mem_singleton.mp hc
      simp
  slots_first := by
    intro c hc
    rcases List.mem_append.mp hc with hc | hc
    · exact h.slots_first c hc
    · obtain rfl := List.mem_singleton.mp hc
      rfl
  slots_entry := by
    intro c hc
    rcases hblocks : f.blocks with _ | ⟨entry, rest⟩
    · simp [hblocks] at hc
    · simp only [hblocks, List.cons_append, List.tail_cons, List.mem_append,
        List.mem_singleton] at hc
      rcases hc with hc | rfl
      · exact h.slots_entry c (by simpa [hblocks] using hc)
      · rfl
  results_nodup := by simpa [FunctionDef.results] using h.results_nodup
  results_drawn := by
    have hresults : FunctionDef.results { f with blocks := f.blocks ++ [.fresh l hint] } =
        f.results := by simp [FunctionDef.results]
    rw [hresults]
    exact h.results_drawn
  firstTemp_le := h.firstTemp_le

theorem push (h : b.Tidy f) (hc : f.block? l = some c) (hopen : c.isTerminated = false)
    (hi : i.isAlloca = false) (hle : b.nextTemp ≤ n)
    (hresult : ∀ t, i.result? = some t → b.nextTemp ≤ t ∧ t < n) :
    { b with function := some (f.modifyBlock l (·.push i)), nextTemp := n }.Tidy
      (f.modifyBlock l (·.push i)) := by
  obtain ⟨hnodup, hdrawn, hfirst⟩ := h.results_of_perm (f.perm_instrs_push hc i) rfl hle hresult
  obtain ⟨done, rest, hblocks, hpushed⟩ := FunctionDef.exists_modifyBlock hc (·.push i)
  have hmem : c ∈ f.blocks := by simp [hblocks]
  have hlabels : (f.modifyBlock l (·.push i)).labels = f.labels := by
    simp [FunctionDef.labels, hblocks, hpushed]
  -- What holds of the old blocks and of the new one holds of all blocks.
  have hall {P : Block → Prop} (hold : ∀ d ∈ f.blocks, P d) (hnew : P (c.push i)) :
      ∀ d ∈ (f.modifyBlock l (·.push i)).blocks, P d := by
    intro d hd
    rw [hpushed, List.mem_append, List.mem_cons] at hd
    rcases hd with hd | rfl | hd
    · exact hold d (by simp [hblocks, hd])
    · exact hnew
    · exact hold d (by simp [hblocks, hd])
  exact {
    current := by
      rw [hlabels]
      exact h.current
    labels_nodup := hlabels ▸ h.labels_nodup
    code := by
      apply hall h.code
      rw [Block.code_push c hi, List.dropLast_concat]
      exact h.isTerminator_eq_false hmem hopen
    slots_first := by
      apply hall h.slots_first
      rw [Block.body_push, Block.slots_push c hi, Block.code_push c hi, ← List.append_assoc,
        ← h.slots_first c hmem]
    slots_entry := by
      have htail := h.slots_entry
      rw [hblocks] at htail
      rw [hpushed]
      cases done with
      | nil => exact htail
      | cons entry done =>
        simp only [List.cons_append, List.tail_cons, List.mem_append, List.mem_cons] at htail ⊢
        rintro d (hd | rfl | hd)
        · exact htail d (.inl hd)
        · rw [Block.slots_push c hi]
          exact htail c (.inr (.inl rfl))
        · exact htail d (.inr (.inr hd))
    results_nodup := hnodup
    results_drawn := hdrawn
    firstTemp_le := hfirst }

theorem insert (h : b.Tidy f) {t : Nat} {type : MachineType} (hle : b.nextTemp ≤ t) (hlt : t < n) :
    { b with function := some (f.withSlot (.alloca t type)), nextTemp := n }.Tidy
      (f.withSlot (.alloca t type)) := by
  rcases hblocks : f.blocks with _ | ⟨entry, rest⟩
  · rw [FunctionDef.withSlot_of_nil hblocks]
    exact h.elsewhere h.current (hle.trans hlt.le)
  · have hresult : ∀ r, (Instr.alloca t type).result? = some r → b.nextTemp ≤ r ∧ r < n := by
      rintro _ ⟨rfl⟩
      exact ⟨hle, hlt⟩
    obtain ⟨hnodup, hdrawn, hfirst⟩ := h.results_of_perm
      (FunctionDef.perm_instrs_insertSlot hblocks (.alloca t type)) rfl (hle.trans hlt.le) hresult
    have hentry : entry.body = entry.slots ++ entry.code := h.slots_first entry (by simp [hblocks])
    have hwith := FunctionDef.withSlot_of_cons hblocks (.alloca t type)
    rw [← hwith] at hnodup hdrawn hfirst
    exact {
      current := by
        rw [FunctionDef.labels_withSlot]
        exact h.current
      labels_nodup := by
        rw [FunctionDef.labels_withSlot]
        exact h.labels_nodup
      code := by
        intro c hc
        rw [hwith] at hc
        rcases List.mem_cons.mp hc with rfl | hc
        · rw [Block.code_insertSlot hentry rfl]
          exact h.code entry (by simp [hblocks])
        · exact h.code c (by simp [hblocks, hc])
      slots_first := FunctionDef.slots_first_withSlot h.slots_first rfl
      slots_entry := by
        rw [FunctionDef.tail_blocks_withSlot]
        exact h.slots_entry
      results_nodup := hnodup
      results_drawn := hdrawn
      firstTemp_le := hfirst }

end Tidy

/-- If there is a function under construction, it is tidy, and else there is no current block. -/
def Sound (b : FunctionBuilder) : Prop :=
  (b.function = none → b.current = none) ∧ ∀ f, b.function = some f → b.Tidy f

variable {b b' : FunctionBuilder}

theorem Sound.edit (h : b.Sound) (hedit : b.Edit b') : b'.Sound := by
  have hnone {f : FunctionDef} (hf : b.function = some f) : b.function ≠ none := by simp [hf]
  cases hedit with
  | draw hm hn => exact ⟨h.1, fun f hf => (h.2 f hf).elsewhere (h.2 f hf).current hm⟩
  | @goTo f l hf hl =>
    refine ⟨fun hnil => absurd hnil (hnone hf), fun g hg => ?_⟩
    obtain rfl : f = g := Option.some.inj (hf.symm.trans hg)
    refine (h.2 f hf).elsewhere ?_ (Nat.le_refl _)
    rintro _ ⟨rfl⟩
    exact hl
  | create hint hf hl =>
    refine ⟨nofun, ?_⟩
    rintro _ ⟨rfl⟩
    exact (h.2 _ hf).create hl hint
  | push hf hcurrent hc hopen hi hle hresult =>
    refine ⟨nofun, ?_⟩
    rintro _ ⟨rfl⟩
    exact (h.2 _ hf).push hc hopen hi hle hresult
  | insert hf hle hlt =>
    refine ⟨nofun, ?_⟩
    rintro _ ⟨rfl⟩
    exact (h.2 _ hf).insert hle hlt

theorem Sound.edits (h : b.Sound) (hedits : b.Edits b') : b'.Sound := by
  induction hedits with
  | refl => exact h
  | tail _ hedit ih => exact ih.edit hedit

/-- At the start of a function there are parameters only. -/
theorem sound_start (f : FunctionDef) : (start f).Sound := by
  refine ⟨nofun, ?_⟩
  rintro _ ⟨rfl⟩
  exact {
    current := nofun
    labels_nodup := List.nodup_nil
    code := by simp
    slots_first := by simp
    slots_entry := by simp
    results_nodup := List.nodup_nil
    results_drawn := by simp [FunctionDef.results]
    firstTemp_le := Nat.le_refl _ }

end FunctionBuilder

namespace Build

variable {α β : Type}

/-- Whatever state an action is carried out in, it makes edits, and if it fails, the function is as
it was. -/
def Careful (x : Build α) : Prop :=
  ∀ b : FunctionBuilder, b.Edits (exec x b).2 ∧
    ∀ e, (exec x b).1 = .error e → (exec x b).2.function = b.function

theorem Careful.map {x : Build α} (h : Careful x) (f : α → β) : Careful (f <$> x) := by
  intro b
  obtain ⟨hedits, hfail⟩ := h b
  rw [exec_map]
  rcases hexec : exec x b with ⟨e | a, b'⟩
  all_goals rw [hexec] at hedits hfail
  · exact ⟨hedits, fun _ _ => hfail e rfl⟩
  · exact ⟨hedits, nofun⟩

theorem careful_newTemp : Careful newTemp := fun _ =>
  ⟨.single (.draw (Nat.le_succ _) (Nat.le_refl _)), nofun⟩

theorem careful_newLabel : Careful newLabel := fun _ =>
  ⟨.single (.draw (Nat.le_refl _) (Nat.le_succ _)), nofun⟩

theorem careful_createBlock (label : Nat) (hint : String) : Careful (createBlock label hint) := by
  intro b
  rcases createBlock_cases label hint b with ⟨e, he⟩ | ⟨f, hf, hnone, hexec⟩
  · rw [he]
    exact ⟨.refl, fun _ _ => rfl⟩
  · rw [hexec]
    exact ⟨.single (.create hint hf (FunctionDef.block?_eq_none.mp hnone)), by simp⟩

theorem careful_appendBlock (hint : String) : Careful (appendBlock hint) := by
  intro b
  have hdraw : exec newLabel b = (.ok b.nextLabel, { b with nextLabel := b.nextLabel + 1 }) := rfl
  rw [appendBlock, exec_bind_of_ok hdraw]
  obtain ⟨hedits, hfail⟩ := (careful_createBlock b.nextLabel hint).map (fun _ => b.nextLabel)
    { b with nextLabel := b.nextLabel + 1 }
  exact ⟨.head (.draw (Nat.le_refl _) (Nat.le_succ _)) hedits, hfail⟩

theorem careful_switchTo (label : Nat) : Careful (switchTo label) := by
  intro b
  rcases exec_function_cases b with ⟨e, he⟩ | ⟨f, hf, hexec⟩
  · rw [switchTo, exec_bind_of_error he]
    exact ⟨.refl, fun _ _ => rfl⟩
  · rw [switchTo, exec_bind_of_ok hexec]
    cases hblock : f.block? label with
    | none => exact ⟨.refl, fun _ _ => rfl⟩
    | some c =>
      have hmem : label ∈ f.labels := by
        by_contra hmem
        simp [FunctionDef.block?_eq_none.mpr hmem] at hblock
      exact ⟨.single (.goTo hf hmem), by simp⟩

theorem careful_emit {i : Instr} (hi : i.isAlloca = false) (hresult : i.result? = none) :
    Careful (emit i) := by
  intro b
  rcases emit_cases i b with ⟨e, he⟩ | ⟨f, l, c, hf, hl, hc, hopen, hexec⟩
  · rw [he]
    exact ⟨.refl, fun _ _ => rfl⟩
  · rw [hexec]
    exact ⟨.single (.push hf hl hc hopen hi (Nat.le_refl _) (by simp [hresult])), by simp⟩

theorem careful_define {instr : Nat → Instr}
    (h : ∀ t, (instr t).isAlloca = false ∧ (instr t).result? = some t) :
    Careful (define instr) := by
  intro b
  have hdraw : exec newTemp b = (.ok b.nextTemp, { b with nextTemp := b.nextTemp + 1 }) := rfl
  rw [define, exec_bind_of_ok hdraw]
  rcases emit_cases (instr b.nextTemp) { b with nextTemp := b.nextTemp + 1 } with
    ⟨e, he⟩ | ⟨f, l, c, hf, hl, hc, hopen, hexec⟩
  · rw [exec_bind_of_error he]
    exact ⟨.single (.draw (Nat.le_succ _) (Nat.le_refl _)), fun _ _ => rfl⟩
  · rw [exec_bind_of_ok hexec]
    have hresult : ∀ t, (instr b.nextTemp).result? = some t →
        b.nextTemp ≤ t ∧ t < b.nextTemp + 1 := by
      intro t ht
      obtain rfl := Option.some.inj ((h b.nextTemp).2.symm.trans ht)
      omega
    exact ⟨.single (.push hf hl hc hopen (h _).1 (Nat.le_succ _) hresult), by simp⟩

theorem careful_entryAlloca (type : MachineType) : Careful (entryAlloca type) := by
  intro b
  rcases entryAlloca_cases type b with ⟨e, he⟩ | ⟨f, entry, rest, hf, hblocks, hexec⟩
  · rw [he]
    exact ⟨.single (.draw (Nat.le_succ _) (Nat.le_refl _)), fun _ _ => rfl⟩
  · rw [hexec, ← FunctionDef.withSlot_of_cons hblocks]
    exact ⟨.single (.insert hf (Nat.le_refl _) (Nat.lt_succ_self _)), by simp⟩

theorem careful_call (callee : Value) (type : MachineType) (args : List (MachineType × Value)) :
    Careful (call callee type args) := by
  unfold call
  split
  · exact (careful_emit rfl rfl).map fun _ => none
  · exact (careful_define fun _ => ⟨rfl, rfl⟩).map some

end Build

end SsaLowering
