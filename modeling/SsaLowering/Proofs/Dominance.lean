import SsaLowering.Proofs.Unit
import Mathlib.Data.List.Pairwise

/-!
# Static single assignment

In a function that survives, every temporary is defined once, and before it is used on every
way from the entry of the function. A phi has one operand for every predecessor of its
block.
-/

namespace SsaLowering

namespace FunctionDef

variable {f : FunctionDef} {avail sources : Nat → Set Nat} {left : List Nat} {l t : Nat}

/-- A way through a function from its entry to a block: the labels of the blocks that are left
on it, in order. A block is on it once for each time that it is left. -/
inductive Path (f : FunctionDef) : List Nat → Nat → Prop
  | entry {b : Block} {rest : List Block} : f.blocks = b :: rest → Path f [] b.label
  | step {left : List Nat} {b : Block} {l : Nat} :
    Path f left b.label → b ∈ f.blocks → l ∈ b.successors → Path f (left ++ [b.label]) l

/-- A block can be entered if some way leads to it. -/
def Reachable (f : FunctionDef) (l : Nat) : Prop := ∃ left, f.Path left l

/-- Every way to the second block leaves the first one, which is another block. -/
def StrictlyDominates (f : FunctionDef) (d l : Nat) : Prop :=
  d ≠ l ∧ ∀ left, f.Path left l → d ∈ left

/-- A temporary is defined at a place in a block, behind some instructions: as a parameter, by one
of these instructions, or in a block that strictly dominates this one. -/
def DefinedAt (f : FunctionDef) (b : Block) (pre : List Instr) (t : Nat) : Prop :=
  t ∈ f.parameters ∨ t ∈ resultsOf pre ∨
    ∃ d ∈ f.blocks, t ∈ resultsOf d.body ∧ f.StrictlyDominates d.label b.label

/-- Static single assignment. The operands of a phi are used at the ends of the blocks that it
names. -/
structure ProperSSA (f : FunctionDef) : Prop where
  once : f.definitions.Nodup
  defined : ∀ b ∈ f.blocks, ∀ i ∈ b.body, ∀ t, .temp t ∈ i.operands → t ∈ f.definitions
  before : ∀ b ∈ f.blocks, f.Reachable b.label → ∀ pre i post, b.body = pre ++ i :: post →
    i.isPhi = false → ∀ t, .temp t ∈ i.operands → f.DefinedAt b pre t
  merged : ∀ b ∈ f.blocks, f.Reachable b.label → ∀ result incoming type,
    .phi result incoming type ∈ b.body → ∀ t source, (.temp t, source) ∈ incoming →
    ∃ c ∈ f.blocks, c.label = source ∧ f.DefinedAt c c.body t
  complete : ∀ b ∈ f.blocks, ∀ result incoming type, .phi result incoming type ∈ b.body →
    (incoming.map Prod.snd).Perm (f.predecessors b.label)

namespace Path

/-- A way is cut where it enters a block for the first time. -/
theorem exists_first (h : f.Path left l) {k : Nat} (hk : k ∈ left) :
    ∃ front, f.Path front k ∧ k ∉ front := by
  induction h with
  | entry => simp at hk
  | @step left b l hpath _ _ ih =>
    by_cases hmem : k ∈ left
    · exact ih hmem
    · obtain rfl : k = b.label := by simpa [hmem] using hk
      exact ⟨left, hpath, hmem⟩

/-- A way to another block than the entry leaves the entry. -/
theorem entry_mem (h : f.Path left l) {b : Block} {rest : List Block} (hf : f.blocks = b :: rest)
    (hl : b.label ≠ l) : b.label ∈ left := by
  induction h with
  | @entry c rest' hblocks =>
    rw [hf, List.cons.injEq] at hblocks
    exact absurd (by rw [hblocks.1]) hl
  | @step left c l _ _ _ ih =>
    by_cases hc : b.label = c.label
    · simp [hc]
    · exact List.mem_append_left _ (ih hc)

end Path

/-- A block that can be entered can be entered for the first time. -/
theorem Reachable.exists_first (h : f.Reachable l) : ∃ front, f.Path front l ∧ l ∉ front := by
  obtain ⟨left, hpath⟩ := h
  by_cases hl : l ∈ left
  · exact hpath.exists_first hl
  · exact ⟨left, hpath, hl⟩

/-- A result in a block. -/
theorem mem_results_of_mem {b : Block} (hb : b ∈ f.blocks) (ht : t ∈ resultsOf b.body) :
    t ∈ f.results := by
  obtain ⟨i, hi, hresult⟩ := ht
  exact List.mem_flatMap.mpr ⟨b, hb, List.mem_filterMap.mpr ⟨i, hi, hresult⟩⟩

/-- A temporary that is defined once is the result of one block only. -/
theorem block_eq_of_mem_resultsOf (h : f.definitions.Nodup) {b c : Block} (hb : b ∈ f.blocks)
    (hc : c ∈ f.blocks) (htb : t ∈ resultsOf b.body) (htc : t ∈ resultsOf c.body) : b = c := by
  let resultsIn (b : Block) : List Nat := b.body.filterMap (·.result?)
  have hnodup : (f.blocks.flatMap resultsIn).Nodup := (List.nodup_append.mp h).2.1
  have hsymm : Std.Symm (Function.onFun List.Disjoint resultsIn) := ⟨fun _ _ hxy => hxy.symm⟩
  by_contra hne
  have hdisjoint := (List.nodup_flatMap.mp hnodup).2.forall hb hc hne
  obtain ⟨i, hi, hti⟩ := htb
  obtain ⟨j, hj, htj⟩ := htc
  exact hdisjoint (List.mem_filterMap.mpr ⟨i, hi, hti⟩) (List.mem_filterMap.mpr ⟨j, hj, htj⟩)

namespace Draft

variable {b : Block}

theorem definitions_nodup (h : f.Draft avail sources) : f.definitions.Nodup := by
  obtain ⟨_, done, last, hfront⟩ := h.front
  exact hfront.definitions_nodup

theorem resultsOf_code_subset (b : Block) : resultsOf b.code ⊆ resultsOf b.body := by
  rintro t ⟨i, hi, ht⟩
  exact ⟨i, (Block.mem_code.mp hi).1, ht⟩

/-- A block leads to another by its last instruction. -/
theorem exists_terminator (h : f.Draft avail sources) (hb : b ∈ f.blocks)
    (hl : l ∈ b.successors) : ∃ pre i, b.code = pre ++ [i] ∧ l ∈ i.successors := by
  rcases List.eq_nil_or_concat b.body with hnil | ⟨front, i, hbody⟩
  · simp [Block.successors, Block.terminator?, hnil] at hl
  · rw [List.concat_eq_append] at hbody
    rw [Block.successors_eq hbody] at hl
    have hterm : i.isTerminator = true := by
      by_contra hterm
      simp [Instr.successors_eq_nil (by simpa using hterm)] at hl
    obtain ⟨pre, hcode, -⟩ := h.terminator_last hb (i := i) (by simp [hbody]) hterm
    exact ⟨pre, i, hcode, hl⟩

/-- What is available in a block was computed on every way to it. -/
theorem exists_left (h : f.Draft avail sources) (hpath : f.Path left l) (ht : t ∈ avail l) :
    ∃ c ∈ f.blocks, c.label ∈ left ∧ t ∈ resultsOf c.code := by
  induction hpath with
  | @entry b rest hf =>
    rw [(h.entry b rest hf).1] at ht
    exact ht.elim
  | @step left b l _ hb hl ih =>
    obtain ⟨pre, i, hcode, hi⟩ := h.exists_terminator hb hl
    rcases (h.targets b hb pre i [] hcode l hi).2.1 ht with ht | ht
    · obtain ⟨c, hc, hleft, hresult⟩ := ih ht
      exact ⟨c, hc, List.mem_append_left _ hleft, hresult⟩
    · refine ⟨b, hb, by simp, ?_⟩
      rw [hcode, resultsOf_append]
      exact .inl ht

/-- What is available in a block is computed in one block that strictly dominates it. -/
theorem exists_dominator (h : f.Draft avail sources) (hl : f.Reachable l) (ht : t ∈ avail l) :
    ∃ d ∈ f.blocks, t ∈ resultsOf d.body ∧ f.StrictlyDominates d.label l := by
  obtain ⟨front, hpath, hnot⟩ := hl.exists_first
  obtain ⟨d, hd, hleft, hresult⟩ := h.exists_left hpath ht
  have hresult' := resultsOf_code_subset d hresult
  refine ⟨d, hd, hresult', fun heq => hnot (heq ▸ hleft), fun left hpath' => ?_⟩
  obtain ⟨c, hc, hleft', hc'⟩ := h.exists_left hpath' ht
  rwa [block_eq_of_mem_resultsOf h.definitions_nodup hd hc hresult' (resultsOf_code_subset c hc')]

/-- The slots of a function are results of its entry block. -/
theorem mem_resultsOf_slots (h : f.Draft avail sources) (ht : t ∈ f.slots) :
    ∃ b rest, f.blocks = b :: rest ∧ t ∈ resultsOf b.slots := by
  obtain ⟨_, done, last, hfront⟩ := h.front
  obtain ⟨b, hb, hmem⟩ := List.mem_flatMap.mp ht
  obtain ⟨i, hi, hresult⟩ := List.mem_filterMap.mp hmem
  cases hf : f.blocks with
  | nil => simp [hf] at hb
  | cons c rest =>
    rw [hf, List.mem_cons] at hb
    rcases hb with rfl | hb
    · exact ⟨b, rest, rfl, i, hi, hresult⟩
    · rw [hfront.slots_entry b (by simpa [hf] using hb)] at hi
      simp at hi

/-- Parameters and slots are defined behind the slots of every block. -/
theorem definedAt_of_mem_base (h : f.Draft avail sources) (hb : b ∈ f.blocks) (ht : t ∈ f.base)
    (pre : List Instr) : f.DefinedAt b (b.slots ++ pre) t := by
  rcases ht with ht | ht
  · exact .inl ht
  · obtain ⟨entry, rest, hf, hslot⟩ := h.mem_resultsOf_slots ht
    have hresult : t ∈ resultsOf entry.body := by
      obtain ⟨i, hi, hresult⟩ := hslot
      exact ⟨i, (Block.mem_slots.mp hi).1, hresult⟩
    have hentry : entry ∈ f.blocks := by simp [hf]
    by_cases hlabel : entry.label = b.label
    · have heq : entry = b := by
        have hfound := block?_of_mem h.labels_nodup hentry
        rw [hlabel, block?_of_mem h.labels_nodup hb] at hfound
        exact (Option.some.inj hfound).symm
      rw [heq] at hslot
      exact .inr (.inl (by rw [resultsOf_append]; exact .inl hslot))
    · exact .inr (.inr ⟨entry, hentry, hresult, hlabel,
        fun left hpath => hpath.entry_mem hf hlabel⟩)

/-- What is known in a block that can be entered is defined there. -/
theorem definedAt (h : f.Draft avail sources) (hb : b ∈ f.blocks) (hreach : f.Reachable b.label)
    {pre : List Instr} (ht : t ∈ avail b.label ∪ resultsOf pre ∪ f.base) :
    f.DefinedAt b (b.slots ++ pre) t := by
  rcases ht with (ht | ht) | ht
  · exact .inr (.inr (h.exists_dominator hreach ht))
  · exact .inr (.inl (by rw [resultsOf_append]; exact .inr ht))
  · exact h.definedAt_of_mem_base hb ht pre

/-- What is known at the end of a block is defined there, even if the block cannot be entered:
then every other block dominates it. -/
theorem definedAt_end (h : f.Draft avail sources) (hb : b ∈ f.blocks) {pre post : List Instr}
    (hcode : b.code = pre ++ post) (ht : t ∈ avail b.label ∪ resultsOf pre ∪ f.base) :
    f.DefinedAt b b.body t := by
  have hbody : b.body = b.slots ++ b.code := h.body_eq hb
  have hcode' : resultsOf pre ⊆ resultsOf b.code := by
    rw [hcode, resultsOf_append]
    exact Set.subset_union_left
  have ht' : t ∈ avail b.label ∪ resultsOf b.code ∪ f.base :=
    Set.union_subset_union_left _ (Set.union_subset_union_right _ hcode') ht
  by_cases hreach : f.Reachable b.label
  · rw [hbody]
    exact h.definedAt hb hreach ht'
  · rcases ht' with (ht | ht) | ht
    · obtain ⟨c, hc, hresult⟩ := h.computed b hb t ht
      have hresult' := resultsOf_code_subset c hresult
      by_cases hlabel : c.label = b.label
      · have hfound := block?_of_mem h.labels_nodup hc
        rw [hlabel, block?_of_mem h.labels_nodup hb] at hfound
        rw [← Option.some.inj hfound] at hresult'
        exact .inr (.inl hresult')
      · exact .inr (.inr ⟨c, hc, hresult', hlabel, fun left hpath => absurd ⟨left, hpath⟩ hreach⟩)
    · exact .inr (.inl (resultsOf_code_subset b ht))
    · rw [hbody]
      exact h.definedAt_of_mem_base hb ht b.code

/-- What is known anywhere has a definition. -/
theorem mem_definitions (h : f.Draft avail sources) (hb : b ∈ f.blocks) {pre post : List Instr}
    (hcode : b.code = pre ++ post) (ht : t ∈ avail b.label ∪ resultsOf pre ∪ f.base) :
    t ∈ f.definitions := by
  rcases h.definedAt_end hb hcode ht with ht | ht | ⟨d, hd, ht, -⟩
  · exact List.mem_append_left _ ht
  · exact List.mem_append_right _ (mem_results_of_mem hb ht)
  · exact List.mem_append_right _ (mem_results_of_mem hd ht)

/-- An instruction with an operand stands behind the slots of its block. -/
theorem exists_code_split (h : f.Draft avail sources) (hb : b ∈ f.blocks)
    {pre post : List Instr} {i : Instr} (hbody : b.body = pre ++ i :: post)
    (hi : i.isAlloca = false) : ∃ rest, pre = b.slots ++ rest ∧ b.code = rest ++ i :: post := by
  have heq : b.slots ++ b.code = pre ++ i :: post := (h.body_eq hb).symm.trans hbody
  rcases List.append_eq_append_iff.mp heq with ⟨rest, hpre, hcode⟩ | ⟨rest, hslots, hrest⟩
  · exact ⟨rest, hpre, hcode⟩
  · cases rest with
    | nil => exact ⟨[], by simpa using hslots.symm, by simpa using hrest.symm⟩
    | cons j rest =>
      rw [List.cons_append, List.cons.injEq] at hrest
      have hmem : i ∈ b.slots := by simp [hslots, hrest.1]
      have halloca := (Block.mem_slots.mp hmem).2
      rw [hi] at halloca
      cases halloca

/-- A draft is in proper form. -/
theorem properSSA (h : f.Draft avail sources) : f.ProperSSA := by
  have halloca {i : Instr} {t : Nat} (ht : .temp t ∈ i.operands) : i.isAlloca = false := by
    cases i <;> simp_all [Instr.isAlloca, Instr.operands]
  have hphi {b : Block} {result : Nat} {incoming : List (Value × Nat)} {type : MachineType}
      (hmem : .phi result incoming type ∈ b.body) : .phi result incoming type ∈ b.code :=
    Block.mem_code.mpr ⟨hmem, rfl⟩
  refine ⟨h.definitions_nodup, ?_, ?_, ?_, ?_⟩
  · intro b hb i hi t ht
    obtain ⟨pre, post, hcode⟩ := List.append_of_mem (Block.mem_code.mpr ⟨hi, halloca ht⟩)
    cases hphi' : i.isPhi with
    | false => exact h.mem_definitions hb hcode (h.operands b hb pre i post hcode hphi' ht)
    | true =>
      cases i with
      | phi result incoming type =>
        obtain ⟨⟨v, source⟩, hmem, rfl⟩ := List.mem_map.mp ht
        obtain ⟨-, -, hin⟩ := h.incoming b hb result incoming type (hphi hi)
        obtain ⟨c, hc, rfl, front, j, behind, hj, -, hvalue⟩ := hin _ source hmem
        exact h.mem_definitions hc hj (hvalue (Value.mem_temps.mpr rfl))
      | _ => cases hphi'
  · intro b hb hreach pre i post hbody hi t ht
    obtain ⟨rest, rfl, hcode⟩ := h.exists_code_split hb hbody (halloca ht)
    exact h.definedAt hb hreach (h.operands b hb rest i post hcode hi ht)
  · intro b hb _ result incoming type hmem t source hin
    obtain ⟨-, -, hincoming⟩ := h.incoming b hb result incoming type (hphi hmem)
    obtain ⟨c, hc, hlabel, front, j, behind, hj, -, hvalue⟩ := hincoming _ source hin
    rw [← hlabel] at hvalue
    exact ⟨c, hc, hlabel, h.definedAt_end hc hj (hvalue (Value.mem_temps.mpr rfl))⟩
  · intro b hb result incoming type hmem
    obtain ⟨hnodup, hsources, hin⟩ := h.incoming b hb result incoming type (hphi hmem)
    refine (List.perm_ext_iff_of_nodup hnodup ?_).mpr fun source => ⟨fun hs => ?_, fun hs => ?_⟩
    · exact h.labels_nodup.sublist (List.filter_sublist.map _)
    · obtain ⟨⟨v, source⟩, hmem', rfl⟩ := List.mem_map.mp hs
      obtain ⟨c, hc, rfl, front, j, behind, hj, hl, -⟩ := hin v source hmem'
      exact h.source_mem_predecessors hc hj hl
    · obtain ⟨c, hc, rfl⟩ := List.mem_map.mp hs
      simp only [List.mem_filter, List.contains_iff_mem] at hc
      obtain ⟨pre, i, hcode, hi⟩ := h.exists_terminator hc.1 hc.2
      exact hsources _ (h.targets c hc.1 pre i [] hcode b.label hi).2.2

end Draft

end FunctionDef

namespace Program

variable {p : Program} {options : LoweringOptions} {log : DiagnosticLog} {f : FunctionDef}

/-- Every function that a module defines is in static single assignment form. -/
theorem properSSA_of_mem_generate (hf : f ∈ (p.generate options log).1.functions)
    (hext : f.isExternal = false) : f.ProperSSA := by
  obtain ⟨⟨avail, sources, hdraft⟩, -⟩ := exists_draft_generate hf hext
  exact hdraft.properSSA

/-- A function that evaluates its second parameter if its first one holds. -/
def secondIfFirst : FunctionDecl Statement where
  name := "secondIfFirst"
  params := [⟨"first", .named "bool"⟩, ⟨"second", .named "bool"⟩]
  returnType := .named "bool"
  body := some (.ret none (some
    (.binary none .logicalAnd (.variable none "first") (.variable none "second"))))
  owner := none
  location := none

theorem properSSA_secondIfFirst : ∃ f : FunctionDef, f.name = "secondIfFirst" ∧
    f.labels = [0, 1, 2] ∧ f.isExternal = false ∧ f.ProperSSA := by
  obtain ⟨f, hf, hname, hlabels, hext⟩ : ∃ f : FunctionDef,
      f ∈ (generate .standard ⟨[.function secondIfFirst]⟩ .empty).1.functions ∧
      f.name = "secondIfFirst" ∧ f.labels = [0, 1, 2] ∧ f.isExternal = false := by
    decide +kernel
  exact ⟨f, hname, hlabels, hext, properSSA_of_mem_generate hf hext⟩

end Program

end SsaLowering
