import SsaLowering.Proofs.Dominance

/-!
# Functions that are rejected

A function is rejected for an open block. That a block cannot be entered is decided by whether
any block leads to it, so an open block that cannot be entered is not ended if a block that
cannot be entered leads to it, and then the function is rejected as well.
-/

namespace SsaLowering

namespace FunctionDef

variable {f : FunctionDef} {avail sources : Nat → Set Nat} {l : Nat}

theorem reachable_entry {b : Block} {rest : List Block} (hf : f.blocks = b :: rest) :
    f.Reachable b.label := ⟨[], .entry hf⟩

theorem Reachable.step {b : Block} (h : f.Reachable b.label) (hb : b ∈ f.blocks)
    (hl : l ∈ b.successors) : f.Reachable l := by
  obtain ⟨left, hpath⟩ := h
  exact ⟨_, hpath.step hb hl⟩

/-- Blocks that are closed under going on from them hold all that can be entered. -/
theorem Reachable.induct {P : Nat → Prop} (h : f.Reachable l)
    (hentry : ∀ b rest, f.blocks = b :: rest → P b.label)
    (hstep : ∀ b ∈ f.blocks, P b.label → ∀ l ∈ b.successors, P l) : P l := by
  obtain ⟨left, hpath⟩ := h
  induction hpath with
  | entry hf => exact hentry _ _ hf
  | step hpath hb hl ih => exact hstep _ hb ih _ hl

/-- A block that cannot be entered leads to this one. -/
def EnteredDead (f : FunctionDef) (l : Nat) : Prop :=
  ∃ b ∈ f.blocks, ¬ f.Reachable b.label ∧ l ∈ b.successors

/-- Whatever leads to a block, it can be entered or not. -/
theorem reachable_or_enteredDead (h : f.predecessors l ≠ []) :
    f.Reachable l ∨ f.EnteredDead l := by
  obtain ⟨k, hk⟩ := List.exists_mem_of_ne_nil _ h
  obtain ⟨b, hb, rfl⟩ := List.mem_map.mp hk
  obtain ⟨hmem, hl⟩ := List.mem_filter.mp hb
  rw [List.contains_iff_mem] at hl
  by_cases hreach : f.Reachable b.label
  · exact .inl (hreach.step hmem hl)
  · exact .inr ⟨b, hmem, hreach, hl⟩

namespace Draft

/-- A draft is at fault if and only if a block of it is open. -/
theorem fault?_eq_none_iff (h : f.Draft avail sources) (hext : f.isExternal = false) :
    f.fault? = none ↔ ∀ b ∈ f.blocks, b.isTerminated = true := by
  obtain ⟨done, last, hf⟩ := h.exists_last
  rw [h.fault?_eq hext hf]
  constructor
  · intro hfault b hb
    rw [hf, List.mem_append, List.mem_singleton] at hb
    rcases hb with hb | rfl
    · exact h.terminated b (by simpa [hf] using hb)
    · by_contra hopen
      rw [blockFault?_of_open (by simpa using hopen)] at hfault
      cases hfault
  · intro hall
    have hmem : last ∈ f.blocks := by simp [hf]
    exact h.blockFault?_of_terminated hmem (hall last hmem)

/-- A block that is still open in a finished draft can be entered, or a block that cannot be
entered leads to it. -/
theorem reachable_of_open (h : f.Draft avail sources) {b : Block} (hb : b ∈ f.finalize.blocks)
    (hopen : b.isTerminated = false) :
    f.finalize.Reachable b.label ∨ f.finalize.EnteredDead b.label := by
  obtain ⟨done, last, hf⟩ := h.exists_last
  -- Were a terminator added, every block would be ended.
  have hended {i : Instr} (hi : i.isTerminator = true)
      (heq : f.finalize = f.pushLast done last i) : b.isTerminated = true := by
    have hblocks : f.finalize.blocks = done ++ [last.push i] := by rw [heq]; rfl
    rw [hblocks, List.mem_append, List.mem_singleton] at hb
    rcases hb with hb | rfl
    · exact h.terminated b (by simpa [hf] using hb)
    · exact Block.isTerminated_iff.mpr ⟨last.body, i, rfl, hi⟩
  rcases h.finalize_cases hf with ⟨heq, hlast⟩ | ⟨-, -, heq⟩ | ⟨-, -, -, -, heq⟩
  · rw [heq] at hb ⊢
    rw [hf, List.mem_append, List.mem_singleton] at hb
    rcases hb with hb | rfl
    · rw [h.terminated b (by simpa [hf] using hb)] at hopen
      cases hopen
    · rw [hopen] at hlast
      rcases hlast with hlast | ⟨-, rfl | hpred⟩
      · cases hlast
      · exact .inl (reachable_entry hf)
      · exact reachable_or_enteredDead hpred
  · rw [hended rfl heq] at hopen
    cases hopen
  · rw [hended rfl heq] at hopen
    cases hopen

end Draft

end FunctionDef

namespace Program

open UnitState

variable {p : Program} {options : LoweringOptions} {log : DiagnosticLog} {s : UnitState}
  {d : DeclaredFunction} {body : Statement}

/-- A function is rejected if and only if an open block is left in it. Such a block can be
entered, or a block that cannot be entered leads to it. A function in which every block that can
be entered is ended, and in which no block that cannot be entered leads to an open one, is
defined. -/
theorem rejected_iff_open_block (h : p.Turn options log s d body) :
    ∃ f, (s.lowerBody d body).builder.function = some f ∧
      (f.finalize.fault? = none ↔ ∀ b ∈ f.finalize.blocks, b.isTerminated = true) ∧
      (∀ b ∈ f.finalize.blocks, b.isTerminated = false →
        f.finalize.Reachable b.label ∨ f.finalize.EnteredDead b.label) ∧
      match f.finalize.fault? with
      | none => (p.generate options log).1.function? d.decl.name = some f.finalize
      | some fault => (p.generate options log).1.function? d.decl.name = some d.declaration ∧
          (s.addBody options d body).log = (s.bodyLog options d body).report
            (LoweringError.toDiagnostic ⟨.verification d.decl.name fault, d.decl.location⟩) := by
  obtain ⟨f, avail, sources, hf, ⟨blocks, hsignature⟩, hdraft⟩ :=
    exists_draft_lowerBody (h.sound.rooted.environment d) body
  have hext : f.finalize.isExternal = false := by rw [hsignature]; rfl
  have hname : f.name = d.decl.name := by rw [hsignature]; rfl
  refine ⟨f, hf, hdraft.finalize.fault?_eq_none_iff hext, fun b hb => hdraft.reachable_of_open hb,
    ?_⟩
  rw [h.generate_function?]
  cases hfault : f.finalize.fault? with
  | none =>
    rw [addBody_of_sound hf hfault]
    exact (CodeModule.function?_replaceFunction _ _ _).trans (if_pos hname)
  | some fault =>
    rw [addBody_of_fault hf hfault, hname]
    exact ⟨h.function?_eq, rfl⟩

theorem rejected_iff_open_block_onlySometimes :
    ∃ s d body, Turn ⟨[.function onlySometimes]⟩ .standard .empty s d body ∧
      ∃ f b, (s.lowerBody d body).builder.function = some f ∧ b ∈ f.finalize.blocks ∧
        b.isTerminated = false ∧
        (f.finalize.Reachable b.label ∨ f.finalize.EnteredDead b.label) := by
  have hturn : Turn ⟨[.function onlySometimes]⟩ .standard .empty
      (declare ⟨[.function onlySometimes]⟩ "main" .empty).1
      ⟨onlySometimes, .ofSource .empty [.named "bool"] (.named "bool") false none⟩
      (.branch none (.variable none "flag") (.ret none (some (.literal none (.bool true)))) none) :=
    ⟨rfl, [], [], rfl, rfl⟩
  obtain ⟨f, hf, -, hentered, -⟩ := rejected_iff_open_block hturn
  obtain ⟨g, hg, b, hb, hopen⟩ : ∃ g ∈
      ((declare ⟨[.function onlySometimes]⟩ "main" .empty).1.lowerBody
        ⟨onlySometimes, .ofSource .empty [.named "bool"] (.named "bool") false none⟩
        (.branch none (.variable none "flag")
          (.ret none (some (.literal none (.bool true)))) none)).builder.function.toList,
      ∃ b ∈ g.finalize.blocks, b.isTerminated = false := by
    decide +kernel
  obtain rfl : g = f := by simpa [hf, eq_comm] using hg
  exact ⟨_, _, _, hturn, g, b, hf, hb, hopen, hentered b hb hopen⟩

/-- A function that returns at once. The loop behind the return is never entered. -/
def returnsAtOnce : FunctionDecl Statement where
  name := "one"
  params := [⟨"flag", .named "bool"⟩]
  returnType := .named "i32"
  body := some (.block none [.ret none (some (.literal none (.number "1"))),
    .whileLoop none (.variable none "flag") (.block none [])])
  owner := none
  location := none

/-- The function is rejected for the block behind the loop, although it cannot be entered. -/
theorem rejected_for_dead_block :
    ∃ s d body, Turn ⟨[.function returnsAtOnce]⟩ .standard .empty s d body ∧
      ∃ f, (s.lowerBody d body).builder.function = some f ∧
        f.finalize.fault? = some (.emptyBlock 4) ∧
        (∀ b ∈ f.finalize.blocks, f.finalize.Reachable b.label → b.isTerminated = true) ∧
        (generate .standard ⟨[.function returnsAtOnce]⟩ .empty).2.count .error = 1 := by
  have hturn : Turn ⟨[.function returnsAtOnce]⟩ .standard .empty
      (declare ⟨[.function returnsAtOnce]⟩ "main" .empty).1
      ⟨returnsAtOnce, .ofSource .empty [.named "bool"] (.named "i32") false none⟩
      (.block none [.ret none (some (.literal none (.number "1"))),
        .whileLoop none (.variable none "flag") (.block none [])]) :=
    ⟨rfl, [], [], rfl, rfl⟩
  obtain ⟨f, hmem, hfault, hentry, hsuccessors, hterminated⟩ : ∃ f ∈
      ((declare ⟨[.function returnsAtOnce]⟩ "main" .empty).1.lowerBody
        ⟨returnsAtOnce, .ofSource .empty [.named "bool"] (.named "i32") false none⟩
        (.block none [.ret none (some (.literal none (.number "1"))),
          .whileLoop none (.variable none "flag") (.block none [])])).builder.function.toList,
      f.finalize.fault? = some (.emptyBlock 4) ∧
      f.finalize.blocks.head?.map (·.label) = some 0 ∧
      (∀ b ∈ f.finalize.blocks, b.label = 0 → b.successors = []) ∧
      ∀ b ∈ f.finalize.blocks, b.label = 0 → b.isTerminated = true := by
    decide +kernel
  refine ⟨_, _, _, hturn, f, by simpa using hmem, hfault, fun b hb hreach => ?_,
    by decide +kernel⟩
  apply hterminated b hb
  -- The entry block returns, so nothing else can be entered.
  refine hreach.induct (P := (· = 0)) (fun c rest hc => ?_) fun c hc hlabel l hl => ?_
  · simpa [hc] using hentry
  · rw [hsuccessors c hc hlabel] at hl
    cases hl

end Program

end SsaLowering
