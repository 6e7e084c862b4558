import SsaLowering.Lowering.Function
import SsaLowering.Proofs.Draft
import Mathlib.Data.Fintype.EquivFin

/-!
# The shape of finished functions

Finishing a draft can only end its last block. The check then finds nothing wrong with any
other block, so a draft passes it if and only if its last block has a terminator.
-/

namespace SsaLowering

namespace Block

theorem isTerminated_iff {b : Block} : b.isTerminated = true ↔
    ∃ front i, b.body = front ++ [i] ∧ i.isTerminator = true := by
  rcases List.eq_nil_or_concat b.body with hnil | ⟨front, i, hbody⟩
  · simp [isTerminated, terminator?, hnil]
  · rw [List.concat_eq_append] at hbody
    cases hi : i.isTerminator with
    | true => simp [isTerminated, terminator?, hbody, hi]
    | false => simp [isTerminated, terminator?, hbody, hi]

/-- The successors of a block are those of its last instruction. -/
theorem successors_eq {b : Block} {front : List Instr} {i : Instr} (h : b.body = front ++ [i]) :
    b.successors = i.successors := by
  cases hi : i.isTerminator with
  | true => simp [successors, terminator?, h, hi, Option.filter]
  | false => simp [successors, terminator?, h, hi, Option.filter, Instr.successors_eq_nil hi]

end Block

namespace FunctionDef

variable {f : FunctionDef} {avail sources : Nat → Set Nat} {done : List Block} {last : Block}

/-- The code of a block behind which nothing is open goes on with a terminator. -/
theorem isCode_append {front : Bool} {code : List Instr} {i : Instr} (h : IsCode front code)
    (hopen : code.getLast?.filter (·.isTerminator) = none) (hi : i.isPhi = false) :
    IsCode front (code ++ [i]) := by
  induction code generalizing front with
  | nil => simp [IsCode, hi]
  | cons j code ih =>
    cases code with
    | nil =>
      have hj : j.isTerminator = false := by simpa [Option.filter] using hopen
      exact ⟨h.1, by simp [hj], by simp [IsCode, hi]⟩
    | cons k code =>
      rw [List.getLast?_cons_cons] at hopen
      exact ⟨h.1, fun hj => absurd (h.2.1 hj) (by simp), ih h.2.2 hopen⟩

namespace Draft

theorem exists_last (h : f.Draft avail sources) : ∃ done last, f.blocks = done ++ [last] := by
  obtain ⟨b, done, last, hfront⟩ := h.front
  exact ⟨done, last, hfront.blocks⟩

theorem labels_nodup (h : f.Draft avail sources) : f.labels.Nodup := by
  obtain ⟨b, done, last, hfront⟩ := h.front
  exact hfront.labels_nodup

theorem body_eq (h : f.Draft avail sources) {b : Block} (hb : b ∈ f.blocks) :
    b.body = b.slots ++ b.code := by
  obtain ⟨_, done, last, hfront⟩ := h.front
  exact hfront.slots_first b hb

/-- A terminator is the last instruction of its block. -/
theorem terminator_last (h : f.Draft avail sources) {b : Block} (hb : b ∈ f.blocks) {i : Instr}
    (hi : i ∈ b.body) (hterm : i.isTerminator = true) :
    ∃ pre, b.code = pre ++ [i] ∧ b.body = b.slots ++ pre ++ [i] := by
  have hcode : i ∈ b.code :=
    Block.mem_code.mpr ⟨hi, Instr.isAlloca_eq_false_of_isTerminator hterm⟩
  obtain ⟨pre, post, heq⟩ := List.append_of_mem hcode
  have hnil : post = [] := by
    have hcodes := h.code b hb
    rw [heq] at hcodes
    exact hcodes.tail_eq_nil hterm
  subst hnil
  exact ⟨pre, heq, by rw [h.body_eq hb, heq, List.append_assoc]⟩

/-- No block has a terminator before its last instruction. -/
theorem no_early_terminator (h : f.Draft avail sources) {b : Block} (hb : b ∈ f.blocks) :
    ∀ i ∈ b.body.dropLast, i.isTerminator = false := by
  intro i hi
  by_contra hterm
  rw [Bool.not_eq_false] at hterm
  obtain ⟨pre, hcode, hbody⟩ := h.terminator_last hb (List.dropLast_subset _ hi) hterm
  rw [hbody, List.dropLast_concat, List.mem_append] at hi
  rcases hi with hi | hi
  · have halloca := (Block.mem_slots.mp hi).2
    simp [Instr.isAlloca_eq_false_of_isTerminator hterm] at halloca
  · obtain ⟨front, rest, rfl⟩ := List.append_of_mem hi
    have hcodes := h.code b hb
    rw [hcode, List.append_assoc] at hcodes
    have hnil := IsCode.tail_eq_nil hcodes hterm
    simp at hnil

/-- Every target of a branch is a block. -/
theorem target_mem (h : f.Draft avail sources) {b : Block} (hb : b ∈ f.blocks) {i : Instr}
    (hi : i ∈ b.body) {l : Nat} (hl : l ∈ i.successors) : l ∈ f.labels := by
  have hterm : i.isTerminator = true := by
    by_contra hterm
    simp [Instr.successors_eq_nil (by simpa using hterm)] at hl
  obtain ⟨pre, hcode, -⟩ := h.terminator_last hb hi hterm
  exact (h.targets b hb pre i [] hcode l hl).1

/-- The sources of phis are predecessors. -/
theorem source_mem_predecessors (h : f.Draft avail sources) {c : Block} (hc : c ∈ f.blocks)
    {pre post : List Instr} {i : Instr} (hi : c.code = pre ++ i :: post) {l : Nat}
    (hl : l ∈ i.successors) : c.label ∈ f.predecessors l := by
  have hterm : i.isTerminator = true := by
    by_contra hterm
    simp [Instr.successors_eq_nil (by simpa using hterm)] at hl
  have hmem : i ∈ c.body := (Block.mem_code.mp (by simp [hi])).1
  obtain ⟨front, -, hbody⟩ := h.terminator_last hc hmem hterm
  refine List.mem_map.mpr ⟨c, List.mem_filter.mpr ⟨hc, ?_⟩, rfl⟩
  rw [Block.successors_eq hbody]
  simpa using hl

/-- The entry block has no phi, since it could be entered from anywhere. -/
theorem no_phi_entry (h : f.Draft avail sources) {b : Block} {rest : List Block}
    (hf : f.blocks = b :: rest) {i : Instr} (hi : i ∈ b.code) : i.isPhi = false := by
  cases i with
  | phi result incoming type =>
    obtain ⟨-, hsources, -⟩ := h.incoming b (by simp [hf]) result incoming type hi
    rw [(h.entry b rest hf).2] at hsources
    obtain ⟨l, hl⟩ := Infinite.exists_notMem_finset (incoming.map Prod.snd).toFinset
    exact absurd (List.mem_toFinset.mpr (hsources l (Set.mem_univ l))) hl
  | _ => rfl

end Draft

/-! ## The check -/

theorem firstRepeated_eq_none {seen labels : List Nat} (h : labels.Nodup)
    (hseen : ∀ l ∈ labels, l ∉ seen) : firstRepeated seen labels = none := by
  induction labels generalizing seen with
  | nil => rfl
  | cons l labels ih =>
    rw [List.nodup_cons] at h
    rw [firstRepeated, if_neg (hseen l (by simp))]
    refine ih h.2 fun k hk => ?_
    simp only [List.mem_cons, not_or]
    exact ⟨fun heq => h.1 (heq ▸ hk), hseen k (by simp [hk])⟩

/-- Phis in front of a block that name predecessors only are no fault. -/
theorem phiFault?_eq_none {label : Nat} {predecessors : List Nat} {front : Bool}
    {code : List Instr} (h : IsCode front code)
    (hphi : ∀ result incoming type, .phi result incoming type ∈ code →
      ∀ source ∈ incoming.map Prod.snd, source ∈ predecessors) :
    phiFault? label predecessors (!front) code = none := by
  induction code generalizing front with
  | nil => rfl
  | cons i code ih =>
    have hrest := fun result incoming type hmem =>
      hphi result incoming type (List.mem_cons_of_mem i hmem)
    cases i with
    | phi result incoming type =>
      obtain rfl : front = true := h.1 rfl
      have hcode : IsCode true code := by simpa [Instr.isPhi] using h.2.2
      simp only [phiFault?, Bool.not_true, Bool.false_eq_true, if_false]
      split
      · rename_i source hfind
        have hmem := hphi result incoming type (by simp) source
          (List.mem_map_of_mem (List.mem_of_find?_eq_some hfind))
        have hforeign := List.find?_some hfind
        simp [hmem] at hforeign
      · exact ih hcode hrest
    | _ =>
      have hcode : IsCode false code := by simpa [Instr.isPhi] using h.2.2
      exact ih hcode hrest

/-- Without phis there is no fault among them. -/
theorem phiFault?_of_no_phi {label : Nat} {predecessors : List Nat} {afterOther : Bool}
    {code : List Instr} (h : ∀ i ∈ code, i.isPhi = false) :
    phiFault? label predecessors afterOther code = none := by
  induction code generalizing afterOther with
  | nil => rfl
  | cons i code ih =>
    have hi := h i (by simp)
    cases i <;> simp only [Instr.isPhi, Bool.true_eq_false] at hi <;>
      exact ih fun j hj => h j (by simp [hj])

/-- A block without a terminator is at fault for that. -/
theorem blockFault?_of_open {b : Block} (h : b.isTerminated = false) :
    f.blockFault? b = some (if b.body = [] then .emptyBlock b.label
      else .missingTerminator b.label) := by
  rcases List.eq_nil_or_concat b.body with hnil | ⟨front, i, hbody⟩
  · simp [blockFault?, hnil]
  · rw [List.concat_eq_append] at hbody
    have hi : i.isTerminator = false := by
      by_contra hi
      rw [Bool.not_eq_false] at hi
      rw [Block.isTerminated_iff.mpr ⟨front, i, hbody, hi⟩] at h
      cases h
    simp [blockFault?, hbody, hi]

namespace Draft

/-- The phis of a draft are never at fault. -/
theorem phiFault?_body (h : f.Draft avail sources) {b : Block} (hb : b ∈ f.blocks) :
    phiFault? b.label (f.predecessors b.label) false b.body = none := by
  obtain ⟨_, done, last, hfront⟩ := h.front
  obtain ⟨entry, rest, hf⟩ : ∃ entry rest, f.blocks = entry :: rest := by
    rw [hfront.blocks]
    cases done <;> simp
  have hsplit : b = entry ∨ b ∈ rest := by simpa [hf] using hb
  rcases hsplit with rfl | hrest
  · refine phiFault?_of_no_phi fun i hi => ?_
    rw [h.body_eq hb, List.mem_append] at hi
    rcases hi with hi | hi
    · have halloca := (Block.mem_slots.mp hi).2
      cases i <;> simp_all [Instr.isAlloca, Instr.isPhi]
    · exact h.no_phi_entry hf hi
  · have hslots : b.slots = [] := hfront.slots_entry b (by simpa [hf] using hrest)
    have hbody : b.body = b.code := by rw [h.body_eq hb, hslots, List.nil_append]
    rw [hbody]
    refine phiFault?_eq_none (h.code b hb) fun result incoming type hphi source hsource => ?_
    obtain ⟨⟨v, source'⟩, hmem, rfl⟩ := List.mem_map.mp hsource
    obtain ⟨-, -, hincoming⟩ := h.incoming b hb result incoming type hphi
    obtain ⟨c, hc, rfl, pre, i, post, hi, hl, -⟩ := hincoming v source' hmem
    exact h.source_mem_predecessors hc hi hl

/-- A block of a draft with a terminator is not at fault. -/
theorem blockFault?_of_terminated (h : f.Draft avail sources) {b : Block} (hb : b ∈ f.blocks)
    (ht : b.isTerminated = true) : f.blockFault? b = none := by
  obtain ⟨front, last, hbody, hlast⟩ := Block.isTerminated_iff.mp ht
  have hearly : (front.any (·.isTerminator)) = false := by
    rw [List.any_eq_false]
    intro i hi
    simpa using h.no_early_terminator hb i (by simpa [hbody] using hi)
  have htargets : last.successors.find?
      (fun target => !(f.blocks.map (·.label)).contains target) = none := by
    rw [List.find?_eq_none]
    intro l hl
    have hmem := h.target_mem hb (i := last) (by simp [hbody]) hl
    simpa [labels] using hmem
  have hreturns : returnsAs f.returnType last = true := by
    refine h.returns b hb last (Block.mem_code.mpr ⟨by simp [hbody], ?_⟩)
    exact Instr.isAlloca_eq_false_of_isTerminator hlast
  have hlast? : b.body.getLast? = some last := by simp [hbody]
  have hdrop : b.body.dropLast = front := by simp [hbody]
  simp only [blockFault?, hlast?, hdrop, hlast, hearly, htargets, h.phiFault?_body hb, hreturns,
    Bool.not_true, Bool.false_eq_true, if_false, if_true]

/-- The only block of a draft that can be at fault is the last one. -/
theorem fault?_eq (h : f.Draft avail sources) (hext : f.isExternal = false)
    (hf : f.blocks = done ++ [last]) : f.fault? = f.blockFault? last := by
  have hrepeated : firstRepeated [] (f.blocks.map (·.label)) = none :=
    firstRepeated_eq_none h.labels_nodup (by simp)
  have hdone : done.findSome? f.blockFault? = none := by
    rw [List.findSome?_eq_none_iff]
    intro b hb
    exact h.blockFault?_of_terminated (by simp [hf, hb]) (h.terminated b (by simpa [hf] using hb))
  rw [fault?, hrepeated]
  simp [hext, hf, List.findSome?_append, hdone]

end Draft

/-! ## Ending the last block -/

theorem split_concat {pre post code : List Instr} {i j : Instr}
    (h : code ++ [i] = pre ++ j :: post) :
    (∃ post', post = post' ++ [i] ∧ code = pre ++ j :: post') ∨
      (post = [] ∧ j = i ∧ pre = code) := by
  rcases List.eq_nil_or_concat post with rfl | ⟨post', k, rfl⟩
  · obtain ⟨hcode, hi⟩ := List.append_inj' h rfl
    simp only [List.cons.injEq, and_true] at hi
    exact .inr ⟨rfl, hi.symm, hcode.symm⟩
  · rw [List.concat_eq_append, ← List.cons_append, ← List.append_assoc] at h
    obtain ⟨hcode, hi⟩ := List.append_inj' h rfl
    simp only [List.cons.injEq, and_true] at hi
    exact .inl ⟨post', by rw [List.concat_eq_append, hi], hcode⟩

/-- The function with one more instruction in its last block. -/
def pushLast (f : FunctionDef) (done : List Block) (last : Block) (i : Instr) : FunctionDef :=
  { f with blocks := done ++ [last.push i] }

section

variable {i j : Instr} {c : Block} {pre post : List Instr}

theorem mem_blocks_pushLast :
    c ∈ (f.pushLast done last i).blocks ↔ c ∈ done ∨ c = last.push i := by
  simp [pushLast]

theorem labels_pushLast (hf : f.blocks = done ++ [last]) :
    (f.pushLast done last i).labels = f.labels := by
  simp [pushLast, labels, hf]

theorem base_pushLast (hf : f.blocks = done ++ [last]) (hi : i.isAlloca = false) :
    (f.pushLast done last i).base = f.base := by
  simp only [base, pushLast, FunctionBuilder.Front.slots_push hf hi]
  rfl

/-- Every block of the new function has the label of one of the old function. -/
theorem exists_block_pushLast (hf : f.blocks = done ++ [last])
    (hc : c ∈ (f.pushLast done last i).blocks) : ∃ c' ∈ f.blocks, c'.label = c.label := by
  rcases mem_blocks_pushLast.mp hc with hc | rfl
  · exact ⟨c, by simp [hf, hc], rfl⟩
  · exact ⟨last, by simp [hf], rfl⟩

/-- A place in the code of the new function is one of the old function, or the new end. -/
theorem code_of_pushLast (hf : f.blocks = done ++ [last]) (hi : i.isAlloca = false)
    (hc : c ∈ (f.pushLast done last i).blocks) (hj : c.code = pre ++ j :: post) :
    j = i ∨ ∃ c' ∈ f.blocks, c'.label = c.label ∧ ∃ rest, c'.code = pre ++ j :: rest := by
  rcases mem_blocks_pushLast.mp hc with hc | rfl
  · exact .inr ⟨c, by simp [hf, hc], rfl, post, hj⟩
  · rw [Block.code_push _ hi] at hj
    rcases split_concat hj with ⟨rest, -, hcode⟩ | ⟨-, rfl, -⟩
    · exact .inr ⟨last, by simp [hf], rfl, rest, hcode⟩
    · exact .inl rfl

/-- Every place in the code of the old function is one of the new function. -/
theorem code_pushLast (hf : f.blocks = done ++ [last]) (hi : i.isAlloca = false)
    (hc : c ∈ f.blocks) (hj : c.code = pre ++ j :: post) :
    ∃ c' ∈ (f.pushLast done last i).blocks, c'.label = c.label ∧
      ∃ rest, c'.code = pre ++ j :: rest := by
  simp only [hf, List.mem_append, List.mem_singleton] at hc
  rcases hc with hc | rfl
  · exact ⟨c, mem_blocks_pushLast.mpr (.inl hc), rfl, post, hj⟩
  · refine ⟨c.push i, mem_blocks_pushLast.mpr (.inr rfl), rfl, post ++ [i], ?_⟩
    rw [Block.code_push _ hi, hj]
    simp

end

namespace Draft

theorem front_pushLast (h : f.Draft avail sources) (hf : f.blocks = done ++ [last]) {i : Instr}
    (hterm : i.isTerminator = true) :
    ∃ b done' last', FunctionBuilder.Front b (f.pushLast done last i) done' last' := by
  obtain ⟨b, done', last', hfront⟩ := h.front
  obtain ⟨rfl, hlast⟩ := List.append_inj' (hfront.blocks.symm.trans hf) rfl
  obtain rfl : last' = last := by simpa using hlast
  exact ⟨_, _, _, hfront.push (Instr.isAlloca_eq_false_of_isTerminator hterm)
    (by simp [Instr.result?_eq_none_of_isTerminator hterm])⟩

/-- A draft stays one if its last block is ended by an instruction that needs nothing. -/
theorem pushLast (h : f.Draft avail sources) (hf : f.blocks = done ++ [last])
    (hopen : last.isTerminated = false) {i : Instr} (hterm : i.isTerminator = true)
    (hoperands : i.operands = []) (hsuccessors : i.successors = [])
    (hreturns : returnsAs f.returnType i = true) :
    (f.pushLast done last i).Draft avail sources where
  front := h.front_pushLast hf hterm
  entry := by
    intro c rest hc
    cases done with
    | nil =>
      simp only [FunctionDef.pushLast, List.nil_append, List.cons.injEq] at hc
      exact hc.1 ▸ h.entry last [] hf
    | cons d done =>
      simp only [FunctionDef.pushLast, List.cons_append, List.cons.injEq] at hc
      exact hc.1 ▸ h.entry d _ hf
  code := by
    intro c hc
    rcases mem_blocks_pushLast.mp hc with hc | rfl
    · exact h.code c (by simp [hf, hc])
    · rw [Block.code_push _ (Instr.isAlloca_eq_false_of_isTerminator hterm)]
      refine isCode_append (h.code last (by simp [hf])) ?_
        (Instr.isPhi_eq_false_of_isTerminator hterm)
      rwa [Block.isTerminated_of_slots_first (h.body_eq (by simp [hf])),
        Option.isSome_eq_false_iff, Option.isNone_iff_eq_none] at hopen
  terminated := by
    intro c hc
    exact h.terminated c (by simpa [FunctionDef.pushLast, hf] using hc)
  computed := by
    intro c hc t ht
    obtain ⟨c', hc', hlabel⟩ := exists_block_pushLast hf hc
    obtain ⟨d, hd, j, hj, hresult⟩ := h.computed c' hc' t (hlabel ▸ ht)
    obtain ⟨pre, post, hj⟩ := List.append_of_mem hj
    obtain ⟨d', hd', -, rest, hj'⟩ :=
      code_pushLast hf (Instr.isAlloca_eq_false_of_isTerminator hterm) hd hj
    exact ⟨d', hd', j, by simp [hj'], hresult⟩
  operands := by
    have halloca := Instr.isAlloca_eq_false_of_isTerminator hterm
    intro c hc pre j post hj hjphi
    rcases code_of_pushLast hf halloca hc hj with rfl | ⟨c', hc', hlabel, rest, hj'⟩
    · intro t ht
      simp [hoperands] at ht
    · rw [base_pushLast hf halloca, ← hlabel]
      exact h.operands c' hc' pre j rest hj' hjphi
  targets := by
    intro c hc pre j post hj l hl
    rcases code_of_pushLast hf (Instr.isAlloca_eq_false_of_isTerminator hterm) hc hj with
      rfl | ⟨c', hc', hlabel, rest, hj'⟩
    · simp [hsuccessors] at hl
    · rw [labels_pushLast hf, ← hlabel]
      exact h.targets c' hc' pre j rest hj' l hl
  incoming := by
    have halloca := Instr.isAlloca_eq_false_of_isTerminator hterm
    intro c hc result incoming type hj
    obtain ⟨pre, post, hj⟩ := List.append_of_mem hj
    rcases code_of_pushLast hf halloca hc hj with rfl | ⟨c', hc', hlabel, rest, hj'⟩
    · cases hterm
    · rw [base_pushLast hf halloca, ← hlabel]
      obtain ⟨hnodup, hsources, hin⟩ := h.incoming c' hc' result incoming type (by simp [hj'])
      refine ⟨hnodup, hsources, fun value source hvs => ?_⟩
      obtain ⟨d, hd, rfl, front, k, behind, hk, hl, hvalue⟩ := hin value source hvs
      obtain ⟨d', hd', hlabel', behind', hk'⟩ := code_pushLast hf halloca hd hk
      exact ⟨d', hd', hlabel', front, k, behind', hk', hl, hvalue⟩
  returns := by
    intro c hc j hj
    obtain ⟨pre, post, hj⟩ := List.append_of_mem hj
    rcases code_of_pushLast hf (Instr.isAlloca_eq_false_of_isTerminator hterm) hc hj with
      rfl | ⟨c', hc', -, rest, hj'⟩
    · exact hreturns
    · exact h.returns c' hc' j (by simp [hj'])

/-- Finishing a draft ends at most its last block. -/
theorem blocks_finalize (h : f.Draft avail sources) (hf : f.blocks = done ++ [last]) :
    f.finalize.blocks = done ++ [f.closeBlock done.length last] := by
  have hdone : done.mapIdx f.closeBlock = done := by
    apply List.ext_getElem (by simp)
    intro k hk hk'
    have hterm := h.terminated done[k] (by simp [hf])
    simp [closeBlock, hterm]
  rw [finalize, hf, List.mapIdx_append, hdone]
  simp

/-- How the last block is finished. -/
theorem finalize_cases (h : f.Draft avail sources) (hf : f.blocks = done ++ [last]) :
    (f.finalize = f ∧ (last.isTerminated = true ∨
      f.returnType ≠ .void ∧ (done = [] ∨ f.predecessors last.label ≠ []))) ∨
    (last.isTerminated = false ∧ f.returnType = .void ∧
      f.finalize = f.pushLast done last (.ret none)) ∨
    (last.isTerminated = false ∧ f.returnType ≠ .void ∧ done ≠ [] ∧
      f.predecessors last.label = [] ∧ f.finalize = f.pushLast done last .unreachable) := by
  have hwith {b : Block} (hb : f.closeBlock done.length last = b) :
      f.finalize = { f with blocks := done ++ [b] } := by
    rw [← hb, ← h.blocks_finalize hf]
    rfl
  have hself : f = { f with blocks := done ++ [last] } := by rw [← hf]
  have hlength : done.length + 1 = f.blocks.length := by simp [hf]
  cases hterm : last.isTerminated with
  | true =>
    refine .inl ⟨(hwith ?_).trans hself.symm, .inl rfl⟩
    simp [closeBlock, hterm]
  | false =>
    by_cases hvoid : f.returnType = .void
    · refine .inr (.inl ⟨rfl, hvoid, hwith ?_⟩)
      simp [closeBlock, hterm, hvoid, hlength]
    · by_cases hunreached : done.length ≠ 0 ∧ (f.predecessors last.label).isEmpty = true
      · refine .inr (.inr ⟨rfl, hvoid, ?_, ?_, hwith ?_⟩)
        · simpa using hunreached.1
        · simpa using hunreached.2
        · simp only [closeBlock, hterm, hvoid, hunreached, Bool.false_eq_true, false_and, if_false,
            ne_eq]
          simp
      · refine .inl ⟨(hwith ?_).trans hself.symm, .inr ⟨hvoid, ?_⟩⟩
        · simp only [closeBlock, hterm, hvoid, hunreached, Bool.false_eq_true, false_and, if_false]
        · by_cases hdone : done = []
          · exact .inl hdone
          · refine .inr fun hpred => hunreached ⟨by simpa using hdone, by simp [hpred]⟩

/-- A finished draft is a draft. -/
theorem finalize (h : f.Draft avail sources) : f.finalize.Draft avail sources := by
  obtain ⟨done, last, hf⟩ := h.exists_last
  rcases h.finalize_cases hf with ⟨heq, -⟩ | ⟨hopen, hvoid, heq⟩ | ⟨hopen, -, -, -, heq⟩
  · rwa [heq]
  · rw [heq]
    exact h.pushLast hf hopen rfl rfl rfl (by simp [returnsAs, hvoid])
  · rw [heq]
    exact h.pushLast hf hopen rfl rfl rfl rfl

/-- A finished draft whose last block was ended passes the check. -/
theorem fault?_of_pushLast (h : f.finalize.Draft avail sources) (hext : f.isExternal = false)
    {i : Instr} (hi : i.isTerminator = true) (heq : f.finalize = f.pushLast done last i) :
    f.finalize.fault? = none := by
  have hblocks : f.finalize.blocks = done ++ [last.push i] := by rw [heq]; rfl
  rw [h.fault?_eq hext hblocks]
  refine h.blockFault?_of_terminated (by simp [hblocks]) ?_
  exact Block.isTerminated_iff.mpr ⟨last.body, i, rfl, hi⟩

/-- A finished draft without a result passes the check. -/
theorem fault?_finalize_of_void (h : f.Draft avail sources) (hext : f.isExternal = false)
    (hvoid : f.returnType = .void) : f.finalize.fault? = none := by
  obtain ⟨done, last, hf⟩ := h.exists_last
  rcases h.finalize_cases hf with ⟨heq, hlast⟩ | ⟨-, -, heq⟩ | ⟨-, hresult, -⟩
  · have hterm : last.isTerminated = true := hlast.resolve_right fun hresult => hresult.1 hvoid
    rw [heq, h.fault?_eq hext hf]
    exact h.blockFault?_of_terminated (by simp [hf]) hterm
  · exact fault?_of_pushLast h.finalize hext rfl heq
  · exact absurd hvoid hresult

/-- A finished draft with a result is at fault if and only if its last block is open and can be
entered: by a call if it is the only one, or from another block. -/
theorem fault?_finalize_of_result (h : f.Draft avail sources) (hext : f.isExternal = false)
    (hf : f.blocks = done ++ [last]) (hresult : f.returnType ≠ .void) :
    f.finalize.fault? =
      if last.isTerminated = false ∧ (done = [] ∨ f.predecessors last.label ≠ []) then
        some (if last.body = [] then .emptyBlock last.label else .missingTerminator last.label)
      else none := by
  rcases h.finalize_cases hf with ⟨heq, hlast⟩ | ⟨-, hvoid, -⟩ | ⟨-, -, hdone, hpred, heq⟩
  · rw [heq, h.fault?_eq hext hf]
    cases hterm : last.isTerminated with
    | true => simpa using h.blockFault?_of_terminated (by simp [hf]) hterm
    | false =>
      have hentered : done = [] ∨ f.predecessors last.label ≠ [] := by
        rcases hlast with hlast | hlast
        · rw [hterm] at hlast
          cases hlast
        · exact hlast.2
      rw [if_pos ⟨rfl, hentered⟩, blockFault?_of_open hterm]
  · exact absurd hvoid hresult
  · rw [fault?_of_pushLast h.finalize hext rfl heq, if_neg]
    rintro ⟨-, hdone' | hpred'⟩
    · exact hdone hdone'
    · exact hpred' hpred

end Draft

end FunctionDef

end SsaLowering
