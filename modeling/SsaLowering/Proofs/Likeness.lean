import Mathlib.Data.List.Forall2
import SsaLowering.Code.Verification
import SsaLowering.Lowering.Function
import SsaLowering.Proofs.Parallel

/-!
# Code that is alike

Two pieces of code are alike if they are the same up to their operands, and the operands at the
same places belong together. The builder does not look at operands, so what it does to functions
that are alike leaves them alike, and so does the end of a function. The check finds the same
faults in them.
-/

namespace SsaLowering

variable {R R' : Value → Value → Prop}

/-- Instructions that are the same up to their operands. -/
inductive Instr.Like (R : Value → Value → Prop) : Instr → Instr → Prop
  | binary {lhs lhs' rhs rhs' : Value} (result : Nat) (op : Opcode) (type : MachineType) :
    R lhs lhs' → R rhs rhs' →
      Like R (.binary result op lhs rhs type) (.binary result op lhs' rhs' type)
  | load {ptr ptr' : Value} (result : Nat) (type : MachineType) :
    R ptr ptr' → Like R (.load result ptr type) (.load result ptr' type)
  | store {value value' ptr ptr' : Value} (type : MachineType) :
    R value value' → R ptr ptr' → Like R (.store value ptr type) (.store value' ptr' type)
  | address {ptr ptr' : Value} {indices indices' : List Value} (result : Nat) (base : MachineType) :
    R ptr ptr' → List.Forall₂ R indices indices' →
      Like R (.address result base ptr indices) (.address result base ptr' indices')
  | extract {aggregate aggregate' : Value} (result : Nat) (type : MachineType) (index : Nat)
      (fieldType : MachineType) : R aggregate aggregate' →
    Like R (.extract result aggregate type index fieldType)
      (.extract result aggregate' type index fieldType)
  | alloca (result : Nat) (type : MachineType) : Like R (.alloca result type) (.alloca result type)
  | call {callee callee' : Value} {args args' : List (MachineType × Value)} (result : Option Nat)
      (type : MachineType) : R callee callee' →
    List.Forall₂ (fun a a' => a.1 = a'.1 ∧ R a.2 a'.2) args args' →
      Like R (.call result callee type args) (.call result callee' type args')
  | leave : Like R (.ret none) (.ret none)
  | ret {value value' : Value} (type : MachineType) :
    R value value' → Like R (.ret (some (type, value))) (.ret (some (type, value')))
  | jump (target : Nat) : Like R (.jump target) (.jump target)
  | branch {condition condition' : Value} (ifTrue ifFalse : Nat) :
    R condition condition' →
      Like R (.branch condition ifTrue ifFalse) (.branch condition' ifTrue ifFalse)
  | phi {incoming incoming' : List (Value × Nat)} (result : Nat) (type : MachineType) :
    List.Forall₂ (fun a a' => R a.1 a'.1 ∧ a.2 = a'.2) incoming incoming' →
      Like R (.phi result incoming type) (.phi result incoming' type)
  | convert {value value' : Value} (result : Nat) (op : Conversion) (source target : MachineType) :
    R value value' →
      Like R (.convert result op value source target) (.convert result op value' source target)
  | unreachable : Like R .unreachable .unreachable

/-- Blocks with the same label whose instructions are alike. -/
structure Block.Like (R : Value → Value → Prop) (b b' : Block) : Prop where
  label : b'.label = b.label
  hint : b'.hint = b.hint
  body : List.Forall₂ (Instr.Like R) b.body b'.body

/-- Functions with the same head whose blocks are alike. -/
structure FunctionDef.Like (R : Value → Value → Prop) (f f' : FunctionDef) : Prop where
  head : f' = { f with blocks := f'.blocks }
  blocks : List.Forall₂ (Block.Like R) f.blocks f'.blocks

/-- Builders that have drawn the same numbers, for functions that are alike. -/
structure FunctionBuilder.Like (R : Value → Value → Prop) (b b' : FunctionBuilder) : Prop where
  function : Option.Rel (FunctionDef.Like R) b.function b'.function
  current : b'.current = b.current
  nextTemp : b'.nextTemp = b.nextTemp
  nextLabel : b'.nextLabel = b.nextLabel

/-! ## Other operands -/

namespace Instr

variable {i i' : Instr}

theorem Like.mono (h : i.Like R i') (hR : ∀ v v', R v v' → R' v v') : i.Like R' i' := by
  cases h with
  | binary result op type hl hr => exact .binary _ _ _ (hR _ _ hl) (hR _ _ hr)
  | load result type hp => exact .load _ _ (hR _ _ hp)
  | store type hv hp => exact .store _ (hR _ _ hv) (hR _ _ hp)
  | address result base hp hi => exact .address _ _ (hR _ _ hp) (hi.imp hR)
  | extract result type index fieldType ha => exact .extract _ _ _ _ (hR _ _ ha)
  | alloca => exact .alloca _ _
  | call result type hc ha => exact .call _ _ (hR _ _ hc) (ha.imp fun _ _ h => ⟨h.1, hR _ _ h.2⟩)
  | leave => exact .leave
  | ret type hv => exact .ret _ (hR _ _ hv)
  | jump => exact .jump _
  | branch ifTrue ifFalse hc => exact .branch _ _ (hR _ _ hc)
  | phi result type hi => exact .phi _ _ (hi.imp fun _ _ h => ⟨hR _ _ h.1, h.2⟩)
  | convert result op source target hv => exact .convert _ _ _ _ (hR _ _ hv)
  | unreachable => exact .unreachable

theorem Like.isTerminator (h : i.Like R i') : i'.isTerminator = i.isTerminator := by
  cases h <;> rfl

theorem Like.successors (h : i.Like R i') : i'.successors = i.successors := by
  cases h <;> rfl

theorem Like.isAlloca (h : i.Like R i') : i'.isAlloca = i.isAlloca := by
  cases h <;> rfl

theorem Like.returnsAs (h : i.Like R i') (type : MachineType) :
    FunctionDef.returnsAs type i' = FunctionDef.returnsAs type i := by
  cases h <;> rfl

end Instr

/-! ## Lists whose elements belong together -/

section Lists

variable {α β : Type} {P : α → α → Prop} {as as' : List α}

theorem optionRel_cases {a a' : Option α} (h : Option.Rel P a a') :
    (a = none ∧ a' = none) ∨ ∃ b b', a = some b ∧ a' = some b' ∧ P b b' := by
  cases h with
  | none => exact .inl ⟨rfl, rfl⟩
  | some h => exact .inr ⟨_, _, rfl, rfl, h⟩

theorem map_eq_of_forall₂ {α' : Type} {P : α → α' → Prop} {as' : List α'} {f : α → β}
    {f' : α' → β} (h : List.Forall₂ P as as') (hf : ∀ a a', P a a' → f' a' = f a) :
    as'.map f' = as.map f := by
  induction h with
  | nil => rfl
  | cons ha _ ih => rw [List.map_cons, List.map_cons, hf _ _ ha, ih]

theorem rel_find? {p : α → Bool} (h : List.Forall₂ P as as')
    (hp : ∀ a a', P a a' → p a' = p a) : Option.Rel P (as.find? p) (as'.find? p) := by
  induction h with
  | nil => exact .none
  | @cons a a' as as' ha _ ih =>
    rw [List.find?_cons, List.find?_cons, hp _ _ ha]
    split
    · exact .some ha
    · exact ih

theorem rel_getLast? (h : List.Forall₂ P as as') : Option.Rel P as.getLast? as'.getLast? := by
  rw [List.getLast?_eq_head?_reverse, List.getLast?_eq_head?_reverse]
  have hreverse := List.forall₂_reverse_iff.mpr h
  revert hreverse
  generalize as.reverse = bs
  generalize as'.reverse = bs'
  rintro (_ | ⟨ha, _⟩)
  · exact .none
  · exact .some ha

theorem forall₂_takeWhile {p : α → Bool} (h : List.Forall₂ P as as')
    (hp : ∀ a a', P a a' → p a' = p a) : List.Forall₂ P (as.takeWhile p) (as'.takeWhile p) := by
  induction h with
  | nil => exact .nil
  | cons ha _ ih =>
    rw [List.takeWhile_cons, List.takeWhile_cons, hp _ _ ha]
    split
    · exact .cons ha ih
    · exact .nil

theorem forall₂_dropWhile {p : α → Bool} (h : List.Forall₂ P as as')
    (hp : ∀ a a', P a a' → p a' = p a) : List.Forall₂ P (as.dropWhile p) (as'.dropWhile p) := by
  induction h with
  | nil => exact .nil
  | cons ha hrest ih =>
    rw [List.dropWhile_cons, List.dropWhile_cons, hp _ _ ha]
    split
    · exact ih
    · exact .cons ha hrest

theorem forall₂_mapIdx {f f' : Nat → α → α} (h : List.Forall₂ P as as')
    (hf : ∀ n a a', P a a' → P (f n a) (f' n a')) :
    List.Forall₂ P (as.mapIdx f) (as'.mapIdx f') := by
  induction h generalizing f f' with
  | nil => exact .nil
  | cons ha _ ih =>
    rw [List.mapIdx_cons, List.mapIdx_cons]
    exact .cons (hf 0 _ _ ha) (ih fun n => hf (n + 1))

end Lists

/-! ## Blocks -/

namespace Block

variable {b b' : Block} {i i' : Instr}

theorem Like.mono (h : b.Like R b') (hR : ∀ v v', R v v' → R' v v') : b.Like R' b' :=
  ⟨h.label, h.hint, h.body.imp fun _ _ hi => hi.mono hR⟩

theorem like_fresh (label : Nat) (hint : String) :
    (fresh label hint).Like R (fresh label hint) := ⟨rfl, rfl, .nil⟩

theorem Like.push (h : b.Like R b') (hi : i.Like R i') : (b.push i).Like R (b'.push i') :=
  ⟨h.label, h.hint, List.rel_append h.body (.cons hi .nil)⟩

theorem Like.insertSlot (h : b.Like R b') (slot : Instr) (hslot : slot.Like R slot) :
    (Build.insertSlot slot b).Like R (Build.insertSlot slot b') :=
  ⟨h.label, h.hint, List.rel_append (forall₂_takeWhile h.body fun _ _ hi => hi.isAlloca)
    (.cons hslot (forall₂_dropWhile h.body fun _ _ hi => hi.isAlloca))⟩

/-- The terminators of blocks that are alike lead to the same places. -/
theorem Like.terminator? (h : b.Like R b') :
    Option.Rel (Instr.Like R) b.terminator? b'.terminator? := by
  unfold Block.terminator?
  obtain ⟨hlast, hlast'⟩ | ⟨i, i', hlast, hlast', hi⟩ := optionRel_cases (rel_getLast? h.body)
  · rw [hlast, hlast']
    exact .none
  · rw [hlast, hlast', Option.filter_some, Option.filter_some, hi.isTerminator]
    split
    · exact .some hi
    · exact .none

theorem Like.isTerminated (h : b.Like R b') : b'.isTerminated = b.isTerminated := by
  unfold Block.isTerminated
  obtain ⟨hi, hi'⟩ | ⟨i, i', hi, hi', -⟩ := optionRel_cases h.terminator?
  · rw [hi, hi']
  · rw [hi, hi']
    rfl

theorem Like.successors (h : b.Like R b') : b'.successors = b.successors := by
  unfold Block.successors
  obtain ⟨hi, hi'⟩ | ⟨i, i', hi, hi', hlike⟩ := optionRel_cases h.terminator?
  · rw [hi, hi']
  · rw [hi, hi']
    exact hlike.successors

end Block

/-! ## Functions -/

namespace FunctionDef

variable {f f' : FunctionDef} {i i' : Instr}

theorem Like.mono (h : f.Like R f') (hR : ∀ v v', R v v' → R' v v') : f.Like R' f' :=
  ⟨h.head, h.blocks.imp fun _ _ hb => hb.mono hR⟩

theorem Like.withBlocks (h : f.Like R f') {blocks blocks' : List Block}
    (hblocks : List.Forall₂ (Block.Like R) blocks blocks') :
    FunctionDef.Like R { f with blocks := blocks } { f' with blocks := blocks' } :=
  ⟨by rw [h.head], hblocks⟩

theorem Like.labels (h : f.Like R f') : f'.blocks.map (·.label) = f.blocks.map (·.label) :=
  map_eq_of_forall₂ h.blocks fun _ _ hb => hb.label

theorem Like.block? (h : f.Like R f') (label : Nat) :
    Option.Rel (Block.Like R) (f.block? label) (f'.block? label) :=
  rel_find? h.blocks fun _ _ hb => by rw [hb.label]

theorem forall₂_modifyFirst {change change' : Block → Block} {blocks blocks' : List Block}
    (h : List.Forall₂ (Block.Like R) blocks blocks') (label : Nat)
    (hchange : ∀ b b', b.Like R b' → (change b).Like R (change' b')) :
    List.Forall₂ (Block.Like R) (modifyFirst label change blocks)
      (modifyFirst label change' blocks') := by
  induction h with
  | nil => exact .nil
  | cons hb hrest ih =>
    rw [modifyFirst, modifyFirst, hb.label]
    split
    · exact .cons (hchange _ _ hb) hrest
    · exact .cons hb ih

theorem Like.predecessors (h : f.Like R f') (label : Nat) :
    f'.predecessors label = f.predecessors label := by
  have hpred : ∀ {bs bs' : List Block}, List.Forall₂ (Block.Like R) bs bs' →
      (bs'.filter (·.successors.contains label)).map (·.label) =
        (bs.filter (·.successors.contains label)).map (·.label) := by
    intro bs bs' h
    induction h with
    | nil => rfl
    | cons hb _ ih =>
      rw [List.filter_cons, List.filter_cons, hb.successors]
      split
      · rw [List.map_cons, List.map_cons, ih, hb.label]
      · exact ih
  exact hpred h.blocks

/-- The ends of functions that are alike are alike. -/
theorem Like.finalize (h : f.Like R f') : f.finalize.Like R f'.finalize := by
  have htype : f'.returnType = f.returnType := by rw [h.head]
  refine h.withBlocks (forall₂_mapIdx h.blocks fun n b b' hb => ?_)
  unfold closeBlock
  rw [hb.isTerminated, htype, h.blocks.length_eq, hb.label, h.predecessors]
  split
  · exact hb
  · split
    · exact hb.push .leave
    · split
      · exact hb.push .unreachable
      · exact hb

/-! ### The check -/

theorem phiFault?_eq {body body' : List Instr} (h : List.Forall₂ (Instr.Like R) body body')
    (label : Nat) (predecessors : List Nat) (afterOther : Bool) :
    phiFault? label predecessors afterOther body' =
      phiFault? label predecessors afterOther body := by
  induction h generalizing afterOther with
  | nil => rfl
  | @cons i i' body body' hi _ ih =>
    cases hi with
    | @phi incoming incoming' result type hincoming =>
      rw [phiFault?, phiFault?]
      have hfind := rel_find? (p := fun a : Value × Nat => !predecessors.contains a.2) hincoming
        fun a a' ha => by rw [ha.2]
      split
      · rfl
      · obtain ⟨hnone, hnone'⟩ | ⟨a, a', hsome, hsome', -, ha⟩ := optionRel_cases hfind
        · rw [hnone, hnone']
          exact ih afterOther
        · rw [hsome, hsome']
          exact congrArg (fun source => some (ShapeFault.strangePhi label source)) ha.symm
    | _ => exact ih true

theorem Like.blockFault? (h : f.Like R f') {b b' : Block} (hb : b.Like R b') :
    f'.blockFault? b' = f.blockFault? b := by
  have htype : f'.returnType = f.returnType := by rw [h.head]
  have hearly : b'.body.dropLast.any (·.isTerminator) = b.body.dropLast.any (·.isTerminator) := by
    have hmap := map_eq_of_forall₂ hb.body fun _ _ hi => hi.isTerminator
    have hany (body : List Instr) : body.dropLast.any (·.isTerminator) =
        (body.map (·.isTerminator)).dropLast.any id := by
      rw [← List.map_dropLast, List.any_map]
      rfl
    rw [hany, hany, hmap]
  unfold FunctionDef.blockFault?
  rw [hb.label, hearly, h.labels, h.predecessors, phiFault?_eq hb.body, htype]
  obtain ⟨hlast, hlast'⟩ | ⟨i, i', hlast, hlast', hi⟩ := optionRel_cases (rel_getLast? hb.body)
  · rw [hlast, hlast']
  · rw [hlast, hlast']
    dsimp only
    rw [hi.isTerminator, hi.successors, hi.returnsAs]

/-- The check finds the same fault in functions that are alike. -/
theorem Like.fault? (h : f.Like R f') : f'.fault? = f.fault? := by
  have hexternal : f'.isExternal = f.isExternal := by rw [h.head]
  have hempty : f'.blocks.isEmpty = f.blocks.isEmpty := by
    rw [Bool.eq_iff_iff, List.isEmpty_iff_length_eq_zero, List.isEmpty_iff_length_eq_zero,
      h.blocks.length_eq]
  have hfaults : f'.blocks.findSome? f'.blockFault? = f.blocks.findSome? f.blockFault? := by
    have hall : ∀ {bs bs' : List Block}, List.Forall₂ (Block.Like R) bs bs' →
        bs'.findSome? f'.blockFault? = bs.findSome? f.blockFault? := by
      intro bs bs' hbs
      induction hbs with
      | nil => rfl
      | cons hb _ ih => rw [List.findSome?_cons, List.findSome?_cons, h.blockFault? hb, ih]
    exact hall h.blocks
  rw [FunctionDef.fault?, FunctionDef.fault?, hexternal, hempty, h.labels, hfaults]

end FunctionDef

/-! ## The builder -/

theorem FunctionBuilder.Like.mono {b b' : FunctionBuilder} (h : b.Like R b')
    (hR : ∀ v v', R v v' → R' v v') : b.Like R' b' where
  function := by
    obtain ⟨hf, hf'⟩ | ⟨f, f', hf, hf', hlike⟩ := optionRel_cases h.function
    · rw [hf, hf']
      exact .none
    · rw [hf, hf']
      exact .some (hlike.mono hR)
  current := h.current
  nextTemp := h.nextTemp
  nextLabel := h.nextLabel

theorem FunctionBuilder.Like.isTerminated {b b' : FunctionBuilder} (h : b.Like R b') :
    b'.isTerminated = b.isTerminated := by
  unfold FunctionBuilder.isTerminated
  rw [h.current]
  obtain ⟨hf, hf'⟩ | ⟨f, f', hf, hf', hlike⟩ := optionRel_cases h.function
  · rw [hf, hf']
  · rw [hf, hf']
    cases b.current with
    | none => rfl
    | some label =>
      dsimp only
      obtain ⟨hb, hb'⟩ | ⟨block, block', hb, hb', hblock⟩ := optionRel_cases (hlike.block? label)
      · rw [hb, hb']
      · rw [hb, hb']
        exact hblock.isTerminated

namespace Build

variable {α : Type} {i i' : Instr} {instr instr' : Nat → Instr}

/-- From builders that are alike, the actions lead to builders that are alike. -/
def Like (R : Value → Value → Prop) (x x' : Build α) (Q : α → α → Prop) : Prop :=
  Parallel (fun _ : Still => FunctionBuilder.Like R) .still x x' fun _ => Q

theorem like_get : Like R get get (FunctionBuilder.Like R) :=
  fun _ _ hb => ⟨.still, le_rfl, hb, .ok hb⟩

theorem like_modify {change change' : FunctionBuilder → FunctionBuilder}
    (h : ∀ b b', b.Like R b' → (change b).Like R (change' b')) :
    Like R (modify change) (modify change') fun _ _ => True :=
  fun _ _ hb => ⟨.still, le_rfl, h _ _ hb, .ok trivial⟩

theorem like_newTemp : Like R newTemp newTemp fun t t' => t' = t :=
  fun _ _ hb => ⟨.still, le_rfl,
    ⟨hb.function, hb.current, congrArg (· + 1) hb.nextTemp, hb.nextLabel⟩, .ok hb.nextTemp⟩

theorem like_newLabel : Like R newLabel newLabel fun l l' => l' = l :=
  fun _ _ hb => ⟨.still, le_rfl,
    ⟨hb.function, hb.current, hb.nextTemp, congrArg (· + 1) hb.nextLabel⟩, .ok hb.nextLabel⟩

theorem like_function : Like R function function (FunctionDef.Like R) := by
  refine like_get.bind fun _ b b' _ hb => ?_
  obtain ⟨hf, hf'⟩ | ⟨f, f', hf, hf', hlike⟩ := optionRel_cases hb.function
  · rw [hf, hf']
    exact .throw _
  · rw [hf, hf']
    exact .pure hlike

theorem like_createBlock (label : Nat) (hint : String) :
    Like R (createBlock label hint) (createBlock label hint) fun _ _ => True := by
  refine like_function.bind fun _ f f' _ hf => ?_
  have hfound : (f'.block? label).isSome = (f.block? label).isSome := by
    obtain ⟨hb, hb'⟩ | ⟨b, b', hb, hb', -⟩ := optionRel_cases (hf.block? label)
    all_goals
      rw [hb, hb']
      try rfl
  rw [hfound]
  refine Parallel.guarded' (like_modify fun b b' hb => ⟨?_, rfl, hb.nextTemp, hb.nextLabel⟩)
  exact .some (hf.withBlocks (List.rel_append hf.blocks (.cons (Block.like_fresh label hint) .nil)))

theorem like_appendBlock (hint : String) :
    Like R (appendBlock hint) (appendBlock hint) fun l l' => l' = l := by
  refine like_newLabel.bind fun _ l l' _ hl => ?_
  rw [hl]
  exact (like_createBlock l hint).bind fun _ _ _ _ _ => .pure rfl

/-- An instruction that is alike in both is added to both, or to none. -/
theorem like_emit (hi : i.Like R i') : Like R (emit i) (emit i') fun _ _ => True := by
  refine like_function.bind fun _ f f' _ hf => like_get.bind fun _ b b' _ hb => ?_
  rw [hb.current]
  cases b.current with
  | none => exact .throw _
  | some label =>
    dsimp only
    obtain ⟨hnone, hnone'⟩ | ⟨block, block', hsome, hsome', hblock⟩ :=
      optionRel_cases (hf.block? label)
    · rw [hnone, hnone']
      exact .throw _
    · rw [hsome, hsome']
      dsimp only
      rw [hblock.isTerminated]
      refine Parallel.guarded' (like_modify fun b b' hb => ⟨?_, hb.current, hb.nextTemp,
        hb.nextLabel⟩)
      exact .some (hf.withBlocks (FunctionDef.forall₂_modifyFirst hf.blocks label
        fun _ _ hblock => hblock.push hi))

/-- The result of an instruction is a new temporary, the same in both. -/
theorem like_define (h : ∀ t, (instr t).Like R (instr' t)) :
    Like R (define instr) (define instr') fun v v' => v' = v ∧ ∃ t, v = .temp t := by
  refine like_newTemp.bind fun _ t t' _ ht => ?_
  rw [ht]
  exact (like_emit (h t)).bind fun _ _ _ _ _ => .pure ⟨rfl, t, rfl⟩

theorem like_entryAlloca (type : MachineType) :
    Like R (entryAlloca type) (entryAlloca type) fun v v' => v' = v ∧ ∃ t, v = .temp t := by
  refine like_newTemp.bind fun _ t t' _ ht => like_function.bind fun _ f f' _ hf => ?_
  rw [ht]
  have hblocks := hf.blocks
  revert hblocks
  cases hf₀ : f.blocks with
  | nil =>
    intro hblocks
    rw [List.forall₂_nil_left_iff.mp hblocks]
    exact .throw _
  | cons entry rest =>
    intro hblocks
    obtain ⟨entry', rest', hentry, hrest, heq⟩ := List.forall₂_cons_left_iff.mp hblocks
    rw [heq]
    dsimp only
    refine (like_modify fun b b' hb => ?_).bind fun _ _ _ _ _ => .pure ⟨rfl, t, rfl⟩
    exact ⟨.some (hf.withBlocks (.cons (hentry.insertSlot _ (.alloca t type)) hrest)),
      hb.current, hb.nextTemp, hb.nextLabel⟩

/-- A call has a result in both, or in none. -/
theorem like_call {callee callee' : Value} {args args' : List (MachineType × Value)}
    (type : MachineType) (hcallee : R callee callee')
    (hargs : List.Forall₂ (fun a a' => a.1 = a'.1 ∧ R a.2 a'.2) args args') :
    Like R (call callee type args) (call callee' type args') fun v v' =>
      v' = v ∧ ∀ result, v = some result → ∃ t, result = .temp t := by
  unfold call
  split
  · refine (like_emit (.call none type hcallee hargs)).bind fun _ _ _ _ _ => .pure ⟨rfl, ?_⟩
    simp
  · refine (like_define fun t => .call (some t) type hcallee hargs).bind fun _ v v' _ hv =>
      .pure ⟨by rw [hv.1], ?_⟩
    rintro _ ⟨⟩
    exact hv.2

end Build

end SsaLowering
