import SsaLowering.Lowering.Expression
import SsaLowering.Proofs.Action
import SsaLowering.Proofs.Execution
import SsaLowering.Proofs.Listing

/-!
# Extending a function

Actions that succeed only ever add to the function under construction: an instruction to the
current block, or a block. A machine that has executed all that was written finds next what is
written next, in whatever function comes out in the end.
-/

namespace SsaLowering

namespace FunctionDef

variable {f g h : FunctionDef} {l k : Nat} {b : Block} {change : Block → Block}

/-- Every block of a function is the beginning of a block of the other one. -/
def Within (f g : FunctionDef) : Prop :=
  ∀ l b, f.block? l = some b → ∃ b', g.block? l = some b' ∧ b.body <+: b'.body

theorem Within.refl (f : FunctionDef) : f.Within f := fun _ b hb => ⟨b, hb, List.prefix_refl _⟩

theorem Within.trans (hfg : f.Within g) (hgh : g.Within h) : f.Within h := by
  intro l b hb
  obtain ⟨b', hb', hbody⟩ := hfg l b hb
  obtain ⟨b'', hb'', hbody'⟩ := hgh l b' hb'
  exact ⟨b'', hb'', hbody.trans hbody'⟩

/-- What is no block of the longer function is no block of the shorter one. -/
theorem Within.block?_eq_none (hfg : f.Within g) (hg : g.block? l = none) : f.block? l = none := by
  cases hf : f.block? l with
  | none => rfl
  | some b =>
    obtain ⟨b', hb', -⟩ := hfg l b hf
    simp [hg] at hb'

theorem block?_modifyBlock (hchange : ∀ b, (change b).label = b.label) :
    (f.modifyBlock l change).block? k = if k = l then (f.block? l).map change else f.block? k := by
  simp only [block?, modifyBlock]
  induction f.blocks with
  | nil => simp [modifyFirst]
  | cons b rest ih =>
    by_cases hb : b.label = l
    · subst hb
      by_cases hk : b.label = k
      · simp [modifyFirst, hchange, hk]
      · simp [modifyFirst, hchange, hk, Ne.symm hk]
    · by_cases hk : b.label = k
      · have hkl : k ≠ l := fun heq => hb (hk.trans heq)
        simp [modifyFirst, hk, hkl]
      · simp [modifyFirst, hb, hk, ih]

theorem block?_push (hb : f.block? l = some b) (i : Instr) :
    (f.modifyBlock l (·.push i)).block? l = some (b.push i) := by
  rw [block?_modifyBlock fun b => b.label_push i, if_pos rfl, hb]
  rfl

theorem within_push (f : FunctionDef) (l : Nat) (i : Instr) :
    f.Within (f.modifyBlock l (·.push i)) := by
  intro k b hb
  rw [block?_modifyBlock fun b => b.label_push i]
  by_cases hk : k = l
  · subst hk
    exact ⟨b.push i, by simp [hb], List.prefix_append _ _⟩
  · exact ⟨b, by simp [hk, hb], List.prefix_refl _⟩

theorem within_append (f : FunctionDef) (blocks : List Block) :
    f.Within { f with blocks := f.blocks ++ blocks } := by
  intro k b hb
  refine ⟨b, ?_, List.prefix_refl _⟩
  simp only [block?] at hb
  simp [block?, List.find?_append, hb]

theorem block?_fresh (hl : f.block? l = none) (hint : String) :
    { f with blocks := f.blocks ++ [Block.fresh l hint] }.block? l = some (.fresh l hint) := by
  simp only [block?] at hl
  simp [block?, List.find?_append, hl]

end FunctionDef

namespace BodyState

variable {s s' s'' : BodyState} {env : Environment} {f g : FunctionDef} {l : Nat} {b : Block}
  {σ σ' : Machine}

/-- The function under construction, the label of the current block, and that block. -/
structure WritesTo (s : BodyState) (f : FunctionDef) (l : Nat) (b : Block) : Prop where
  function : s.builder.function = some f
  current : s.builder.current = some l
  block : f.block? l = some b

theorem WritesTo.unique {f' : FunctionDef} {l' : Nat} {b' : Block} (h : s.WritesTo f l b)
    (h' : s.WritesTo f' l' b') : f' = f ∧ l' = l ∧ b' = b := by
  obtain rfl := Option.some.inj (h'.function.symm.trans h.function)
  obtain rfl := Option.some.inj (h'.current.symm.trans h.current)
  exact ⟨rfl, rfl, Option.some.inj (h'.block.symm.trans h.block)⟩

/-- The binding of a name. -/
def binding? (s : BodyState) (env : Environment) (name : String) : Option Binding :=
  match s.scope.find? name with
  | some b => some b
  | none => env.globals.lookup name

/-- The state `s'` comes from `s` by adding to the function. The bindings of all names stay what
they are. -/
structure Extends (env : Environment) (s s' : BodyState) : Prop where
  writesTo : ∀ {f l b}, s.WritesTo f l b → ∃ f' l' b', s'.WritesTo f' l' b' ∧ f.Within f' ∧
    (l' = l ∨ f.block? l' = none)
  temps : s.builder.nextTemp ≤ s'.builder.nextTemp
  bindings : ∀ {name b}, s.binding? env name = some b → ∃ b', s'.binding? env name = some b' ∧
    b'.storage = b.storage ∧ b'.type = b.type ∧ b'.isMutable = b.isMutable

namespace Extends

theorem refl (s : BodyState) : s.Extends env s where
  writesTo h := ⟨_, _, _, h, .refl _, .inl rfl⟩
  temps := Nat.le_refl _
  bindings h := ⟨_, h, rfl, rfl, rfl⟩

theorem trans (h : s.Extends env s') (h' : s'.Extends env s'') : s.Extends env s'' where
  writesTo hs := by
    obtain ⟨f', l', b', hs', hf, hl⟩ := h.writesTo hs
    obtain ⟨f'', l'', b'', hs'', hf', hl'⟩ := h'.writesTo hs'
    refine ⟨f'', l'', b'', hs'', hf.trans hf', ?_⟩
    rcases hl' with rfl | hl'
    · exact hl
    · exact .inr (hf.block?_eq_none hl')
  temps := Nat.le_trans h.temps h'.temps
  bindings hb := by
    obtain ⟨b', hb', hstorage, htype, hmutable⟩ := h.bindings hb
    obtain ⟨b'', hb'', hstorage', htype', hmutable'⟩ := h'.bindings hb'
    exact ⟨b'', hb'', hstorage'.trans hstorage, htype'.trans htype, hmutable'.trans hmutable⟩

/-- Drawing numbers changes nothing else. -/
theorem draw (s : BodyState) {nextTemp nextLabel : Nat} (h : s.builder.nextTemp ≤ nextTemp) :
    s.Extends env { s with builder := { s.builder with nextTemp, nextLabel } } where
  writesTo hs := ⟨_, _, _, ⟨hs.function, hs.current, hs.block⟩, .refl _, .inl rfl⟩
  temps := h
  bindings hb := ⟨_, hb, rfl, rfl, rfl⟩

end Extends

/-- All that was written so far is in a function. -/
def Inside (s : BodyState) (g : FunctionDef) : Prop := ∀ {f l b}, s.WritesTo f l b → f.Within g

theorem Inside.of_extends (h : s.Extends env s') (hg : s'.Inside g) : s.Inside g := by
  intro f l b hs
  obtain ⟨f', l', b', hs', hf, -⟩ := h.writesTo hs
  exact hf.trans (hg hs')

/-- A machine has executed all that was written in the current block. -/
def Reached (s : BodyState) (σ : Machine) : Prop :=
  ∃ f b, s.WritesTo f σ.label b ∧ σ.index = b.body.length

theorem Reached.draw (h : s.Reached σ) (nextTemp nextLabel : Nat) :
    ({ s with builder := { s.builder with nextTemp, nextLabel } } : BodyState).Reached σ := by
  obtain ⟨f, b, hs, hindex⟩ := h
  exact ⟨f, b, ⟨hs.function, hs.current, hs.block⟩, hindex⟩

end BodyState

namespace Lower

open BodyState

variable {α : Type} {s s' : BodyState} {env : Environment} {g : FunctionDef} {σ σ' : Machine}

theorem exec_build_eq_ok {action : Build α} {a : α} (h : exec (build action) s = (.ok a, s')) :
    exec action s.builder = (.ok a, s'.builder) ∧ s' = { s with builder := s'.builder } := by
  rw [exec_build] at h
  rcases haction : exec action s.builder with ⟨_ | a', b⟩
  all_goals rw [haction] at h
  · simp at h
  · simp only [Prod.mk.injEq, Except.ok.injEq] at h
    obtain ⟨rfl, rfl⟩ := h
    exact ⟨rfl, rfl⟩

theorem exec_function_eq_ok {b b' : FunctionBuilder} {f : FunctionDef}
    (h : exec Build.function b = (.ok f, b')) : b.function = some f ∧ b' = b := by
  simp only [Build.function, exec_bind, exec_get] at h
  cases hf : b.function with
  | none => simp [hf] at h
  | some f' =>
    simp only [hf, exec_pure, Prod.mk.injEq, Except.ok.injEq] at h
    exact ⟨by rw [h.1], h.2.symm⟩

/-- An instruction that is added extends the current block. -/
theorem writesTo_of_emit {i : Instr} (h : exec (build (Build.emit i)) s = (.ok (), s')) :
    ∃ f l b, s.WritesTo f l b ∧ s'.WritesTo (f.modifyBlock l (·.push i)) l (b.push i) ∧
      s'.builder.nextTemp = s.builder.nextTemp ∧ s'.builder.nextLabel = s.builder.nextLabel ∧
      s'.scope = s.scope := by
  obtain ⟨hexec, hs'⟩ := exec_build_eq_ok h
  rw [Build.emit, exec_bind_eq_ok] at hexec
  obtain ⟨f, b, hf, hexec⟩ := hexec
  obtain ⟨hfunction, rfl⟩ := exec_function_eq_ok hf
  simp only [exec_bind, exec_get] at hexec
  cases hl : s.builder.current with
  | none => simp [hl] at hexec
  | some l =>
    cases hblock : f.block? l with
    | none => simp [hl, hblock] at hexec
    | some block =>
      cases hterm : block.isTerminated with
      | true => simp [hl, hblock, hterm] at hexec
      | false =>
        simp only [hl, hblock, hterm, Bool.false_eq_true, if_false, exec_modify,
          Prod.mk.injEq, true_and] at hexec
        refine ⟨f, l, block, ⟨hfunction, hl, hblock⟩, ⟨?_, ?_, f.block?_push hblock i⟩, ?_, ?_, ?_⟩
        · rw [← hexec]
        · rw [← hexec]
        · rw [← hexec]
        · rw [← hexec]
        · rw [hs']

/-- A block that is added becomes the current one. -/
theorem writesTo_of_createBlock {l : Nat} {hint : String}
    (h : exec (build (Build.createBlock l hint)) s = (.ok (), s')) :
    ∃ f, s.builder.function = some f ∧ f.block? l = none ∧
      s'.WritesTo { f with blocks := f.blocks ++ [.fresh l hint] } l (.fresh l hint) ∧
      s'.builder.nextTemp = s.builder.nextTemp ∧ s'.builder.nextLabel = s.builder.nextLabel ∧
      s'.scope = s.scope := by
  obtain ⟨hexec, hs'⟩ := exec_build_eq_ok h
  rw [Build.createBlock, exec_bind_eq_ok] at hexec
  obtain ⟨f, b, hf, hexec⟩ := hexec
  obtain ⟨hfunction, rfl⟩ := exec_function_eq_ok hf
  cases hblock : f.block? l with
  | some block => simp [hblock] at hexec
  | none =>
    simp only [hblock, Option.isSome_none, Bool.false_eq_true, if_false, exec_modify,
      Prod.mk.injEq, true_and] at hexec
    refine ⟨f, hfunction, hblock, ⟨?_, ?_, f.block?_fresh hblock hint⟩, ?_, ?_, ?_⟩
    · rw [← hexec]
    · rw [← hexec]
    · rw [← hexec]
    · rw [← hexec]
    · rw [hs']

theorem extends_of_emit {i : Instr} (h : exec (build (Build.emit i)) s = (.ok (), s')) :
    s.Extends env s' := by
  obtain ⟨f, l, b, hs, hs', htemp, -, hscope⟩ := writesTo_of_emit h
  refine ⟨fun hw => ?_, htemp.ge, fun hb => ?_⟩
  · obtain ⟨rfl, rfl, rfl⟩ := hs.unique hw
    exact ⟨_, _, _, hs', FunctionDef.within_push _ _ i, .inl rfl⟩
  · simp only [binding?, hscope] at hb ⊢
    exact ⟨_, hb, rfl, rfl, rfl⟩

theorem extends_of_createBlock {l : Nat} {hint : String}
    (h : exec (build (Build.createBlock l hint)) s = (.ok (), s')) : s.Extends env s' := by
  obtain ⟨f, hf, hl, hs', htemp, -, hscope⟩ := writesTo_of_createBlock h
  refine ⟨fun hw => ?_, htemp.ge, fun hb => ?_⟩
  · obtain rfl := Option.some.inj (hw.function.symm.trans hf)
    exact ⟨_, _, _, hs', FunctionDef.within_append _ _, .inr hl⟩
  · simp only [binding?, hscope] at hb ⊢
    exact ⟨_, hb, rfl, rfl, rfl⟩

/-- What is added next is next for a machine that has executed all before it. -/
theorem next_of_emit {i : Instr} (h : exec (build (Build.emit i)) s = (.ok (), s'))
    (hg : s'.Inside g) (hσ : s.Reached σ) : Surroundings.Next g σ i := by
  obtain ⟨f, l, b, hs, hs', -⟩ := writesTo_of_emit h
  obtain ⟨f', b₀, hs₀, hindex⟩ := hσ
  obtain ⟨rfl, hlabel, rfl⟩ := hs.unique hs₀
  obtain ⟨b', hb', rest, hrest⟩ := hg hs' l _ hs'.block
  refine ⟨b', hlabel ▸ hb', ?_⟩
  rw [← hrest, hindex]
  simp

theorem reached_of_emit {i : Instr} (h : exec (build (Build.emit i)) s = (.ok (), s'))
    (hσ : s.Reached σ) (hlabel : σ'.label = σ.label) (hindex : σ'.index = σ.index + 1) :
    s'.Reached σ' := by
  obtain ⟨f, l, b, hs, hs', -⟩ := writesTo_of_emit h
  obtain ⟨f', b₀, hs₀, hindex₀⟩ := hσ
  obtain ⟨rfl, hl, rfl⟩ := hs.unique hs₀
  refine ⟨f'.modifyBlock l (·.push i), b₀.push i, ?_, ?_⟩
  · rw [hlabel, hl]
    exact hs'
  · rw [hindex, hindex₀, Block.body_push, List.length_append]
    rfl

theorem reached_of_createBlock {l : Nat} {hint : String}
    (h : exec (build (Build.createBlock l hint)) s = (.ok (), s')) (hlabel : σ.label = l)
    (hindex : σ.index = 0) : s'.Reached σ := by
  obtain ⟨f, -, -, hs', -⟩ := writesTo_of_createBlock h
  exact ⟨_, _, hlabel ▸ hs', by simp [hindex]⟩

variable (env) in
/-- An instruction with a result is next, and its result is the next temporary. -/
theorem exec_define_eq_ok {instr : Nat → Instr} {v : Value}
    (h : exec (build (Build.define instr)) s = (.ok v, s')) :
    v = .temp s.builder.nextTemp ∧ s'.builder.nextTemp = s.builder.nextTemp + 1 ∧
      s.Extends env s' ∧ ∀ {g σ}, s'.Inside g → s.Reached σ →
        Surroundings.Next g σ (instr s.builder.nextTemp) ∧
          ∀ n w, s'.Reached (σ.define s.builder.nextTemp n w) := by
  rw [Build.define, build_bind, exec_bind_eq_ok] at h
  obtain ⟨t, s₁, hdraw, h⟩ := h
  obtain ⟨hdraw, hs₁⟩ := exec_build_eq_ok hdraw
  simp only [Build.newTemp, exec_bind, exec_get, exec_set, exec_pure, Prod.mk.injEq,
    Except.ok.injEq] at hdraw
  obtain ⟨rfl, hbuilder⟩ := hdraw
  rw [← hbuilder] at hs₁
  rw [build_bind, exec_bind_eq_ok] at h
  obtain ⟨⟨⟩, s₂, hemit, hpure⟩ := h
  simp only [build_pure, exec_pure, Prod.mk.injEq, Except.ok.injEq] at hpure
  obtain ⟨rfl, rfl⟩ := hpure
  have htemp : s₁.builder.nextTemp = s.builder.nextTemp + 1 := by rw [hs₁]
  have hextends : s.Extends env s₁ := hs₁ ▸ .draw s (Nat.le_succ _)
  refine ⟨rfl, ?_, hextends.trans (extends_of_emit hemit), fun hg hσ => ?_⟩
  · obtain ⟨-, -, -, -, -, hnext, -⟩ := writesTo_of_emit hemit
    rw [hnext, htemp]
  · have hσ₁ : s₁.Reached _ := hs₁ ▸ hσ.draw _ _
    exact ⟨next_of_emit hemit hg hσ₁, fun n w => reached_of_emit hemit hσ₁ rfl rfl⟩

variable (env) in
/-- An instruction that ends the current block is next, and then a new block is begun. -/
theorem exec_leave_eq_ok {i : Instr} {label : Nat} {hint : String}
    (h : exec (do build (Build.emit i); build (Build.createBlock label hint)) s = (.ok (), s')) :
    s.Extends env s' ∧ s'.builder.nextTemp = s.builder.nextTemp ∧
      (∀ {f l b}, s.WritesTo f l b → f.block? label = none) ∧
      (∀ {g σ}, s'.Inside g → s.Reached σ → Surroundings.Next g σ i) ∧
      ∀ σ : Machine, σ.label = label → σ.index = 0 → s'.Reached σ := by
  rw [exec_bind_eq_ok] at h
  obtain ⟨⟨⟩, s₁, hemit, hcreate⟩ := h
  have hextends : s₁.Extends env s' := extends_of_createBlock hcreate
  obtain ⟨f₁, l₁, b₁, hs, hs₁, htemp₁, -⟩ := writesTo_of_emit hemit
  obtain ⟨f₂, hf₂, hfresh, hs₂, htemp₂, -⟩ := writesTo_of_createBlock hcreate
  refine ⟨(extends_of_emit hemit).trans hextends, htemp₂.trans htemp₁, fun hw => ?_,
    fun hg hσ => ?_, fun σ hlabel hindex => ?_⟩
  · obtain ⟨rfl, rfl, rfl⟩ := hs.unique hw
    obtain rfl := Option.some.inj (hs₁.function.symm.trans hf₂)
    exact (FunctionDef.within_push _ _ i).block?_eq_none hfresh
  · exact next_of_emit hemit (hg.of_extends hextends) hσ
  · exact reached_of_createBlock hcreate hlabel hindex

end Lower

end SsaLowering
