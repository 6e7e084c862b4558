import SsaLowering.Lowering.Unit
import SsaLowering.Proofs.Convertibility
import SsaLowering.Proofs.Typing

/-!
# Operands in either order

Two operands find a common type in both orders or in neither. It is the same one, and the same
code leads there, unless the choice is contested: each operand converts to the type of the other
one, and both or neither are constants. Then the left operand adapts to the right one.
-/

namespace SsaLowering

namespace TypedValue

/-- Each operand could adapt to the other one, and neither is a constant more than the other. -/
structure Contested (l r : TypedValue) : Prop where
  different : l.type ≠ r.type
  constancy : l.value.isConstant = r.value.isConstant
  left : l.ConvertsTo r.type
  right : r.ConvertsTo l.type

variable {l r : TypedValue}

theorem Contested.symm (h : l.Contested r) : r.Contested l :=
  ⟨h.different.symm, h.constancy.symm, h.right, h.left⟩

/-- Two values that are no constants are contested if their types differ in nothing but the sign. -/
theorem contested_iff (hl : l.value.isConstant = false) (hr : r.value.isConstant = false) :
    l.Contested r ↔ ∃ s s' w, s ≠ s' ∧ l.type = .int s w ∧ r.type = .int s' w := by
  constructor
  · intro h
    rcases (convertsTo_iff hl).mp h.left with heq | ⟨s, s', w, w', hl', hr', hw⟩ | ⟨hl', hr'⟩
    · exact absurd heq h.different
    · rcases (convertsTo_iff hr).mp h.right with heq | ⟨_, _, _, _, hr'', hl'', hw'⟩ | ⟨hr'', -⟩
      · exact absurd heq.symm h.different
      · cases hr'.symm.trans hr''
        cases hl'.symm.trans hl''
        obtain rfl := IntWidth.bits_injective (le_antisymm hw hw')
        refine ⟨s, s', w, ?_, hl', hr'⟩
        rintro rfl
        exact h.different (hl'.trans hr'.symm)
      · cases hr'.symm.trans hr''
    · rcases (convertsTo_iff hr).mp h.right with heq | ⟨_, _, _, _, hr'', -, -⟩ | ⟨hr'', -⟩
      · exact absurd heq.symm h.different
      · cases hr'.symm.trans hr''
      · cases hr'.symm.trans hr''
  · rintro ⟨s, s', w, hs, hl', hr'⟩
    refine ⟨by simpa [hl', hr'] using hs, hl.trans hr.symm, ?_, ?_⟩
    · exact hr' ▸ .integer hl' le_rfl
    · exact hl' ▸ .integer hr' le_rfl

end TypedValue

/-- The operands in the other order. -/
def Lower.Operands.swap (o : Lower.Operands) : Lower.Operands := ⟨o.right, o.left, o.type⟩

namespace Lower

open BodyState TypedValue

variable {s : BodyState} {f : FunctionDef} {label : Nat} {b : Block} {l r : TypedValue}

/-- To adapt the right operand is to adapt the left one in the other order. -/
theorem exec_adaptRight?_swap (l r : TypedValue) (s : BodyState) : exec (adaptRight? l r) s =
    exec (Option.map Operands.swap <$> adaptLeft? r l) s := by
  simp only [adaptRight?, adaptLeft?, exec_map, exec_bind, exec_pure]
  rcases exec (convert? r l.type) s with ⟨e | result, s'⟩
  · rfl
  · cases result <;> rfl

theorem exec_adaptLeft?_swap (l r : TypedValue) (s : BodyState) : exec (adaptLeft? r l) s =
    exec (Option.map Operands.swap <$> adaptRight? l r) s := by
  have hswap : Operands.swap ∘ Operands.swap = id := rfl
  simp only [exec_map, exec_adaptRight?_swap]
  rcases exec (adaptLeft? r l) s with ⟨e | found, s'⟩
  · rfl
  · simp [hswap]

theorem exec_adaptLeft? (h : s.StandsIn f label b) (hl : l.ConvertsTo r.type) :
    ∃ left s' f' b', exec (adaptLeft? l r) s = (.ok (some ⟨left, r.value, r.type⟩), s') ∧
      s'.StandsIn f' label b' := by
  obtain ⟨result, s', f', b', hexec, hstands, hiff, -⟩ := exists_exec_convert? h l r.type
  obtain ⟨left, rfl⟩ := Option.isSome_iff_exists.mp (hiff.mpr hl)
  exact ⟨left, s', f', b', exec_bind_of_ok hexec, hstands⟩

theorem exec_adaptRight? (h : s.StandsIn f label b) (hr : r.ConvertsTo l.type) :
    ∃ right s' f' b', exec (adaptRight? l r) s = (.ok (some ⟨l.value, right, l.type⟩), s') ∧
      s'.StandsIn f' label b' := by
  obtain ⟨right, s', f', b', hexec, hstands⟩ := exec_adaptLeft? h hr
  refine ⟨right, s', f', b', ?_, hstands⟩
  rw [exec_adaptRight?_swap, exec_map, hexec]
  rfl

theorem exec_adaptLeft?_of_not (h : s.StandsIn f label b) (hl : ¬ l.ConvertsTo r.type) :
    exec (adaptLeft? l r) s = (.ok none, s) := by
  obtain ⟨result, s', f', b', hexec, hstands, hiff, hnone⟩ := exists_exec_convert? h l r.type
  obtain rfl : result = none := by simpa using mt hiff.mp hl
  obtain rfl := hnone rfl
  exact exec_bind_of_ok hexec

theorem exec_adaptRight?_of_not (h : s.StandsIn f label b) (hr : ¬ r.ConvertsTo l.type) :
    exec (adaptRight? l r) s = (.ok none, s) := by
  rw [exec_adaptRight?_swap, exec_map, exec_adaptLeft?_of_not h hr]
  rfl

/-- Operands of one type have that type in common. -/
theorem exec_unify?_of_eq (heq : l.type = r.type) :
    exec (unify? l r) s = (.ok (some ⟨l.value, r.value, l.type⟩), s) := by
  rw [unify?, if_pos heq]
  rfl

theorem exec_unify?_of_left (h : s.StandsIn f label b) (hne : l.type ≠ r.type)
    (hl : l.ConvertsTo r.type)
    (hturn : (l.value.isConstant || !r.value.isConstant) = true ∨ ¬ r.ConvertsTo l.type) :
    exec (unify? l r) s = exec (adaptLeft? l r) s := by
  obtain ⟨left, s', -, -, hleft, -⟩ := exec_adaptLeft? h hl
  rw [unify?, if_neg hne, hleft]
  split
  · exact exec_bind_of_ok hleft
  · next hfirst =>
    rw [exec_bind_of_ok (exec_adaptRight?_of_not h (hturn.resolve_left hfirst))]
    exact hleft

theorem exec_unify?_of_right (h : s.StandsIn f label b) (hne : l.type ≠ r.type)
    (hr : r.ConvertsTo l.type)
    (hturn : (l.value.isConstant || !r.value.isConstant) = false ∨ ¬ l.ConvertsTo r.type) :
    exec (unify? l r) s = exec (adaptRight? l r) s := by
  obtain ⟨right, s', -, -, hright, -⟩ := exec_adaptRight? h hr
  rw [unify?, if_neg hne, hright]
  split
  · next hfirst =>
    have hnot : ¬ l.ConvertsTo r.type := hturn.resolve_left (by simp [hfirst])
    rw [exec_bind_of_ok (exec_adaptLeft?_of_not h hnot)]
    exact hright
  · exact exec_bind_of_ok hright

theorem exec_unify?_of_not (h : s.StandsIn f label b) (hne : l.type ≠ r.type)
    (hl : ¬ l.ConvertsTo r.type) (hr : ¬ r.ConvertsTo l.type) :
    exec (unify? l r) s = (.ok none, s) := by
  rw [unify?, if_neg hne]
  split
  · exact (exec_bind_of_ok (exec_adaptLeft?_of_not h hl)).trans (exec_adaptRight?_of_not h hr)
  · exact (exec_bind_of_ok (exec_adaptRight?_of_not h hr)).trans (exec_adaptLeft?_of_not h hl)

/-- If the choice is not contested, the other order finds the same operands in the same way. -/
theorem exec_unify?_swap (h : s.StandsIn f label b) (hfree : ¬ l.Contested r) :
    exec (unify? r l) s = exec (Option.map Operands.swap <$> unify? l r) s := by
  by_cases heq : l.type = r.type
  · rw [exec_map, exec_unify?_of_eq heq, exec_unify?_of_eq heq.symm]
    simp only [Option.map_some, Operands.swap, heq]
  have hne : r.type ≠ l.type := Ne.symm heq
  have hleft (hlr : exec (unify? l r) s = exec (adaptLeft? l r) s)
      (hrl : exec (unify? r l) s = exec (adaptRight? r l) s) :
      exec (unify? r l) s = exec (Option.map Operands.swap <$> unify? l r) s := by
    rw [exec_map, hlr, ← exec_map, hrl, exec_adaptRight?_swap]
  have hright (hlr : exec (unify? l r) s = exec (adaptRight? l r) s)
      (hrl : exec (unify? r l) s = exec (adaptLeft? r l) s) :
      exec (unify? r l) s = exec (Option.map Operands.swap <$> unify? l r) s := by
    rw [exec_map, hlr, ← exec_map, hrl, exec_adaptLeft?_swap]
  by_cases hl : l.ConvertsTo r.type <;> by_cases hr : r.ConvertsTo l.type
  · -- Exactly one of the operands is a constant, and it adapts.
    have hconstant : l.value.isConstant ≠ r.value.isConstant := fun hsame =>
      hfree ⟨heq, hsame, hl, hr⟩
    cases hlc : l.value.isConstant with
    | true =>
      have hrc : r.value.isConstant = false := by simpa [hlc] using hconstant.symm
      exact hleft (exec_unify?_of_left h heq hl (.inl (by simp [hlc])))
        (exec_unify?_of_right h hne hl (.inl (by simp [hlc, hrc])))
    | false =>
      have hrc : r.value.isConstant = true := by simpa [hlc] using hconstant.symm
      exact hright (exec_unify?_of_right h heq hr (.inl (by simp [hlc, hrc])))
        (exec_unify?_of_left h hne hr (.inl (by simp [hrc])))
  · exact hleft (exec_unify?_of_left h heq hl (.inr hr)) (exec_unify?_of_right h hne hl (.inr hr))
  · exact hright (exec_unify?_of_right h heq hr (.inr hl)) (exec_unify?_of_left h hne hr (.inr hl))
  · rw [exec_map, exec_unify?_of_not h heq hl hr, exec_unify?_of_not h hne hr hl]
    rfl

/-- If the choice is contested, the left operand adapts. -/
theorem exec_unify?_of_contested (h : s.StandsIn f label b) (hc : l.Contested r) :
    exec (unify? l r) s = exec (adaptLeft? l r) s := by
  have hfirst : (l.value.isConstant || !r.value.isConstant) = true := by simp [hc.constancy]
  exact exec_unify?_of_left h hc.different hc.left (.inl hfirst)

theorem type_of_contested (h : s.StandsIn f label b) (hc : l.Contested r)
    {found : Option Operands} {s' : BodyState} (hfound : exec (unify? l r) s = (.ok found, s')) :
    found.map Operands.type = some r.type := by
  obtain ⟨left, s'', -, -, hleft, -⟩ := exec_adaptLeft? h hc.left
  rw [exec_unify?_of_contested h hc, hleft] at hfound
  cases hfound
  rfl

/-- Of two operands of different types, one that converts adapts to the other. -/
theorem exec_unify?_cases (h : s.StandsIn f label b) (hne : l.type ≠ r.type) :
    (l.ConvertsTo r.type ∧ exec (unify? l r) s = exec (adaptLeft? l r) s) ∨
    (r.ConvertsTo l.type ∧ exec (unify? l r) s = exec (adaptRight? l r) s) ∨
    (¬ l.ConvertsTo r.type ∧ ¬ r.ConvertsTo l.type ∧ exec (unify? l r) s = (.ok none, s)) := by
  by_cases hl : l.ConvertsTo r.type <;> by_cases hr : r.ConvertsTo l.type
  · cases hfirst : l.value.isConstant || !r.value.isConstant with
    | true => exact .inl ⟨hl, exec_unify?_of_left h hne hl (.inl hfirst)⟩
    | false => exact .inr (.inl ⟨hr, exec_unify?_of_right h hne hr (.inl hfirst)⟩)
  · exact .inl ⟨hl, exec_unify?_of_left h hne hl (.inr hr)⟩
  · exact .inr (.inl ⟨hr, exec_unify?_of_right h hne hr (.inr hl)⟩)
  · exact .inr (.inr ⟨hl, hr, exec_unify?_of_not h hne hl hr⟩)

/-- In an open block, the search for a common type succeeds or changes nothing, and the block stays
open. -/
theorem exists_exec_unify? (h : s.StandsIn f label b) (l r : TypedValue) :
    ∃ found s' f' b', exec (unify? l r) s = (.ok found, s') ∧ s'.StandsIn f' label b' ∧
      (found.isSome = true ↔ l.ConvertsTo r.type ∨ r.ConvertsTo l.type) ∧
      (found = none → s' = s) := by
  by_cases heq : l.type = r.type
  · have hl : l.ConvertsTo r.type := heq ▸ .same
    exact ⟨_, s, f, b, exec_unify?_of_eq heq, h, by simp [hl], nofun⟩
  rcases exec_unify?_cases h heq with ⟨hl, hexec⟩ | ⟨hr, hexec⟩ | ⟨hl, hr, hexec⟩
  · obtain ⟨left, s', f', b', hadapt, hstands⟩ := exec_adaptLeft? h hl
    exact ⟨_, s', f', b', hexec.trans hadapt, hstands, by simp [hl], nofun⟩
  · obtain ⟨right, s', f', b', hadapt, hstands⟩ := exec_adaptRight? h hr
    exact ⟨_, s', f', b', hexec.trans hadapt, hstands, by simp [hr], nofun⟩
  · exact ⟨none, s, f, b, hexec, h, by simp [hl, hr], fun _ => rfl⟩

/-- The result of an operation on operands of a type. -/
def operationResult (code : Opcode) (t : Nat) (type : MachineType) : TypedValue :=
  if code.isComparison then .truth (.temp t) else .plain (.temp t) type

/-- Two operands are computed at their common type if it has the operation. -/
theorem exec_lowerArithmetic {s' : BodyState} {f' : FunctionDef} {b' : Block} {o : Operands}
    (hfound : exec (unify? l r) s = (.ok (some o), s')) (h' : s'.StandsIn f' label b')
    {op : BinaryOp} {code : Opcode} (hcode : selectOpcode? op o.type = some code) :
    exec (lowerArithmetic op (pure l) (pure r)) s =
      (.ok (operationResult code s'.builder.nextTemp o.type),
        s'.defining f' label (.binary s'.builder.nextTemp code o.left o.right o.type)) := by
  rw [lowerArithmetic, pure_bind, pure_bind, exec_bind_of_ok hfound,
    exec_bind_of_ok (exec_orFail_some o _ s'), hcode,
    exec_bind_of_ok (exec_orFail_some code _ s'), Build.binary,
    exec_bind_of_ok (exec_define h' fun t => .binary t code o.left o.right o.type), operationResult]
  split <;> rfl

/-- Two operands without a common type that has the operation are refused. -/
theorem exec_lowerArithmetic_of_not {found : Option Operands} {s' : BodyState}
    (hfound : exec (unify? l r) s = (.ok found, s')) {op : BinaryOp}
    (hcode : ∀ o, found = some o → selectOpcode? op o.type = none) :
    exec (lowerArithmetic op (pure l) (pure r)) s =
      (.error (.unplaced (.invalidOperands op.text l.describe r.describe)), s') := by
  rw [lowerArithmetic, pure_bind, pure_bind, exec_bind_of_ok hfound]
  cases found with
  | none => rfl
  | some o =>
    rw [exec_bind_of_ok (exec_orFail_some o _ s'), hcode o rfl]
    rfl

/-- What an operation on two operands leads to, if it is there. -/
theorem exec_lowerArithmetic_eq_ok {found : Option Operands} {s₁ s₂ : BodyState}
    {f₁ : FunctionDef} {b₁ : Block} {op : BinaryOp} {v : TypedValue}
    (hfound : exec (unify? l r) s = (.ok found, s₁)) (h₁ : s₁.StandsIn f₁ label b₁) :
    exec (lowerArithmetic op (pure l) (pure r)) s = (.ok v, s₂) ↔
      ∃ o code, found = some o ∧ selectOpcode? op o.type = some code ∧
        v = operationResult code s₁.builder.nextTemp o.type ∧
        s₂ = s₁.defining f₁ label (.binary s₁.builder.nextTemp code o.left o.right o.type) := by
  constructor
  · intro h
    by_cases hcode : ∃ o, found = some o ∧ ∃ code, selectOpcode? op o.type = some code
    · obtain ⟨o, rfl, code, hcode⟩ := hcode
      rw [exec_lowerArithmetic hfound h₁ hcode] at h
      cases h
      exact ⟨o, code, rfl, hcode, rfl, rfl⟩
    · have hnone : ∀ o, found = some o → selectOpcode? op o.type = none := fun o ho =>
        Option.eq_none_iff_forall_ne_some.mpr fun code hsome => hcode ⟨o, ho, code, hsome⟩
      rw [exec_lowerArithmetic_of_not hfound hnone] at h
      cases h
  · rintro ⟨o, code, rfl, hcode, rfl, rfl⟩
    exact exec_lowerArithmetic hfound h₁ hcode

end Lower

/-- The current block ends in an operation at a type, which has the value as its result. -/
def BodyState.Computed (s : BodyState) (v : TypedValue) (type : MachineType) : Prop :=
  ∃ (f : FunctionDef) (label : Nat) (b : Block) (t : Nat) (code : Opcode) (x y : Value),
    s.StandsIn f label (b.push (.binary t code x y type)) ∧ v = Lower.operationResult code t type

/-- All integer types have the same operations, and so have all float types. -/
theorem TypedValue.Contested.selectOpcode?_eq {l r : TypedValue} (h : l.Contested r)
    (op : BinaryOp) : selectOpcode? op l.type = selectOpcode? op r.type := by
  rcases h.left.eq_or_integers_or_float with heq | ⟨s, w, s', w', hl, hr⟩ | ⟨w', hr⟩
  · exact absurd heq h.different
  · rw [hl, hr]
    rfl
  · -- Floats do not become integers, so the left operand is one as well.
    rcases h.right.eq_or_integers_or_float with heq | ⟨_, _, _, _, hr', -⟩ | ⟨w, hl⟩
    · exact absurd heq.symm h.different
    · cases hr.symm.trans hr'
    · rw [hl, hr]
      rfl

namespace Lower

open BodyState TypedValue

variable {s s₁ s₂ : BodyState} {f f₁ : FunctionDef} {label : Nat} {b b₁ : Block}
  {l r v : TypedValue} {found : Option Operands} {op : BinaryOp}

/-- An operation is accepted if the common type of its operands has it. -/
theorem exists_exec_lowerArithmetic_iff (hfound : exec (unify? l r) s = (.ok found, s₁))
    (h₁ : s₁.StandsIn f₁ label b₁) :
    (∃ v s₂, exec (lowerArithmetic op (pure l) (pure r)) s = (.ok v, s₂)) ↔
      ((found.map Operands.type).bind (selectOpcode? op)).isSome = true := by
  simp only [exec_lowerArithmetic_eq_ok hfound h₁, Option.isSome_iff_exists, Option.bind_eq_some_iff,
    Option.map_eq_some_iff]
  constructor
  · rintro ⟨-, -, o, code, hsome, hcode, -, -⟩
    exact ⟨code, o.type, ⟨o, hsome, rfl⟩, hcode⟩
  · rintro ⟨code, -, ⟨o, hsome, rfl⟩, hcode⟩
    exact ⟨_, _, o, code, hsome, hcode, rfl, rfl⟩

/-- An operation that is accepted is computed at the common type. -/
theorem computed_of_exec (hfound : exec (unify? l r) s = (.ok found, s₁))
    (h₁ : s₁.StandsIn f₁ label b₁)
    (h : exec (lowerArithmetic op (pure l) (pure r)) s = (.ok v, s₂)) :
    ∃ type, found.map Operands.type = some type ∧ s₂.Computed v type := by
  obtain ⟨o, code, rfl, -, rfl, rfl⟩ := (exec_lowerArithmetic_eq_ok hfound h₁).mp h
  exact ⟨o.type, rfl, _, _, _, _, _, _, _, h₁.defining rfl, rfl⟩

/-- Operands in either order. A common type is found in both orders or in neither, and nothing is
changed if there is none. The operands and the code are the same unless the choice is contested,
which values that are no constants are if their types differ in nothing but the sign. In that case
the type is that of the operand on the right. Operations are accepted in both orders or in neither,
and computed at the common type. -/
theorem operand_order (h : s.StandsIn f label b) (l r : TypedValue) :
    (l.value.isConstant = false → r.value.isConstant = false →
      (l.Contested r ↔ ∃ sign sign' w, sign ≠ sign' ∧ l.type = .int sign w ∧
        r.type = .int sign' w)) ∧
    ∃ found found' s₁ s₂,
      exec (unify? l r) s = (.ok found, s₁) ∧ exec (unify? r l) s = (.ok found', s₂) ∧
      (found.isSome = true ↔ found'.isSome = true) ∧
      (found = none → s₁ = s ∧ s₂ = s) ∧
      (¬ l.Contested r → found' = found.map Operands.swap ∧ s₂ = s₁) ∧
      (l.Contested r → found.map Operands.type = some r.type ∧
        found'.map Operands.type = some l.type) ∧
      ∀ op : BinaryOp,
        ((∃ v s', exec (lowerArithmetic op (pure l) (pure r)) s = (.ok v, s')) ↔
          ∃ v s', exec (lowerArithmetic op (pure r) (pure l)) s = (.ok v, s')) ∧
        ∀ v v' s' s'', exec (lowerArithmetic op (pure l) (pure r)) s = (.ok v, s') →
          exec (lowerArithmetic op (pure r) (pure l)) s = (.ok v', s'') →
          (∃ type, found.map Operands.type = some type ∧ s'.Computed v type) ∧
          (∃ type, found'.map Operands.type = some type ∧ s''.Computed v' type) ∧
          (¬ l.Contested r → v' = v) := by
  obtain ⟨found, s₁, f₁, b₁, hfound, h₁, hsome, hnone⟩ := exists_exec_unify? h l r
  obtain ⟨found', s₂, f₂, b₂, hfound', h₂, hsome', hnone'⟩ := exists_exec_unify? h r l
  have hiff : found.isSome = true ↔ found'.isSome = true := by
    rw [hsome, hsome', or_comm]
  have hfree (hc : ¬ l.Contested r) : found' = found.map Operands.swap ∧ s₂ = s₁ := by
    have hswap := exec_unify?_swap h hc
    rw [exec_map, hfound, hfound'] at hswap
    cases hswap
    exact ⟨rfl, rfl⟩
  have hcontested (hc : l.Contested r) : found.map Operands.type = some r.type ∧
      found'.map Operands.type = some l.type :=
    ⟨type_of_contested h hc hfound, type_of_contested h hc.symm hfound'⟩
  have hcodes (op : BinaryOp) : (found'.map Operands.type).bind (selectOpcode? op) =
      (found.map Operands.type).bind (selectOpcode? op) := by
    by_cases hc : l.Contested r
    · rw [(hcontested hc).1, (hcontested hc).2]
      exact hc.selectOpcode?_eq op
    · rw [(hfree hc).1, Option.map_map]
      rfl
  refine ⟨contested_iff, found, found', s₁, s₂, hfound, hfound', hiff, ?_, hfree, hcontested,
    fun op => ⟨?_, ?_⟩⟩
  · rintro rfl
    exact ⟨hnone rfl, hnone' (by simpa using hiff)⟩
  · rw [exists_exec_lowerArithmetic_iff hfound h₁, exists_exec_lowerArithmetic_iff hfound' h₂,
      hcodes]
  · intro v v' s' s'' hv hv'
    refine ⟨computed_of_exec hfound h₁ hv, computed_of_exec hfound' h₂ hv', fun hc => ?_⟩
    obtain ⟨rfl, rfl⟩ := hfree hc
    obtain ⟨o, code, rfl, hcode, rfl, -⟩ := (exec_lowerArithmetic_eq_ok hfound h₁).mp hv
    obtain ⟨o', code', ho', hcode', rfl, -⟩ := (exec_lowerArithmetic_eq_ok hfound' h₂).mp hv'
    cases ho'
    cases hcode.symm.trans hcode'
    rfl

/-- A function that adds an unsigned number `a` and a signed number `b`, in one of the orders. -/
def mixedSum (left right : String) : FunctionDecl Statement where
  name := "sum"
  params := [⟨"a", .named "u32"⟩, ⟨"b", .named "i32"⟩]
  returnType := .named "i64"
  body := some (.ret none
    (some (.binary none .add (.variable none left) (.variable none right))))
  owner := none
  location := none

/-- The state at the beginning of the function, in which the first two temporaries are the numbers. -/
def mixedState : BodyState :=
  (UnitState.initial "main" .empty).opened ⟨mixedSum "a" "b",
    .ofSource .empty [.named "u32", .named "i32"] (.named "i64") false none⟩

theorem operand_order_mixed :
    (TypedValue.plain (.temp 0) .u32).Contested (.plain (.temp 1) .i32) ∧
    ∃ found found' s₁ s₂,
      exec (unify? (.plain (.temp 0) .u32) (.plain (.temp 1) .i32)) mixedState =
        (.ok found, s₁) ∧
      exec (unify? (.plain (.temp 1) .i32) (.plain (.temp 0) .u32)) mixedState =
        (.ok found', s₂) ∧
      found.map Operands.type = some .i32 ∧ found'.map Operands.type = some .u32 := by
  obtain ⟨hiff, found, found', s₁, s₂, hfound, hfound', -, -, -, hcontested, -⟩ :=
    operand_order (UnitState.standsIn_opened (.initial "main" .empty) ⟨mixedSum "a" "b",
      .ofSource .empty [.named "u32", .named "i32"] (.named "i64") false none⟩)
      (.plain (.temp 0) .u32) (.plain (.temp 1) .i32)
  have hc := (hiff rfl rfl).mpr ⟨.unsigned, .signed, _, by decide, rfl, rfl⟩
  exact ⟨hc, found, found', s₁, s₂, hfound, hfound', hcontested hc⟩

/-- The order of the operands decides at which type the sum is computed, and by that how it is
widened. -/
theorem sum_depends_on_order :
    (∃ o o', exec (unify? (.plain (.temp 0) .u32) (.plain (.temp 1) .i32)) mixedState =
        (.ok (some o), mixedState) ∧
      exec (unify? (.plain (.temp 1) .i32) (.plain (.temp 0) .u32)) mixedState =
        (.ok (some o'), mixedState) ∧ o.type = .i32 ∧ o'.type = .u32) ∧
    (∃ g ∈ (Program.generate .standard ⟨[.function (mixedSum "a" "b")]⟩ .empty).1.functions,
      .binary 2 .add (.temp 0) (.temp 1) .i32 ∈ g.instrs ∧
      .convert 3 .sext (.temp 2) .i32 .i64 ∈ g.instrs) ∧
    ∃ g ∈ (Program.generate .standard ⟨[.function (mixedSum "b" "a")]⟩ .empty).1.functions,
      .binary 2 .add (.temp 1) (.temp 0) .u32 ∈ g.instrs ∧
      .convert 3 .zext (.temp 2) .u32 .i64 ∈ g.instrs := by
  refine ⟨⟨⟨.temp 0, .temp 1, .i32⟩, ⟨.temp 1, .temp 0, .u32⟩, rfl, rfl, rfl, rfl⟩, ?_, ?_⟩
  · decide +kernel
  · decide +kernel

end Lower

end SsaLowering
