import SsaLowering.Proofs.Comparison
import SsaLowering.Proofs.ExpressionTyping

/-!
# Expressions side by side

In both runs, an expression is lowered to the same value, or to the addresses of two constants with
the same text. One statement for each kind of expression, put together along its structure.
-/

namespace SsaLowering

open StringPool

namespace Comparison

variable {c : Comparison} {w : PoolTexts} {v v' : TypedValue} {value value' : Value}

/-! ## Conversions -/

theorem likeTyped (h : c.Like w value value') (type : MachineType) (source : Option SourceType) :
    c.LikeTyped w ⟨value, type, source⟩ ⟨value', type, source⟩ := ⟨value', h, rfl⟩

theorem Like.bool? (h : c.Like w value value') : value'.bool? = value.bool? := by
  cases h <;> rfl

theorem Like.isConstant (h : c.Like w value value') : value'.isConstant = value.isConstant := by
  cases h <;> rfl

theorem LikeTyped.convertConstant? (h : c.LikeTyped w v v') (target : MachineType) :
    Option.Rel (c.Like w) (convertConstant? v target) (convertConstant? v' target) := by
  obtain ⟨value', hvalue, rfl⟩ := h
  obtain ⟨value, type, source⟩ := v
  unfold SsaLowering.convertConstant?
  dsimp only at hvalue ⊢
  split
  · exact .some hvalue
  · cases hvalue with
    | literal => exact .none
    | same hfixed =>
      cases value' with
      | int n =>
        dsimp only
        split
        · exact .some (.of_ne fun _ => Value.noConfusion)
        · split
          · exact .some (.of_ne fun _ => Value.noConfusion)
          · exact .none
      | float x =>
        dsimp only
        split
        · exact .some (.of_ne fun _ => Value.noConfusion)
        · exact .none
      | _ => exact .none

theorem convert? (h : c.LikeTyped w v v') (target : MachineType) :
    Quiet c.Coupled w (Lower.convert? v target) (Lower.convert? v' target)
      (Option.Rel (c.Like w)) := by
  unfold Lower.convert?
  obtain ⟨hnone, hnone'⟩ | ⟨value, value', hsome, hsome', hvalue⟩ :=
    optionRel_cases (h.convertConstant? target)
  · rw [hnone, hnone']
    obtain ⟨value', hvalue, rfl⟩ := h
    dsimp only
    split
    · exact .pure (.some hvalue)
    · next op _ =>
      refine (build (Build.like_define fun t => .convert t op v.type target hvalue)).bind ?_
      rintro result _ ⟨rfl, t, ht⟩
      exact Quiet.pure (.some (.same (fixed_temp ht)))
    · exact .pure .none
  · rw [hsome, hsome']
    exact .pure (.some hvalue)

theorem coerce (h : c.LikeTyped w v v') (source : SourceType) (target : MachineType)
    (use : String) :
    Quiet c.Coupled w (Lower.coerce v source target use) (Lower.coerce v' source target use)
      (c.Like w) := by
  refine (convert? h target).bind fun result result' hresult => ?_
  cases hresult with
  | some hvalue => exact Quiet.pure hvalue
  | none =>
    obtain ⟨value', -, rfl⟩ := h
    exact fail _

theorem binary (code : Opcode) (type : MachineType) {lhs lhs' rhs rhs' : Value}
    (hlhs : c.Like w lhs lhs') (hrhs : c.Like w rhs rhs') :
    Quiet c.Coupled w (Lower.build (Build.binary code lhs rhs type))
      (Lower.build (Build.binary code lhs' rhs' type)) (c.Like w) :=
  (build (Build.like_define fun t => .binary t code type hlhs hrhs)).imp fun _ _ h => by
    rw [h.1]
    exact .same (fixed_temp h.2.choose_spec)

theorem toBool (h : c.LikeTyped w v v') :
    Quiet c.Coupled w (Lower.toBool v) (Lower.toBool v') (c.Like w) := by
  obtain ⟨value', hvalue, rfl⟩ := h
  obtain ⟨value, type, source⟩ := v
  cases hvalue with
  | same hfixed =>
    unfold Lower.toBool
    dsimp only
    split
    · exact .pure (.same hfixed)
    · exact .pure (.of_ne fun _ => Value.noConfusion)
    · exact .pure (.of_ne fun _ => Value.noConfusion)
    · exact .pure (.of_ne fun _ => Value.noConfusion)
    · exact binary _ _ (.same hfixed) (.of_ne fun _ => Value.noConfusion)
    · exact binary _ _ (.same hfixed) (.of_ne fun _ => Value.noConfusion)
    · exact binary _ _ (.same hfixed) (.of_ne fun _ => Value.noConfusion)
    · exact fail _
  | literal hleft hright =>
    have hliteral := Like.literal (c := c) hleft hright
    cases type with
    | bool => exact .pure hliteral
    | int | ptr | float => exact binary _ _ hliteral (.of_ne fun _ => Value.noConfusion)
    | _ => exact fail _

/-- Operands that belong together. -/
structure LikeOperands (c : Comparison) (w : PoolTexts) (o o' : Lower.Operands) : Prop where
  left : c.Like w o.left o'.left
  right : c.Like w o.right o'.right
  type : o'.type = o.type

section

variable {l l' r r' : TypedValue} (hl : c.LikeTyped w l l') (hr : c.LikeTyped w r r')

include hl hr

theorem adaptLeft? : Quiet c.Coupled w (Lower.adaptLeft? l r) (Lower.adaptLeft? l' r')
    (Option.Rel (c.LikeOperands w)) := by
  obtain ⟨right, hright, rfl⟩ := hr
  refine (convert? hl r.type).bind fun result result' hresult => Quiet.pure ?_
  cases hresult with
  | some hvalue => exact .some ⟨hvalue, hright, rfl⟩
  | none => exact .none

theorem adaptRight? : Quiet c.Coupled w (Lower.adaptRight? l r) (Lower.adaptRight? l' r')
    (Option.Rel (c.LikeOperands w)) := by
  obtain ⟨left, hleft, rfl⟩ := hl
  refine (convert? hr l.type).bind fun result result' hresult => Quiet.pure ?_
  cases hresult with
  | some hvalue => exact .some ⟨hleft, hvalue, rfl⟩
  | none => exact .none

theorem unify? : Quiet c.Coupled w (Lower.unify? l r) (Lower.unify? l' r')
    (Option.Rel (c.LikeOperands w)) := by
  have hleft := adaptLeft? hl hr
  have hright := adaptRight? hl hr
  obtain ⟨left, hlvalue, rfl⟩ := hl
  obtain ⟨right, hrvalue, rfl⟩ := hr
  unfold Lower.unify?
  dsimp only
  rw [hlvalue.isConstant, hrvalue.isConstant]
  split
  · exact .pure (.some ⟨hlvalue, hrvalue, rfl⟩)
  · split
    · refine hleft.bind fun result result' hresult => ?_
      cases hresult with
      | some hoperands => exact Quiet.pure (.some hoperands)
      | none => exact hright
    · refine hright.bind fun result result' hresult => ?_
      cases hresult with
      | some hoperands => exact Quiet.pure (.some hoperands)
      | none => exact hleft

end

/-! ## Literals -/

/-- The name of a text is that of its number, and what was in the pool stays there. -/
theorem intern_eq (globals : List GlobalVariable) (text : String) :
    texts globals <+: texts (intern globals text).2 ∧
      ∃ number, (intern globals text).1 = nameOf number ∧
        (texts (intern globals text).2).idxOf? text = some number := by
  refine ⟨(isPrefix_intern globals text).filterMap _, ?_⟩
  cases hindex : (texts globals).idxOf? text with
  | some number =>
    refine ⟨number, ?_⟩
    simp only [intern, hindex]
    exact ⟨trivial, trivial⟩
  | none =>
    refine ⟨(texts globals).length, ?_⟩
    simp only [intern, hindex, texts_append]
    rw [List.idxOf?] at hindex ⊢
    refine ⟨trivial, ?_⟩
    rw [List.findIdx?_append, hindex]
    simp [List.findIdx?_cons]

theorem Coupled.withPool {s s' : BodyState} (hs : c.Coupled w s s') (text : String)
    (hw : w ≤ w') (hleft : texts (intern s.globals text).2 = w'.left)
    (hright : texts (intern s'.globals text).2 = w'.right) :
    c.Coupled w' { s with globals := (intern s.globals text).2 }
      { s' with globals := (intern s'.globals text).2 } where
  left := hleft
  right := hright
  exact h := by
    show (intern s'.globals text).2 = _
    rw [hs.exact h]
  builder := hs.builder.mono fun _ _ hvalue => hvalue.mono hw
  scope := hs.scope
  places := hs.places
  log := hs.log

theorem lowerLiteral (literal : Literal) :
    Parallel c.Coupled w (SsaLowering.lowerLiteral literal) (SsaLowering.lowerLiteral literal)
      c.LikeTyped := by
  cases literal with
  | number numeral =>
    rw [SsaLowering.lowerLiteral]
    cases h : lowerNumeral numeral with
    | error e => exact .throw e
    | ok v =>
      refine .pure ⟨v.value, .of_ne fun name hname => ?_, rfl⟩
      rcases lowerNumeral_cases h with ⟨x, rfl⟩ | ⟨n, w, -, rfl, -⟩ <;> cases hname
  | string text =>
    intro s s' hs
    obtain ⟨hgrows, number, hname, hindex⟩ := intern_eq s.globals text
    obtain ⟨hgrows', number', hname', hindex'⟩ := intern_eq s'.globals text
    rw [hs.left] at hgrows
    rw [hs.right] at hgrows'
    refine ⟨⟨texts (intern s.globals text).2, texts (intern s'.globals text).2⟩,
      ⟨hgrows, hgrows'⟩, hs.withPool text ⟨hgrows, hgrows'⟩ rfl rfl, .ok ?_⟩
    show c.LikeTyped _ (stringValue (intern s.globals text).1)
      (stringValue (intern s'.globals text).1)
    rw [hname, hname']
    exact likeTyped (.literal hindex hindex') _ _
  | bool b => exact .pure (likeTyped (.of_ne fun _ => Value.noConfusion) _ _)
  | null => exact .pure (likeTyped (.of_ne fun _ => Value.noConfusion) _ _)

/-! ## Names and members -/

/-- A typed value that means the same in both runs. -/
def FixedTyped (c : Comparison) (v v' : TypedValue) : Prop := v' = v ∧ c.Fixed v.value

theorem FixedTyped.like (h : c.FixedTyped v v') : c.LikeTyped w v v' := ⟨v.value, .same h.2, h.1⟩

/-- A struct that means the same in both runs. -/
def FixedStruct (c : Comparison) : StructPlace → Prop
  | .memory value _ _ | .aggregate value _ => c.Fixed value

/-- What an instruction gives is the same temporary in both runs. -/
theorem define {instr instr' : Nat → Instr} (h : ∀ t, (instr t).Like (c.Like w) (instr' t)) :
    Quiet c.Coupled w (Lower.build (Build.define instr)) (Lower.build (Build.define instr'))
      fun v v' => v' = v ∧ c.Fixed v :=
  (build (Build.like_define h)).imp fun _ _ hv => ⟨hv.1, fixed_temp hv.2.choose_spec⟩

theorem load (h : c.Fixed value) (type : MachineType) :
    Quiet c.Coupled w (Lower.build (Build.load value type)) (Lower.build (Build.load value type))
      fun v v' => v' = v ∧ c.Fixed v :=
  define fun t => .load t type (.same h)

theorem store {address : Value} (haddress : c.Fixed address) (h : c.Like w value value')
    (type : MachineType) :
    Quiet c.Coupled w (Lower.build (Build.store value address type))
      (Lower.build (Build.store value' address type)) fun _ _ => True :=
  build (Build.like_emit (.store type h (.same haddress)))

theorem fieldAddress (h : c.Fixed value) (base : MachineType) (index : Nat) :
    Quiet c.Coupled w (Lower.build (Build.fieldAddress base value index))
      (Lower.build (Build.fieldAddress base value index)) fun v v' => v' = v ∧ c.Fixed v :=
  define fun t => .address t base (.same h)
    (.cons (.of_ne fun _ => Value.noConfusion) (.cons (.of_ne fun _ => Value.noConfusion) .nil))

theorem extract (h : c.Fixed value) (type fieldType : MachineType) (index : Nat) :
    Quiet c.Coupled w (Lower.build (Build.extract value type index fieldType))
      (Lower.build (Build.extract value type index fieldType)) fun v v' => v' = v ∧ c.Fixed v :=
  define fun t => .extract t type index fieldType (.same h)

theorem loadField {place : StructPlace} (h : c.FixedStruct place) (field : FieldLayout) :
    Quiet c.Coupled w (Lower.loadField place field) (Lower.loadField place field)
      c.FixedTyped := by
  cases place with
  | memory ptr layout writable =>
    refine (fieldAddress h layout.type field.index).bind ?_
    rintro _ address ⟨rfl, haddress⟩
    refine (load haddress field.type).bind ?_
    rintro _ value ⟨rfl, hvalue⟩
    exact Quiet.pure ⟨rfl, hvalue⟩
  | aggregate value layout =>
    refine (extract h layout.type field.type field.index).bind ?_
    rintro _ part ⟨rfl, hpart⟩
    exact Quiet.pure ⟨rfl, hpart⟩

section

variable {env : Environment} {functions : List (String × Signature)}

theorem visibleField (layout : StructLayout) (name : String) :
    Quiet c.Coupled w (Lower.visibleField env layout name)
      (Lower.visibleField { env with functions } layout name) fun field field' => field' = field :=
  orFail_bind fun _ _ => Parallel.guarded' (Quiet.pure rfl)

theorem fieldPlace {outer : StructPlace} (houter : c.FixedStruct outer) (name : String) :
    Quiet c.Coupled w (Lower.fieldPlace env outer name)
      (Lower.fieldPlace { env with functions } outer name)
      fun place place' => place' = place ∧ c.FixedStruct place := by
  unfold Lower.fieldPlace
  refine (visibleField outer.layout name).bind ?_
  rintro _ field rfl
  refine orFail_bind fun inner _ => ?_
  split
  · refine (loadField houter field).bind ?_
    rintro _ v ⟨rfl, hv⟩
    exact Quiet.pure ⟨rfl, hv⟩
  · cases outer with
    | memory ptr layout writable =>
      refine (fieldAddress houter layout.type field.index).bind ?_
      rintro _ address ⟨rfl, haddress⟩
      exact Quiet.pure ⟨rfl, haddress⟩
    | aggregate value layout =>
      refine (extract houter layout.type field.type field.index).bind ?_
      rintro _ part ⟨rfl, hpart⟩
      exact Quiet.pure ⟨rfl, hpart⟩

variable (hmeets : c.Meets env functions)

include hmeets

theorem variablePlace (name : String) :
    Quiet c.Coupled w (Lower.variablePlace env name)
      (Lower.variablePlace { env with functions } name)
      fun place place' => place' = place ∧ c.FixedStruct place := by
  unfold Lower.variablePlace
  refine (readBinding? hmeets name).bind ?_
  rintro _ result ⟨rfl, hresult⟩
  refine orFail_bind fun b hb => orFail_bind fun layout _ => ?_
  have hplace := hresult b hb
  have hmemory {address : Value} (haddress : c.Fixed address) :
      Quiet c.Coupled w
        (if b.source.isPointer = true then do
          return .memory (← Lower.build (Build.load address .ptr)) layout true
        else return .memory address layout b.isMutable)
        (if b.source.isPointer = true then do
          return .memory (← Lower.build (Build.load address .ptr)) layout true
        else return .memory address layout b.isMutable)
        fun place place' => place' = place ∧ c.FixedStruct place := by
    split
    · refine (load haddress .ptr).bind ?_
      rintro _ ptr ⟨rfl, hptr⟩
      exact Quiet.pure ⟨rfl, hptr⟩
    · exact .pure ⟨rfl, haddress⟩
  dsimp only
  cases hstorage : b.storage with
  | direct value =>
    rw [hstorage] at hplace
    dsimp only
    split
    · exact Quiet.pure ⟨rfl, hplace⟩
    · exact Quiet.pure ⟨rfl, hplace⟩
  | stack slot =>
    rw [hstorage] at hplace
    exact hmemory hplace
  | global symbol =>
    rw [hstorage] at hplace
    exact hmemory fun name hname => Value.global.inj hname ▸ hplace

theorem structPlace (object : Term) :
    Quiet c.Coupled w (Lower.structPlace env object)
      (Lower.structPlace { env with functions } object)
      fun place place' => place' = place ∧ c.FixedStruct place.1 := by
  fun_induction Lower.structPlace env object with
  | case1 location name =>
    refine (variablePlace hmeets name).bind ?_
    rintro _ place ⟨rfl, hplace⟩
    exact Quiet.pure ⟨rfl, hplace⟩
  | case2 location object field ih =>
    refine ih.bind ?_
    rintro _ ⟨outer, root⟩ ⟨rfl, houter⟩
    refine (fieldPlace houter field).bind ?_
    rintro _ place ⟨rfl, hplace⟩
    exact Quiet.pure ⟨rfl, hplace⟩
  | case3 term hvariable hmember =>
    rw [Lower.structPlace]
    · exact fail _
    · exact hvariable
    · exact hmember

theorem lowerMember (object : Term) (name : String) :
    Quiet c.Coupled w (Lower.lowerMember env object name)
      (Lower.lowerMember { env with functions } object name) c.FixedTyped := by
  refine (structPlace hmeets object).bind ?_
  rintro _ ⟨place, root⟩ ⟨rfl, hplace⟩
  refine (visibleField place.layout name).bind ?_
  rintro _ field rfl
  exact loadField hplace field

theorem memberAddress (object : Term) (name : String) :
    Quiet c.Coupled w (Lower.memberAddress env object name)
      (Lower.memberAddress { env with functions } object name)
      fun result result' => result' = result ∧ c.Fixed result.1 := by
  refine (structPlace hmeets object).bind ?_
  rintro _ ⟨place, root⟩ ⟨rfl, hplace⟩
  refine (visibleField place.layout name).bind ?_
  rintro _ field rfl
  dsimp only
  split
  · refine (fieldAddress hplace _ field.index).bind ?_
    rintro _ address ⟨rfl, haddress⟩
    exact Quiet.pure ⟨rfl, haddress⟩
  · exact fail _

theorem lowerVariable (name : String) :
    Quiet c.Coupled w (Lower.lowerVariable env name)
      (Lower.lowerVariable { env with functions } name) c.FixedTyped := by
  unfold Lower.lowerVariable
  refine (readBinding? hmeets name).bind ?_
  rintro _ result ⟨rfl, hresult⟩
  refine orFail_bind fun b hb => ?_
  have hplace := hresult b hb
  have hload {address : Value} (haddress : c.Fixed address) :
      Quiet c.Coupled w
        (do return ⟨← Lower.build (Build.load address b.type), b.type, some b.source⟩)
        (do return ⟨← Lower.build (Build.load address b.type), b.type, some b.source⟩)
        c.FixedTyped := by
    refine (load haddress b.type).bind ?_
    rintro _ value ⟨rfl, hvalue⟩
    exact Quiet.pure ⟨rfl, hvalue⟩
  cases hstorage : b.storage with
  | direct value =>
    rw [hstorage] at hplace
    exact Quiet.pure ⟨rfl, hplace⟩
  | stack slot =>
    rw [hstorage] at hplace
    exact hload hplace
  | global symbol =>
    rw [hstorage] at hplace
    exact hload fun name hname => Value.global.inj hname ▸ hplace

end

/-! ## Operators -/

theorem LikeTyped.describe (h : c.LikeTyped w v v') : v'.describe = v.describe := by
  obtain ⟨value', -, rfl⟩ := h
  rfl

/-- A result that is there in both runs is there to go on with. -/
theorem orFail_bind_rel {α β : Type} {P : α → α → Prop} {R : PoolTexts → β → β → Prop}
    {result result' : Option α} {cause : Cause} {f f' : α → Lower β}
    (hresult : Option.Rel P result result')
    (h : ∀ a a', P a a' → Parallel c.Coupled w (f a) (f' a') R) :
    Parallel c.Coupled w (Lower.orFail result cause >>= f)
      (Lower.orFail result' cause >>= f') R := by
  cases hresult with
  | none => exact .throw_bind _
  | some ha => exact h _ _ ha

/-- The lowering of an operand gives values that belong together, whatever was lowered before. -/
def LikeOperand (c : Comparison) (x x' : Lower TypedValue) : Prop :=
  ∀ w, Parallel c.Coupled w x x' c.LikeTyped

section

variable {left left' right right' operand operand' : Lower TypedValue}
  (hl : c.LikeOperand left left') (hr : c.LikeOperand right right')
  (ho : c.LikeOperand operand operand')

include ho in
theorem truthOf : Parallel c.Coupled w (Lower.truthOf operand) (Lower.truthOf operand') c.Like :=
  (ho w).bind fun _ _ _ _ hv => (toBool hv).parallel fun _ _ h => h

include hl hr in
theorem lowerArithmetic (op : BinaryOp) :
    Parallel c.Coupled w (Lower.lowerArithmetic op left right)
      (Lower.lowerArithmetic op left' right') c.LikeTyped := by
  refine (hl w).bind fun w₁ l l' _ hl' => (hr w₁).bind fun w₂ r r' hw hr' => ?_
  have hl' := hl'.mono hw
  rw [hl'.describe, hr'.describe]
  refine (unify? hl' hr').bind fun result result' hresult => ?_
  refine orFail_bind_rel hresult fun operands operands' hoperands => ?_
  rw [hoperands.type]
  refine orFail_bind fun code _ => ?_
  refine (binary code operands.type hoperands.left hoperands.right).bind fun _ _ hvalue => ?_
  split
  · exact .pure (likeTyped hvalue _ _)
  · exact .pure (likeTyped hvalue _ _)

theorem openFork (isAnd : Bool) (h : c.Like w value value') :
    Quiet c.Coupled w (Lower.openFork isAnd value) (Lower.openFork isAnd value')
      fun label label' => label' = label := by
  refine (build Build.like_newLabel).bind ?_
  rintro _ rhsLabel rfl
  refine (build Build.like_newLabel).bind ?_
  rintro _ mergeLabel rfl
  exact (branchTo h _ _ _ _).bind fun _ _ _ => Quiet.pure rfl

include hr in
/-- The block that leads to the right operand, and the one that comes from it, have the same labels
in both runs. -/
theorem lowerFork (isAnd : Bool) (h : c.Like w value value') :
    Parallel c.Coupled w (Lower.lowerFork isAnd value right)
      (Lower.lowerFork isAnd value' right') c.LikeTyped := by
  refine get.bind fun s s' hs => ?_
  rw [hs.builder.current]
  refine orFail_bind fun start _ => (openFork isAnd h).bind ?_
  rintro _ mergeLabel rfl
  have hrhs := tryCatch (w := w) (truthOf hr) fun w' e (_ : w ≤ w') =>
    (proceedTo (c := c) (w := w') mergeLabel mergeLabel
      (if isAnd then "and.end" else "or.end")).bind
        fun _ _ _ => Parallel.throw (α := Value) (Q := c.Like) e
  refine hrhs.bind fun w' rhs rhs' _ hrhs => get.bind fun s s' hs => ?_
  rw [hs.builder.current]
  refine orFail_bind fun stop _ => (jumpTo _ _ _).bind fun _ _ _ => ?_
  have hincoming : List.Forall₂ (fun a a' : Value × Nat => c.Like w' a.1 a'.1 ∧ a.2 = a'.2)
      [(.bool !isAnd, start), (rhs, stop)] [(.bool !isAnd, start), (rhs', stop)] :=
    .cons ⟨.of_ne fun _ => Value.noConfusion, rfl⟩ (.cons ⟨hrhs, rfl⟩ .nil)
  refine (define fun t => .phi t .bool hincoming).bind ?_
  rintro _ result ⟨rfl, hresult⟩
  exact .pure (likeTyped (.same hresult) _ _)

include hl hr in
theorem lowerShortCircuit (isAnd : Bool) :
    Parallel c.Coupled w (Lower.lowerShortCircuit isAnd left right)
      (Lower.lowerShortCircuit isAnd left' right') c.LikeTyped := by
  refine (truthOf hl).bind fun w' lhs lhs' _ hlhs => ?_
  rw [hlhs.bool?]
  split
  · split
    · exact .pure (likeTyped (.of_ne fun _ => Value.noConfusion) _ _)
    · exact (truthOf hr).bind fun _ _ _ _ hrhs => .pure (likeTyped hrhs _ _)
  · exact lowerFork hr isAnd hlhs

include hl hr in
theorem lowerEager (isAnd : Bool) :
    Parallel c.Coupled w (Lower.lowerEager isAnd left right)
      (Lower.lowerEager isAnd left' right') c.LikeTyped := by
  refine (truthOf hl).bind fun w₁ lhs lhs' _ hlhs => ?_
  refine (truthOf hr).bind fun w₂ rhs rhs' hw hrhs => ?_
  rw [hlhs.bool?, hrhs.bool?]
  split
  · exact .pure (likeTyped (.of_ne fun _ => Value.noConfusion) _ _)
  · exact (binary _ _ (hlhs.mono hw) hrhs).bind fun _ _ hvalue => .pure (likeTyped hvalue _ _)

include hl hr in
theorem lowerBinary (op : BinaryOp) :
    Parallel c.Coupled w (Lower.lowerBinary op left right) (Lower.lowerBinary op left' right')
      c.LikeTyped := by
  unfold Lower.lowerBinary
  split
  · exact lowerShortCircuit hl hr true
  · exact lowerShortCircuit hl hr false
  · exact lowerEager hl hr true
  · exact lowerEager hl hr false
  · exact lowerArithmetic hl hr op

include ho in
theorem lowerNot :
    Parallel c.Coupled w (Lower.lowerNot operand) (Lower.lowerNot operand') c.LikeTyped := by
  refine (truthOf ho).bind fun _ truth truth' _ htruth => ?_
  rw [htruth.bool?]
  split
  · exact .pure (likeTyped (.of_ne fun _ => Value.noConfusion) _ _)
  · refine (binary _ _ htruth (.of_ne fun _ => Value.noConfusion)).bind fun _ _ hvalue => ?_
    exact .pure (likeTyped hvalue _ _)

include ho in
theorem lowerNegate :
    Parallel c.Coupled w (Lower.lowerNegate operand) (Lower.lowerNegate operand')
      c.LikeTyped := by
  refine (ho w).bind fun _ v v' _ hv => ?_
  obtain ⟨value', hvalue, rfl⟩ := hv
  obtain ⟨value, type, source⟩ := v
  dsimp only at hvalue ⊢
  have hzero (zero : Value) (code : Opcode) (hne : ∀ name, zero ≠ .global name) :=
    (binary code type (.of_ne hne) hvalue).bind fun _ _ hresult =>
      Parallel.pure (likeTyped hresult type source)
  cases hvalue with
  | same =>
    split
    · exact .pure (likeTyped (.of_ne fun _ => Value.noConfusion) _ _)
    · exact .pure (likeTyped (.of_ne fun _ => Value.noConfusion) _ _)
    · exact hzero _ _ fun _ => Value.noConfusion
    · exact hzero _ _ fun _ => Value.noConfusion
    · exact fail _
  | literal =>
    cases type with
    | int => exact hzero _ _ fun _ => Value.noConfusion
    | float => exact hzero _ _ fun _ => Value.noConfusion
    | _ => exact fail _

section

variable {env : Environment} {functions : List (String × Signature)}
  (hmeets : c.Meets env functions)

theorem fixed_of_address {storage : Storage} {address : Value} (h : c.FixedPlace storage)
    (haddress : storage.address? = some address) : c.Fixed address := by
  cases storage with
  | stack slot =>
    cases haddress
    exact h
  | global name =>
    cases haddress
    exact fun _ hname => Value.global.inj hname ▸ h
  | direct value => cases haddress

/-- The operand of a step is a number. -/
theorem fixed_of_stepOperation {op : UnaryOp} {type : MachineType} {code : Opcode} {one : Value}
    (h : stepOperation? op type = some (code, one)) : c.Fixed one := by
  refine fixed_of_ne fun name hname => ?_
  subst hname
  cases op <;> cases type <;> cases h

include hmeets in
theorem lowerStep (op : UnaryOp) (term : Term) :
    Quiet c.Coupled w (Lower.lowerStep env op term)
      (Lower.lowerStep { env with functions } op term) c.FixedTyped := by
  unfold Lower.lowerStep
  split
  · refine (readBinding? hmeets _).bind ?_
    rintro _ result ⟨rfl, hresult⟩
    refine orFail_bind fun b hb => Parallel.guarded ?_
    refine orFail_bind fun address haddress => orFail_bind fun step hstep => ?_
    have hfixed := fixed_of_address (hresult b hb) haddress
    refine (load hfixed b.type).bind ?_
    rintro _ old ⟨rfl, hold⟩
    refine (define fun t => .binary t step.1 b.type (.same hold)
      (.same (fixed_of_stepOperation hstep))).bind ?_
    rintro _ new ⟨rfl, hnew⟩
    refine (store hfixed (.same hnew) b.type).bind fun _ _ _ => ?_
    refine Quiet.pure ⟨rfl, ?_⟩
    dsimp only
    split
    · exact hnew
    · exact hold
  · exact fail _

/-! ## Calls, casts and assignments -/

/-- Arguments of the same types that belong together. -/
def LikeArgument (c : Comparison) (w : PoolTexts) (a a' : MachineType × Value) : Prop :=
  a.1 = a'.1 ∧ c.Like w a.2 a'.2

theorem promoteVariadic (h : c.LikeTyped w v v') (callee : String) :
    Quiet c.Coupled w (Lower.promoteVariadic v callee) (Lower.promoteVariadic v' callee)
      (c.LikeArgument w) := by
  obtain ⟨value', hvalue, rfl⟩ := h
  obtain ⟨value, type, source⟩ := v
  unfold Lower.promoteVariadic
  dsimp only at hvalue ⊢
  split
  · refine (define fun t => .convert t .fpext .f32 .f64 hvalue).bind ?_
    rintro _ result ⟨rfl, hresult⟩
    exact Quiet.pure ⟨rfl, .same hresult⟩
  · exact fail _
  · exact fail _
  · exact .pure ⟨rfl, hvalue⟩

theorem passArguments {values values' : List TypedValue}
    (h : List.Forall₂ (c.LikeTyped w) values values') (callee : String) (number : Nat)
    (sources : List SourceType) (types : List MachineType) :
    Quiet c.Coupled w (Lower.passArguments callee number sources types values)
      (Lower.passArguments callee number sources types values')
      (List.Forall₂ (c.LikeArgument w)) := by
  fun_induction Lower.passArguments callee number sources types values generalizing values' with
  | case1 number sources types =>
    cases h
    rw [Lower.passArguments]
    exact .pure .nil
  | case2 number source sources type types v rest use =>
    rename_i ih
    obtain - | ⟨hv, hrest⟩ := h
    rw [Lower.passArguments]
    refine (coerce hv source type use).bind fun result result' hresult => ?_
    exact (ih hrest).bind fun passed passed' hpassed => Quiet.pure (.cons ⟨rfl, hresult⟩ hpassed)
  | case3 number sources types v rest hother ih =>
    obtain - | ⟨hv, hrest⟩ := h
    rw [Lower.passArguments]
    · refine (promoteVariadic hv callee).bind fun arg arg' harg => ?_
      exact (ih hrest).bind fun passed passed' hpassed => Quiet.pure (.cons harg hpassed)
    · exact hother

include hmeets in
/-- A call looks at what the signature calls for, not at who owns the function. -/
theorem lowerCall {args args' : Lower (List TypedValue)}
    (hargs : ∀ w, Parallel c.Coupled w args args' fun w => List.Forall₂ (c.LikeTyped w))
    (callee : String) (count : Nat) :
    Parallel c.Coupled w (Lower.lowerCall env callee count args)
      (Lower.lowerCall { env with functions } callee count args') c.LikeTyped := by
  refine orFail_bind_rel (hmeets.functions callee) fun signature signature' hsignature => ?_
  obtain ⟨owner, rfl⟩ : ∃ owner, signature' = { signature with owner } := ⟨_, hsignature⟩
  refine Parallel.guarded ((hargs w).bind fun w' values values' _ hvalues => ?_)
  refine (passArguments hvalues callee 1 _ _).bind fun passed passed' hpassed => ?_
  refine (build (Build.like_call signature.type (.of_ne fun _ => Value.noConfusion)
    hpassed)).bind ?_
  rintro _ result ⟨rfl, hresult⟩
  cases result with
  | none => exact .pure (likeTyped (.of_ne fun _ => Value.noConfusion) _ _)
  | some value =>
    obtain ⟨t, ht⟩ := hresult value rfl
    exact .pure (likeTyped (.same (fixed_temp ht)) _ _)

include ho in
theorem lowerCast (location : Option Location) (target : SourceType) :
    Parallel c.Coupled w (Lower.lowerCast env location target operand)
      (Lower.lowerCast { env with functions } location target operand') c.LikeTyped := by
  refine (checkKnown target location).bind fun _ _ _ => ?_
  refine (ho w).bind fun _ v v' _ hv => ?_
  obtain ⟨value', hvalue, rfl⟩ := hv
  dsimp only
  split
  · exact .pure (likeTyped hvalue _ _)
  · exact fail _

include hmeets in
theorem lowerAlloc (location : Option Location) (target : SourceType) :
    Quiet c.Coupled w (Lower.lowerAlloc env location target)
      (Lower.lowerAlloc { env with functions } location target) c.FixedTyped := by
  refine (checkKnown target location).bind fun _ _ _ => ?_
  refine orFail_bind_rel (hmeets.functions Lower.allocator)
    fun signature signature' hsignature => ?_
  obtain ⟨owner, rfl⟩ : ∃ owner, signature' = { signature with owner } := ⟨_, hsignature⟩
  refine (build (Build.like_call signature.type (.of_ne fun _ => Value.noConfusion)
    (.cons ⟨rfl, .of_ne fun _ => Value.noConfusion⟩ .nil))).bind ?_
  rintro _ result ⟨rfl, hresult⟩
  refine orFail_bind fun raw hraw => ?_
  obtain ⟨t, ht⟩ := hresult raw hraw
  dsimp only
  split
  · exact Quiet.pure ⟨rfl, fixed_temp ht⟩
  · refine (define fun t => .convert t .bitcast _ .ptr (.same (fixed_temp ht))).bind ?_
    rintro _ pointer ⟨rfl, hpointer⟩
    exact Quiet.pure ⟨rfl, hpointer⟩

include hmeets in
theorem assignVariable (hv : c.LikeTyped w v v') (name : String) :
    Quiet c.Coupled w (Lower.assignVariable env name v)
      (Lower.assignVariable { env with functions } name v') (c.LikeTyped w) := by
  refine (peekBinding? hmeets name).bind ?_
  rintro _ result ⟨rfl, hresult⟩
  refine orFail_bind fun b hb => Parallel.guarded ?_
  refine orFail_bind fun address haddress => ?_
  have hfixed := fixed_of_address (hresult b hb) haddress
  refine (coerce hv b.source b.type _).bind fun stored stored' hstored => ?_
  refine (store hfixed hstored b.type).bind fun _ _ _ => ?_
  exact Quiet.pure (likeTyped hstored _ _)

include hmeets in
theorem assignMember (hv : c.LikeTyped w v v') (object : Term) (name : String) :
    Quiet c.Coupled w (Lower.assignMember env object name v)
      (Lower.assignMember { env with functions } object name v') (c.LikeTyped w) := by
  refine (memberAddress hmeets object name).bind ?_
  rintro ⟨address, field⟩ _ ⟨rfl, haddress⟩
  refine (coerce hv field.source field.type _).bind fun stored stored' hstored => ?_
  refine (store haddress hstored field.type).bind fun _ _ _ => ?_
  exact Quiet.pure (likeTyped hstored _ _)

include hmeets ho in
theorem lowerAssign (target : Term) :
    Parallel c.Coupled w (Lower.lowerAssign env target operand)
      (Lower.lowerAssign { env with functions } target operand') c.LikeTyped := by
  refine (ho w).bind fun _ v v' _ hv => ?_
  split
  · exact (assignVariable hmeets hv _).parallel fun _ _ h => h
  · exact (assignMember hmeets hv _ _).parallel fun _ _ h => h
  · exact fail _

end

end

/-! ## All expressions -/

section

variable {env : Environment} {functions : List (String × Signature)}

/-- What means the same in both runs belongs together. -/
theorem Quiet.like {x x' : Lower TypedValue} (h : Quiet c.Coupled w x x' c.FixedTyped) :
    Parallel c.Coupled w x x' c.LikeTyped :=
  h.parallel fun _ _ hv => hv.like

mutual

theorem lowerTerm (hmeets : c.Meets env functions) : (term : Term) →
    c.LikeOperand (Lower.lowerTerm env term) (Lower.lowerTerm { env with functions } term)
  | .literal _ value => fun _ => located (lowerLiteral value)
  | .variable _ name => fun _ => located (Quiet.like (lowerVariable hmeets name))
  | .call _ callee args => fun _ =>
    located (lowerCall hmeets (lowerTerms hmeets args) callee args.length)
  | .binary _ op left right => fun _ =>
    located (lowerBinary (lowerTerm hmeets left) (lowerTerm hmeets right) op)
  | .unary _ .logicalNot operand => fun _ => located (lowerNot (lowerTerm hmeets operand))
  | .unary _ .minus operand => fun _ => located (lowerNegate (lowerTerm hmeets operand))
  | .unary _ .preIncrement operand => fun _ =>
    located (Quiet.like (lowerStep hmeets .preIncrement operand))
  | .unary _ .postIncrement operand => fun _ =>
    located (Quiet.like (lowerStep hmeets .postIncrement operand))
  | .unary _ .preDecrement operand => fun _ =>
    located (Quiet.like (lowerStep hmeets .preDecrement operand))
  | .unary _ .postDecrement operand => fun _ =>
    located (Quiet.like (lowerStep hmeets .postDecrement operand))
  | .cast location target operand => fun _ =>
    located (lowerCast (lowerTerm hmeets operand) location target)
  | .alloc location target => fun _ => located (Quiet.like (lowerAlloc hmeets location target))
  | .assign _ target value => fun _ =>
    located (lowerAssign (lowerTerm hmeets value) hmeets target)
  | .member _ object field => fun _ => located (Quiet.like (lowerMember hmeets object field))
termination_by structural term => term

theorem lowerTerms (hmeets : c.Meets env functions) : (terms : List Term) → (w : PoolTexts) →
    Parallel c.Coupled w (Lower.lowerTerms env terms)
      (Lower.lowerTerms { env with functions } terms) fun w => List.Forall₂ (c.LikeTyped w)
  | [], _ => .pure .nil
  | term :: rest, w =>
    (lowerTerm hmeets term w).bind fun w₁ _ _ _ hv =>
      (lowerTerms hmeets rest w₁).bind fun _ _ _ hw hrest => .pure (.cons (hv.mono hw) hrest)
termination_by structural terms => terms

end

end

end Comparison

end SsaLowering
