import SsaLowering.Proofs.ExpressionTyping
import SsaLowering.Proofs.Realm

/-!
# Expressions refer to what is declared

One statement for each action of the lowering of expressions: it adds only instructions of the
realm, and its result refers to what is declared. The arguments of a call have the types of the
parameters, in front of any further ones.
-/

namespace SsaLowering

/-- A constant at another type is no address that the constant was not. -/
theorem declares_of_convertConstant? {L : Ledger} {v : TypedValue} {target : MachineType}
    {value : Value} (hv : L.Declares v.value) (h : convertConstant? v target = some value) :
    L.Declares value := by
  unfold convertConstant? at h
  split at h
  · cases h
    exact hv
  · split at h
    · split at h
      · cases h
        trivial
      · split at h <;> cases h
        trivial
    · split at h <;> cases h
      trivial
    · cases h

theorem declares_of_stepOperation? {L : Ledger} {op : UnaryOp} {type : MachineType}
    {code : Opcode} {one : Value} (h : stepOperation? op type = some (code, one)) :
    L.Declares one := by
  unfold stepOperation? at h
  split at h
  · split at h <;> cases h <;> trivial
  · split at h <;> cases h <;> trivial
  · cases h

namespace Realm

open Lower

variable {r : Realm} {L : Ledger} {v : TypedValue} {lhs rhs value ptr : Value}
  {type target : MachineType}

/-! ## Instructions -/

/-- The result of an instruction is no address. -/
theorem keeps_define {instr : Nat → Instr} (h : ∀ t, r.Admits L (instr t)) :
    r.invariant.Keeps L (build (Build.define instr)) fun v L' => L'.Declares v := by
  have hdefine : r.invariant.Keeps L (build (Build.define instr))
      fun v L' => ∃ t, v = .temp t ∧ .instr (instr t) ∈ L' := .define h
  apply hdefine.imp
  rintro v L' - ⟨t, rfl, -⟩
  trivial

theorem keeps_binary (op : Opcode) (hlhs : L.Declares lhs) (hrhs : L.Declares rhs)
    (htype : r.Names type) :
    r.invariant.Keeps L (build (Build.binary op lhs rhs type)) fun v L' => L'.Declares v :=
  keeps_define fun _ => admits_of_ne_call (by simp [Instr.operands, hlhs, hrhs])
    (by simpa [Instr.types] using htype) (by simp)

theorem keeps_load (hptr : L.Declares ptr) (htype : r.Names type) :
    r.invariant.Keeps L (build (Build.load ptr type)) fun v L' => L'.Declares v :=
  keeps_define fun _ => admits_of_ne_call (by simpa [Instr.operands] using hptr)
    (by simpa [Instr.types] using htype) (by simp)

theorem keeps_store (hvalue : L.Declares value) (hptr : L.Declares ptr) (htype : r.Names type) :
    r.invariant.Keeps L (build (Build.store value ptr type)) fun _ _ => True :=
  .emit (admits_of_ne_call (by simp [Instr.operands, hvalue, hptr])
    (by simpa [Instr.types] using htype) (by simp))

theorem keeps_convert (op : Conversion) (hvalue : L.Declares value) (htype : r.Names type)
    (htarget : r.Names target) :
    r.invariant.Keeps L (build (Build.convert op value type target))
      fun v L' => L'.Declares v :=
  keeps_define fun _ => admits_of_ne_call (by simpa [Instr.operands] using hvalue)
    (by simp [Instr.types, htype, htarget]) (by simp)

theorem keeps_phi {incoming : List (Value × Nat)} (h : ∀ source ∈ incoming, L.Declares source.1)
    (htype : r.Names type) :
    r.invariant.Keeps L (build (Build.phi incoming type)) fun v L' => L'.Declares v := by
  refine keeps_define fun _ => admits_of_ne_call (fun v hv => ?_)
    (by simpa [Instr.types] using htype) (by simp)
  obtain ⟨source, hsource, rfl⟩ := List.mem_map.mp hv
  exact h source hsource

theorem keeps_fieldAddress {layout : StructLayout} (hlayout : layout ∈ r.env.structs.layouts)
    (hptr : L.Declares ptr) (index : Nat) :
    r.invariant.Keeps L (build (Build.fieldAddress layout.type ptr index))
      fun v L' => L'.Declares v :=
  keeps_define fun _ => admits_of_ne_call (by simp [Instr.operands, hptr])
    (by simpa [Instr.types] using names_layout hlayout) (by simp)

theorem keeps_extract {layout : StructLayout} {field : FieldLayout}
    (hlayout : layout ∈ r.env.structs.layouts) (hfield : field ∈ layout.fields)
    (hvalue : L.Declares value) :
    r.invariant.Keeps L (build (Build.extract value layout.type field.index field.type))
      fun v L' => L'.Declares v :=
  keeps_define fun _ => admits_of_ne_call (by simpa [Instr.operands] using hvalue)
    (by simp [Instr.types, names_layout hlayout, names_field hlayout hfield]) (by simp)

theorem keeps_call {callee : Value} {args : List (MachineType × Value)}
    (h : ∀ result, r.Admits L (.call result callee type args)) :
    r.invariant.Keeps L (build (Build.call callee type args))
      fun result L' => ∀ v, result = some v → L'.Declares v := by
  unfold Build.call
  split
  · rw [build_bind]
    refine (Invariant.Keeps.emit (h none)).bind fun _ L₁ _ _ => ?_
    rw [build_pure]
    exact .pure fun _ _ v hv => by cases hv
  · rw [build_bind]
    refine (keeps_define fun t => h (some t)).bind fun value L₁ _ hvalue => ?_
    rw [build_pure]
    refine .pure fun L₂ hL v hv => ?_
    obtain rfl := Option.some.inj hv
    exact hvalue.mono hL

theorem decides (h : L.Declares value) : r.invariant.Decides value L :=
  fun _ _ => admits_of_ne_call (by simpa [Instr.operands] using h) (by simp [Instr.types])
    (by simp)

/-! ## Values -/

theorem gives_truth (h : L.Declares value) : r.Gives L (.truth value) :=
  ⟨h, MachineType.named_bool⟩

theorem gives_pointer (h : L.Declares value) (t : SourceType) :
    r.Gives L ⟨value, .ptr, some t⟩ := ⟨h, MachineType.named_ptr⟩

theorem gives_void : r.Gives L .void := ⟨trivial, MachineType.named_void⟩

/-- Two operands at a common type. -/
structure Unifies (r : Realm) (L : Ledger) (o : Operands) : Prop where
  left : L.Declares o.left
  right : L.Declares o.right
  names : r.Names o.type

theorem Unifies.mono {L' : Ledger} {o : Operands} (h : r.Unifies L o) (hL : L ⊆ L') :
    r.Unifies L' o := ⟨h.left.mono hL, h.right.mono hL, h.names⟩

/-! ## Conversions -/

theorem keeps_convert? (hv : r.Gives L v) (htarget : r.Names target) :
    r.invariant.Keeps L (Lower.convert? v target) fun result L' =>
      ∀ value, result = some value → L'.Declares value := by
  have hdeclares (value : Value) (h : L.Declares value) :
      r.invariant.Keeps L (Pure.pure (some value)) fun result L' =>
        ∀ value, result = some value → L'.Declares value := by
    refine .pure fun L' hL _ heq => ?_
    obtain rfl := Option.some.inj heq
    exact h.mono hL
  rw [Lower.convert?]
  cases hc : convertConstant? v target with
  | some value => exact hdeclares value (declares_of_convertConstant? hv.declares hc)
  | none =>
    cases hw : widening? v.type target with
    | none => exact .pure fun L' _ value heq => by cases heq
    | some w =>
      cases w with
      | same => exact hdeclares v.value hv.declares
      | extend op =>
        refine (keeps_convert op hv.declares hv.names htarget).bind fun value L' _ hvalue => ?_
        refine .pure fun L'' hL _ heq => ?_
        obtain rfl := Option.some.inj heq
        exact hvalue.mono hL

theorem keeps_coerce (hv : r.Gives L v) (htarget : r.Names target) (source : SourceType)
    (use : String) : r.invariant.Keeps L (Lower.coerce v source target use)
      fun value L' => L'.Declares value := by
  refine (keeps_convert? hv htarget).bind fun result L' _ hresult => ?_
  cases result with
  | some value => exact .pure fun L'' hL => (hresult value rfl).mono hL
  | none => exact .fail _

theorem keeps_toBool (hv : r.Gives L v) :
    r.invariant.Keeps L (Lower.toBool v) fun value L' => L'.Declares value := by
  obtain ⟨value, type, source⟩ := v
  have hvalue : L.Declares value := hv.declares
  unfold Lower.toBool
  dsimp only
  split
  · exact .pure fun L' hL => hvalue.mono hL
  · exact .pure fun L' _ => trivial
  · exact .pure fun L' _ => trivial
  · exact .pure fun L' _ => trivial
  · exact keeps_binary .ne hvalue (Ledger.declares_of_isConstant rfl) hv.names
  · exact keeps_binary .ne hvalue (Ledger.declares_of_isConstant rfl) hv.names
  · exact keeps_binary .fone hvalue (Ledger.declares_of_isConstant rfl) hv.names
  · exact .fail _

theorem keeps_adaptLeft? {l u : TypedValue} (hl : r.Gives L l) (hu : r.Gives L u) :
    r.invariant.Keeps L (Lower.adaptLeft? l u)
      fun result L' => ∀ o, result = some o → r.Unifies L' o := by
  refine (keeps_convert? hl hu.names).bind fun result L' hL hresult => .pure fun L'' hL' o ho => ?_
  obtain ⟨value, hvalue, rfl⟩ := Option.map_eq_some_iff.mp ho
  exact ⟨(hresult value hvalue).mono hL', hu.declares.mono (hL.trans hL'), hu.names⟩

theorem keeps_adaptRight? {l u : TypedValue} (hl : r.Gives L l) (hu : r.Gives L u) :
    r.invariant.Keeps L (Lower.adaptRight? l u)
      fun result L' => ∀ o, result = some o → r.Unifies L' o := by
  refine (keeps_convert? hu hl.names).bind fun result L' hL hresult => .pure fun L'' hL' o ho => ?_
  obtain ⟨value, hvalue, rfl⟩ := Option.map_eq_some_iff.mp ho
  exact ⟨hl.declares.mono (hL.trans hL'), (hresult value hvalue).mono hL', hl.names⟩

theorem keeps_unify? {l u : TypedValue} (hl : r.Gives L l) (hu : r.Gives L u) :
    r.invariant.Keeps L (Lower.unify? l u)
      fun result L' => ∀ o, result = some o → r.Unifies L' o := by
  have hkeep {L' : Ledger} (o : Operands) (h : ∀ o', some o = some o' → r.Unifies L' o') :
      r.invariant.Keeps L' (Pure.pure (some o))
        fun result L'' => ∀ o', result = some o' → r.Unifies L'' o' :=
    .pure fun L'' hL o' ho' => (h o' ho').mono hL
  rw [Lower.unify?]
  split
  · apply hkeep
    rintro o ⟨rfl⟩
    exact ⟨hl.declares, hu.declares, hl.names⟩
  · split
    · refine (keeps_adaptLeft? hl hu).bind fun result L' hL hresult => ?_
      cases result with
      | some o => exact hkeep o hresult
      | none => exact keeps_adaptRight? (hl.mono hL) (hu.mono hL)
    · refine (keeps_adaptRight? hl hu).bind fun result L' hL hresult => ?_
      cases result with
      | some o => exact hkeep o hresult
      | none => exact keeps_adaptLeft? (hl.mono hL) (hu.mono hL)

/-! ## Literals -/

/-- A string literal may add a constant to the global variables, and refers to it. -/
theorem keeps_stringLiteral (text : String) :
    r.invariant.Keeps L (SsaLowering.lowerLiteral (.string text)) fun v L' => r.Gives L' v := by
  intro s hs hL
  have hsub : s.ledger ⊆ (exec (SsaLowering.lowerLiteral (.string text)) s).2.ledger := by
    rintro e (he | ⟨g, hg, rfl⟩)
    · exact .inl he
    · exact .inr ⟨g, StringPool.subset_intern hg, rfl⟩
  have hs : r.Holds s := hs
  refine ⟨hs.of_grown hsub (fun i hi => ?_) (fun entry he => .inl he) (.step text hs.pool),
    hsub, ?_⟩
  · rcases hi with hi | ⟨g, -, hi⟩
    · exact .inl (.inl hi)
    · cases hi
  · rintro v ⟨rfl⟩
    obtain ⟨g, hg, hname⟩ := ((hs.pool.numbered r.numbered).of_intern text).exists_intern
    exact ⟨show Ledger.Declares _ (.global _) from ⟨g, .inr ⟨g, hg, rfl⟩, hname⟩,
      MachineType.named_ptr⟩

theorem keeps_literal (literal : Literal) :
    r.invariant.Keeps L (SsaLowering.lowerLiteral literal) fun v L' => r.Gives L' v := by
  cases literal with
  | number numeral =>
    rw [SsaLowering.lowerLiteral]
    cases h : lowerNumeral numeral with
    | error e => exact .throw e
    | ok v =>
      refine .pure fun L' _ => ?_
      rcases lowerNumeral_cases h with ⟨x, rfl⟩ | ⟨n, w, -, rfl, -⟩
      · exact ⟨trivial, MachineType.named_float⟩
      · exact ⟨trivial, MachineType.named_int⟩
  | string text => exact keeps_stringLiteral text
  | bool b => exact .pure fun L' _ => gives_truth (Ledger.declares_of_isConstant rfl)
  | null => exact .pure fun L' _ => gives_pointer (Ledger.declares_of_isConstant rfl) _

/-! ## Members -/

theorem keeps_readBinding? (name : String) :
    r.invariant.Keeps L (Lower.readBinding? r.env name)
      fun result L' => ∀ b, result = some b → r.Binds L' b :=
  Invariant.Keeps.readBinding? (I := r.invariant) name

theorem keeps_peekBinding? (name : String) :
    r.invariant.Keeps L (Lower.peekBinding? r.env name)
      fun result L' => ∀ b, result = some b → r.Binds L' b :=
  Invariant.Keeps.peekBinding? (I := r.invariant) name

theorem keeps_visibleField (layout : StructLayout) (name : String) :
    r.invariant.Keeps L (Lower.visibleField r.env layout name)
      fun field _ => field ∈ layout.fields := by
  unfold Lower.visibleField
  refine .orFail_bind fun field hfield => .guarded' fun _ => .pure fun L' _ => ?_
  exact List.mem_of_find?_eq_some hfield

theorem Locates.layout_mem {place : StructPlace} (h : r.Locates L place) :
    place.layout ∈ r.env.structs.layouts := by
  cases h with
  | memory hlayout => exact hlayout
  | aggregate hlayout => exact hlayout

theorem keeps_loadField {place : StructPlace} {field : FieldLayout} (hplace : r.Locates L place)
    (hfield : field ∈ place.layout.fields) :
    r.invariant.Keeps L (Lower.loadField place field) fun v L' => r.Gives L' v := by
  have hnames := names_field hplace.layout_mem hfield
  cases hplace with
  | memory hlayout hptr =>
    refine (keeps_fieldAddress hlayout hptr field.index).bind fun address L₁ _ haddress => ?_
    refine (keeps_load haddress hnames).bind fun value L₂ _ hvalue => .pure fun L₃ hL => ?_
    exact ⟨hvalue.mono hL, hnames⟩
  | aggregate hlayout hvalue =>
    refine (keeps_extract hlayout hfield hvalue).bind fun value L₁ _ hvalue => .pure fun L₂ hL => ?_
    exact ⟨hvalue.mono hL, hnames⟩

theorem keeps_inMemory {b : Binding} {layout : StructLayout}
    (hlayout : layout ∈ r.env.structs.layouts) {address : Value} (ha : L.Declares address) :
    r.invariant.Keeps L
      (if b.source.isPointer = true then do
        let __do_lift ← build (Build.load address .ptr)
        Pure.pure (StructPlace.memory __do_lift layout true)
      else Pure.pure (StructPlace.memory address layout b.isMutable))
      fun place L' => r.Locates L' place := by
  split
  · refine (keeps_load ha MachineType.named_ptr).bind fun value L₁ _ hvalue => .pure fun L₂ hL => ?_
    exact .memory hlayout (hvalue.mono hL)
  · exact .pure fun L' hL => .memory hlayout (ha.mono hL)

theorem keeps_variablePlace (name : String) :
    r.invariant.Keeps L (Lower.variablePlace r.env name) fun place L' => r.Locates L' place := by
  unfold Lower.variablePlace
  refine (keeps_readBinding? name).bind fun result L₁ _ hresult => ?_
  refine .orFail_bind fun b hb => .orFail_bind fun layout hlayout => ?_
  have hb := hresult b hb
  have hlayout := (StructTable.mem_of_find? hlayout).1
  dsimp only
  split
  · next value hs =>
    split
    · exact .pure fun L' hL => .memory hlayout ((hb.direct value hs).mono hL)
    · exact .pure fun L' hL => .aggregate hlayout ((hb.direct value hs).mono hL)
  · next slot hs => exact keeps_inMemory hlayout (hb.address slot (by rw [hs]; rfl))
  · next symbol hs => exact keeps_inMemory hlayout (hb.address _ (by rw [hs]; rfl))

theorem keeps_fieldPlace {outer : StructPlace} (houter : r.Locates L outer) (name : String) :
    r.invariant.Keeps L (Lower.fieldPlace r.env outer name)
      fun place L' => r.Locates L' place := by
  unfold Lower.fieldPlace
  refine (keeps_visibleField outer.layout name).bind fun field L₁ hL₁ hfield => ?_
  refine .orFail_bind fun inner hinner => ?_
  have houter := houter.mono hL₁
  have hinner := (StructTable.mem_of_find? hinner).1
  split
  · refine (keeps_loadField houter hfield).bind fun v L₂ _ hv => .pure fun L₃ hL => ?_
    exact .memory hinner (hv.declares.mono hL)
  · cases houter with
    | memory hlayout hptr =>
      refine (keeps_fieldAddress hlayout hptr field.index).bind
        fun address L₂ _ ha => .pure fun L₃ hL => ?_
      exact .memory hinner (ha.mono hL)
    | aggregate hlayout hvalue =>
      refine (keeps_extract hlayout hfield hvalue).bind fun value L₂ _ hv => .pure fun L₃ hL => ?_
      exact .aggregate hinner (hv.mono hL)

theorem keeps_structPlace (object : Term) :
    r.invariant.Keeps L (Lower.structPlace r.env object)
      fun place L' => r.Locates L' place.1 := by
  generalize henv : r.env = env
  fun_induction Lower.structPlace env object generalizing L with
  | case1 location name =>
    subst henv
    exact (keeps_variablePlace name).bind fun place L₁ _ hplace => .pure fun L₂ hL =>
      hplace.mono hL
  | case2 location object field ih =>
    subst henv
    refine ih.bind fun place L₁ _ hplace => ?_
    refine (keeps_fieldPlace hplace field).bind fun inner L₂ _ hinner => .pure fun L₃ hL => ?_
    exact hinner.mono hL
  | case3 => exact .fail _

theorem keeps_lowerMember (object : Term) (name : String) :
    r.invariant.Keeps L (Lower.lowerMember r.env object name) fun v L' => r.Gives L' v := by
  refine (keeps_structPlace object).bind fun place L₁ _ hplace => ?_
  refine (keeps_visibleField place.1.layout name).bind fun field L₂ hL hfield => ?_
  exact keeps_loadField (hplace.mono hL) hfield

theorem keeps_memberAddress (object : Term) (name : String) :
    r.invariant.Keeps L (Lower.memberAddress r.env object name)
      fun result L' => L'.Declares result.1 ∧ r.Names result.2.type := by
  refine (keeps_structPlace object).bind fun place L₁ _ hplace => ?_
  refine (keeps_visibleField place.1.layout name).bind fun field L₂ hL hfield => ?_
  have hnames := names_field hplace.layout_mem hfield
  split
  · next ptr layout heq =>
    have hplace := hplace.mono hL
    rw [heq] at hplace
    cases hplace with
    | memory hlayout hptr =>
      refine (keeps_fieldAddress hlayout hptr field.index).bind
        fun address L₃ _ ha => .pure fun L₄ hL => ?_
      exact ⟨ha.mono hL, hnames⟩
  · exact .fail _

/-! ## Operators -/

theorem keeps_lowerVariable (name : String) :
    r.invariant.Keeps L (Lower.lowerVariable r.env name) fun v L' => r.Gives L' v := by
  unfold Lower.lowerVariable
  refine (keeps_readBinding? name).bind fun result L₁ _ hresult => .orFail_bind fun b hb => ?_
  have hb := hresult b hb
  have hload {address : Value} (ha : b.storage.address? = some address) :
      r.invariant.Keeps L₁ (build (Build.load address b.type) >>= fun value =>
          Pure.pure ⟨value, b.type, some b.source⟩) fun v L' => r.Gives L' v := by
    refine (keeps_load (hb.address address ha) hb.names).bind
      fun value L₂ _ hvalue => .pure fun L₃ hL => ?_
    exact ⟨hvalue.mono hL, hb.names⟩
  cases hs : b.storage with
  | direct value => exact .pure fun L' hL => ⟨(hb.direct value hs).mono hL, hb.names⟩
  | stack slot => exact hload (by rw [hs]; rfl)
  | global symbol => exact hload (by rw [hs]; rfl)

theorem keeps_truthOf {operand : Lower TypedValue}
    (h : r.invariant.Keeps L operand fun v L' => r.Gives L' v) :
    r.invariant.Keeps L (Lower.truthOf operand) fun value L' => L'.Declares value :=
  h.bind fun _ _ _ hv => keeps_toBool hv

section

variable {left right : Lower TypedValue}
  (hl : ∀ L, r.invariant.Keeps L left fun v L' => r.Gives L' v)
  (hr : ∀ L, r.invariant.Keeps L right fun v L' => r.Gives L' v)

include hl hr

theorem keeps_lowerArithmetic (op : BinaryOp) :
    r.invariant.Keeps L (Lower.lowerArithmetic op left right) fun v L' => r.Gives L' v := by
  refine (hl L).bind fun l L₁ _ hl => (hr L₁).bind fun u L₂ hL₂ hu => ?_
  refine (keeps_unify? (hl.mono hL₂) hu).bind fun result L₃ _ hresult => ?_
  refine .orFail_bind fun o ho => .orFail_bind fun code hcode => ?_
  have ho := hresult o ho
  refine (keeps_binary code ho.left ho.right ho.names).bind fun value L₄ _ hvalue => ?_
  split
  · exact .pure fun L₅ hL => gives_truth (hvalue.mono hL)
  · exact .pure fun L₅ hL => ⟨hvalue.mono hL, ho.names⟩

theorem keeps_lowerEager (isAnd : Bool) :
    r.invariant.Keeps L (Lower.lowerEager isAnd left right) fun v L' => r.Gives L' v := by
  refine (keeps_truthOf (hl L)).bind fun lhs L₁ _ hlhs => ?_
  refine (keeps_truthOf (hr L₁)).bind fun rhs L₂ hL₂ hrhs => ?_
  split
  · exact .pure fun L₃ _ => gives_truth (Ledger.declares_of_isConstant rfl)
  · refine (keeps_binary _ (hlhs.mono hL₂) hrhs MachineType.named_bool).bind
      fun value L₃ _ hvalue => .pure fun L₄ hL => ?_
    exact gives_truth (hvalue.mono hL)

omit hl in
theorem keeps_lowerFork (isAnd : Bool) {lhs : Value} (hlhs : L.Declares lhs) :
    r.invariant.Keeps L (Lower.lowerFork isAnd lhs right) fun v L' => r.Gives L' v := by
  unfold Lower.lowerFork
  refine Invariant.Keeps.get.bind fun s L₁ hL₁ _ => .orFail_bind fun start _ => ?_
  refine (Invariant.Keeps.openFork isAnd (decides (hlhs.mono hL₁))).bind fun mergeLabel L₂ _ _ => ?_
  dsimp only
  refine ((keeps_truthOf (hr L₂)).tryCatch fun e L₃ _ => ?_).bind fun rhs L₄ _ hrhs => ?_
  · exact (Invariant.Keeps.proceedTo mergeLabel mergeLabel _).bind fun _ L₅ _ _ => .throw e
  · refine Invariant.Keeps.get.bind fun s L₅ hL₅ _ => .orFail_bind fun stop _ => ?_
    refine (Invariant.Keeps.jumpTo mergeLabel mergeLabel _).bind fun _ L₆ hL₆ _ => ?_
    refine (keeps_phi (fun source hsource => ?_) MachineType.named_bool).bind
      fun value L₇ _ hvalue => .pure fun L₈ hL => gives_truth (hvalue.mono hL)
    simp only [List.mem_cons, List.not_mem_nil, or_false] at hsource
    rcases hsource with rfl | rfl
    · trivial
    · exact (hrhs.mono hL₅).mono hL₆

theorem keeps_lowerShortCircuit (isAnd : Bool) :
    r.invariant.Keeps L (Lower.lowerShortCircuit isAnd left right) fun v L' => r.Gives L' v := by
  refine (keeps_truthOf (hl L)).bind fun lhs L₁ _ hlhs => ?_
  split
  · split
    · exact .pure fun L₂ _ => gives_truth (Ledger.declares_of_isConstant rfl)
    · exact (keeps_truthOf (hr L₁)).bind fun rhs L₂ _ hrhs => .pure fun L₃ hL =>
        gives_truth (hrhs.mono hL)
  · exact keeps_lowerFork hr isAnd hlhs

theorem keeps_lowerBinary (op : BinaryOp) :
    r.invariant.Keeps L (Lower.lowerBinary op left right) fun v L' => r.Gives L' v := by
  cases op
  case logicalAnd => exact keeps_lowerShortCircuit hl hr true
  case logicalOr => exact keeps_lowerShortCircuit hl hr false
  case eagerAnd => exact keeps_lowerEager hl hr true
  case eagerOr => exact keeps_lowerEager hl hr false
  all_goals exact keeps_lowerArithmetic hl hr _

end

theorem keeps_lowerNot {operand : Lower TypedValue}
    (h : r.invariant.Keeps L operand fun v L' => r.Gives L' v) :
    r.invariant.Keeps L (Lower.lowerNot operand) fun v L' => r.Gives L' v := by
  refine (keeps_truthOf h).bind fun truth L₁ _ htruth => ?_
  split
  · exact .pure fun L₂ _ => gives_truth (Ledger.declares_of_isConstant rfl)
  · have htrue : L₁.Declares (.bool true) := Ledger.declares_of_isConstant rfl
    exact (keeps_binary .xor htruth htrue MachineType.named_bool).bind
      fun value L₂ _ hvalue => .pure fun L₃ hL => gives_truth (hvalue.mono hL)

theorem keeps_lowerNegate {operand : Lower TypedValue}
    (h : r.invariant.Keeps L operand fun v L' => r.Gives L' v) :
    r.invariant.Keeps L (Lower.lowerNegate operand) fun v L' => r.Gives L' v := by
  refine h.bind fun v L₁ _ hv => ?_
  obtain ⟨value, type, source⟩ := v
  obtain ⟨hvalue, hnames⟩ := hv
  dsimp only at hvalue hnames ⊢
  split
  · exact .pure fun L₂ _ => ⟨trivial, hnames⟩
  · exact .pure fun L₂ _ => ⟨trivial, hnames⟩
  · exact (keeps_binary .sub (Ledger.declares_of_isConstant rfl) hvalue hnames).bind
      fun result L₂ _ hresult => .pure fun L₃ hL => ⟨hresult.mono hL, hnames⟩
  · exact (keeps_binary .fsub (Ledger.declares_of_isConstant rfl) hvalue hnames).bind
      fun result L₂ _ hresult => .pure fun L₃ hL => ⟨hresult.mono hL, hnames⟩
  · exact .fail _

theorem keeps_lowerStep (op : UnaryOp) (operand : Term) :
    r.invariant.Keeps L (Lower.lowerStep r.env op operand) fun v L' => r.Gives L' v := by
  unfold Lower.lowerStep
  split
  · next location name =>
    refine (keeps_readBinding? name).bind fun result L₁ _ hresult => .orFail_bind fun b hb => ?_
    have hb := hresult b hb
    refine .guarded fun _ => .orFail_bind fun address ha => .orFail_bind fun step hstep => ?_
    have hptr := hb.address address ha
    refine (keeps_load hptr hb.names).bind fun old L₂ hL₂ hold => ?_
    refine (keeps_binary step.1 hold (declares_of_stepOperation? hstep) hb.names).bind
      fun new L₃ hL₃ hnew => ?_
    refine (keeps_store hnew (hptr.mono (hL₂.trans hL₃)) hb.names).bind fun _ L₄ hL₄ _ => ?_
    refine .pure fun L₅ hL₅ => ⟨?_, hb.names⟩
    dsimp only
    split
    · exact hnew.mono (hL₄.trans hL₅)
    · exact hold.mono (hL₃.trans (hL₄.trans hL₅))
  · exact .fail _

/-! ## Calls -/

theorem keeps_promoteVariadic (hv : r.Gives L v) (callee : String) :
    r.invariant.Keeps L (Lower.promoteVariadic v callee)
      fun arg L' => L'.Declares arg.2 ∧ r.Names arg.1 := by
  unfold Lower.promoteVariadic
  split
  · refine (keeps_convert .fpext hv.declares MachineType.named_float MachineType.named_float).bind
      fun value L₁ _ hvalue => .pure fun L₂ hL => ?_
    exact ⟨hvalue.mono hL, MachineType.named_float⟩
  · exact .fail _
  · exact .fail _
  · exact .pure fun L' hL => ⟨hv.declares.mono hL, hv.names⟩

/-- The arguments that are passed: one for each value, and the first ones at the types of the
parameters. -/
structure Passes (r : Realm) (types : List MachineType) (count : Nat)
    (args : List (MachineType × Value)) (L : Ledger) : Prop where
  declares : ∀ arg ∈ args, L.Declares arg.2
  names : ∀ arg ∈ args, r.Names arg.1
  length : args.length = count
  types : types.length ≤ count → types <+: args.map Prod.fst

/-- One more argument in front of the others. -/
theorem Passes.cons {types types' : List MachineType} {count : Nat} {arg : MachineType × Value}
    {args : List (MachineType × Value)} (h : r.Passes types count args L)
    (hdeclares : L.Declares arg.2) (hnames : r.Names arg.1)
    (htypes : types'.length ≤ count + 1 → types <+: args.map Prod.fst →
      types' <+: (arg :: args).map Prod.fst)
    (hlength : types'.length ≤ count + 1 → types.length ≤ count) :
    r.Passes types' (count + 1) (arg :: args) L where
  declares := List.forall_mem_cons.mpr ⟨hdeclares, h.declares⟩
  names := List.forall_mem_cons.mpr ⟨hnames, h.names⟩
  length := congrArg (· + 1) h.length
  types := fun hcount => htypes hcount (h.types (hlength hcount))

theorem Passes.mono {types : List MachineType} {count : Nat} {args : List (MachineType × Value)}
    {L' : Ledger} (h : r.Passes types count args L) (hL : L ⊆ L') :
    r.Passes types count args L' :=
  ⟨fun arg harg => (h.declares arg harg).mono hL, h.names, h.length, h.types⟩

theorem keeps_passArguments (callee : String) (number : Nat) (sources : List SourceType)
    {types : List MachineType} {values : List TypedValue}
    (hsources : sources.length = types.length)
    (htypes : ∀ type ∈ types, r.Names type) (hvalues : ∀ v ∈ values, r.Gives L v) :
    r.invariant.Keeps L (Lower.passArguments callee number sources types values)
      fun args L' => r.Passes types values.length args L' := by
  fun_induction Lower.passArguments callee number sources types values generalizing L with
  | case1 number sources types =>
    refine .pure fun L' _ => ⟨by simp, by simp, rfl, fun hcount => ?_⟩
    simp [List.length_eq_zero_iff.mp (Nat.le_zero.mp hcount)]
  | case2 number source sources type types v rest use =>
    rename_i ih
    obtain ⟨htype, htypes⟩ := List.forall_mem_cons.mp htypes
    obtain ⟨hv, hrest⟩ := List.forall_mem_cons.mp hvalues
    refine (keeps_coerce hv htype source use).bind fun value L₁ hL₁ hvalue => ?_
    refine (ih (by simpa using hsources) htypes fun w hw => (hrest w hw).mono hL₁).bind
      fun passed L₂ hL₂ hpassed => .pure fun L₃ hL₃ => ?_
    refine (hpassed.mono hL₃).cons (hvalue.mono (hL₂.trans hL₃)) htype (fun _ hfixed => ?_)
      fun hcount => by simpa using hcount
    exact List.prefix_cons_inj type |>.mpr hfixed
  | case3 number sources types v rest hne ih =>
    -- As long as there are as many source types as types, both have run out.
    have hnil : types = [] := by
      cases sources with
      | nil => exact List.length_eq_zero_iff.mp hsources.symm
      | cons source sources =>
        cases types with
        | nil => cases hsources
        | cons type types => exact absurd rfl (hne source sources type types rfl)
    subst hnil
    obtain ⟨hv, hrest⟩ := List.forall_mem_cons.mp hvalues
    refine (keeps_promoteVariadic hv callee).bind fun arg L₁ hL₁ hpromoted => ?_
    refine (ih hsources htypes fun w hw => (hrest w hw).mono hL₁).bind
      fun passed L₂ hL₂ hpassed => .pure fun L₃ hL₃ => ?_
    exact (hpassed.mono hL₃).cons (hpromoted.1.mono (hL₂.trans hL₃)) hpromoted.2
      (fun _ _ => List.nil_prefix) fun _ => Nat.zero_le _

theorem keeps_lowerCall (callee : String) (count : Nat) {args : Lower (List TypedValue)}
    (h : ∀ L, r.invariant.Keeps L args
      fun values L' => (∀ v ∈ values, r.Gives L' v) ∧ values.length = count) :
    r.invariant.Keeps L (Lower.lowerCall r.env callee count args) fun v L' => r.Gives L' v := by
  unfold Lower.lowerCall
  refine .orFail_bind fun sig hlookup => .guarded fun hcount => ?_
  refine (h L).bind fun values L₁ _ hvalues => ?_
  obtain ⟨hvalues, rfl⟩ := hvalues
  have hresolves := r.signatures callee sig hlookup
  have hlength : sig.params.length = sig.paramTypes.length := by
    rw [hresolves.params, List.length_map]
  refine (keeps_passArguments callee 1 sig.params hlength (names_param hlookup) hvalues).bind
    fun passed L₂ _ hpassed => ?_
  have haccepts : sig.type.Accepts (passed.map Prod.fst) := by
    rw [hlength] at hcount
    refine ⟨hpassed.types ?_, fun hvararg => ?_⟩
    · split at hcount
      · exact of_decide_eq_true hcount
      · exact (eq_of_beq hcount).ge
    · rw [hvararg, if_neg (by simp)] at hcount
      rw [List.length_map, hpassed.length]
      exact eq_of_beq hcount
  refine (keeps_call fun _ => admits_call hlookup hpassed.declares hpassed.names
    (.checked hlookup haccepts)).bind fun result L₃ _ hresult => ?_
  cases result with
  | none => exact .pure fun _ _ => gives_void
  | some value =>
    exact .pure fun L₄ hL => ⟨(hresult value rfl).mono hL, names_result hlookup⟩

theorem keeps_lowerCast (location : Option Location) (t : SourceType) {operand : Lower TypedValue}
    (h : ∀ L, r.invariant.Keeps L operand fun v L' => r.Gives L' v) :
    r.invariant.Keeps L (Lower.lowerCast r.env location t operand) fun v L' => r.Gives L' v := by
  refine (Invariant.Keeps.checkKnown r.env t location).bind fun _ L₁ _ _ => ?_
  refine (h L₁).bind fun v L₂ _ hv => ?_
  split
  · exact .pure fun L₃ hL => gives_pointer (hv.declares.mono hL) t
  · exact .fail _

theorem keeps_lowerAlloc (location : Option Location) (t : SourceType) :
    r.invariant.Keeps L (Lower.lowerAlloc r.env location t) fun v L' => r.Gives L' v := by
  unfold Lower.lowerAlloc
  refine (Invariant.Keeps.checkKnown r.env t location).bind fun _ L₁ _ _ => ?_
  refine .orFail_bind fun sig hlookup => ?_
  have hargs (bytes : Int64) : ∀ arg ∈ [(MachineType.i64, Value.int bytes)],
      L₁.Declares arg.2 ∧ r.Names arg.1 := by
    exact List.forall_mem_singleton.mpr ⟨Ledger.declares_of_isConstant rfl, MachineType.named_int⟩
  refine (keeps_call fun _ => admits_call hlookup (fun arg harg => (hargs _ arg harg).1)
    (fun arg harg => (hargs _ arg harg).2) (.allocation _ hlookup)).bind fun result L₂ _ hresult =>
    .orFail_bind fun raw hraw => ?_
  have hraw := hresult raw hraw
  split
  · exact .pure fun L₃ hL => gives_pointer (hraw.mono hL) _
  · refine (keeps_convert .bitcast hraw (names_result hlookup) MachineType.named_ptr).bind
      fun pointer L₃ _ hpointer => .pure fun L₄ hL => ?_
    exact gives_pointer (hpointer.mono hL) _

/-! ## Assignments -/

theorem keeps_assignVariable (hv : r.Gives L v) (name : String) :
    r.invariant.Keeps L (Lower.assignVariable r.env name v) fun v L' => r.Gives L' v := by
  unfold Lower.assignVariable
  refine (keeps_peekBinding? name).bind fun result L₁ hL₁ hresult => .orFail_bind fun b hb => ?_
  have hb := hresult b hb
  refine .guarded fun _ => .orFail_bind fun address ha => ?_
  refine (keeps_coerce (hv.mono hL₁) hb.names b.source _).bind fun stored L₂ hL₂ hstored => ?_
  refine (keeps_store hstored ((hb.address address ha).mono hL₂) hb.names).bind
    fun _ L₃ hL₃ _ => .pure fun L₄ hL₄ => ?_
  exact ⟨hstored.mono (hL₃.trans hL₄), hb.names⟩

theorem keeps_assignMember (hv : r.Gives L v) (object : Term) (name : String) :
    r.invariant.Keeps L (Lower.assignMember r.env object name v) fun v L' => r.Gives L' v := by
  unfold Lower.assignMember
  refine (keeps_memberAddress object name).bind fun result L₁ hL₁ hresult => ?_
  obtain ⟨hptr, hnames⟩ := hresult
  refine (keeps_coerce (hv.mono hL₁) hnames _ _).bind fun stored L₂ hL₂ hstored => ?_
  refine (keeps_store hstored (hptr.mono hL₂) hnames).bind fun _ L₃ hL₃ _ => .pure fun L₄ hL₄ => ?_
  exact ⟨hstored.mono (hL₃.trans hL₄), hnames⟩

theorem keeps_lowerAssign (assigned : Term) {value : Lower TypedValue}
    (h : r.invariant.Keeps L value fun v L' => r.Gives L' v) :
    r.invariant.Keeps L (Lower.lowerAssign r.env assigned value) fun v L' => r.Gives L' v := by
  refine h.bind fun v L₁ _ hv => ?_
  split
  · exact keeps_assignVariable hv _
  · exact keeps_assignMember hv _ _
  · exact .fail _

/-! ## The recursion -/

mutual

/-- The lowering of an expression adds only instructions of the realm, by recursion on the
expression. -/
theorem keeps_lowerTerm : (term : Term) → (L : Ledger) →
    r.invariant.Keeps L (Lower.lowerTerm r.env term) fun v L' => r.Gives L' v
  | .literal _ literal, _ => .located (keeps_literal literal)
  | .variable _ name, _ => .located (keeps_lowerVariable name)
  | .call _ callee args, _ => .located (keeps_lowerCall callee args.length (keeps_lowerTerms args))
  | .binary _ op left right, _ =>
    .located (keeps_lowerBinary (keeps_lowerTerm left) (keeps_lowerTerm right) op)
  | .unary _ .logicalNot operand, L => .located (keeps_lowerNot (keeps_lowerTerm operand L))
  | .unary _ .minus operand, L => .located (keeps_lowerNegate (keeps_lowerTerm operand L))
  | .unary _ .preIncrement operand, _ | .unary _ .postIncrement operand, _
  | .unary _ .preDecrement operand, _ | .unary _ .postDecrement operand, _ =>
    .located (keeps_lowerStep _ operand)
  | .cast location target operand, _ =>
    .located (keeps_lowerCast location target (keeps_lowerTerm operand))
  | .alloc location target, _ => .located (keeps_lowerAlloc location target)
  | .assign _ target value, L => .located (keeps_lowerAssign target (keeps_lowerTerm value L))
  | .member _ object field, _ => .located (keeps_lowerMember object field)

theorem keeps_lowerTerms : (terms : List Term) → (L : Ledger) →
    r.invariant.Keeps L (Lower.lowerTerms r.env terms)
      fun values L' => (∀ v ∈ values, r.Gives L' v) ∧ values.length = terms.length
  | [], _ => .pure fun _ _ => ⟨by simp, rfl⟩
  | term :: rest, L => by
    refine (keeps_lowerTerm term L).bind fun v L₁ _ hv => ?_
    refine (keeps_lowerTerms rest L₁).bind fun vs L₂ hL₂ hvs => .pure fun L₃ hL₃ => ?_
    refine ⟨List.forall_mem_cons.mpr ⟨hv.mono (hL₂.trans hL₃), fun w hw => ?_⟩,
      congrArg (· + 1) hvs.2⟩
    exact (hvs.1 w hw).mono hL₃

end

end Realm

end SsaLowering
