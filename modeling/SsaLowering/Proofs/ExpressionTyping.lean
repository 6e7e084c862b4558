import SsaLowering.Proofs.Discipline
import SsaLowering.Proofs.ExpressionValue
import SsaLowering.Proofs.StringPool

/-!
# Expressions keep to a setting

One statement for each action of the lowering of expressions: it obeys the setting, and its
result is what its types say.
-/

namespace SsaLowering

/-- The opposite of a constant fits the type of the constant. -/
def TypedValue.IsOpposable (v : TypedValue) : Prop :=
  ∀ n, v.value = .int n → v.type.fits (-n) = true

/-- The opposite of a constant value is known to fit its type: the expression is neither an
assignment, which may have a constant at any type, nor the least 32-bit integer. -/
def Term.isOpposable : Term → Bool
  | .literal _ (.number numeral) => readInt64? numeral.toList != some (-2147483648)
  | .assign .. => false
  | _ => true

mutual

/-- The opposite of an operand is only taken where it is known to fit. -/
def Term.isTame : Term → Bool
  | .call _ _ args => Term.areTame args
  | .binary _ _ left right => left.isTame && right.isTame
  | .unary _ .logicalNot operand | .cast _ _ operand => operand.isTame
  | .unary _ .minus operand => operand.isOpposable && operand.isTame
  | .assign _ _ value => value.isTame
  | .literal .. | .variable .. | .unary .. | .alloc .. | .member .. => true
termination_by structural term => term

def Term.areTame : List Term → Bool
  | [] => true
  | term :: rest => term.isTame && Term.areTame rest
termination_by structural terms => terms

end

/-- A numeral is an integer or a double, and only the least 32-bit integer has no opposite. -/
theorem lowerNumeral_cases {numeral : String} {v : TypedValue} (h : lowerNumeral numeral = .ok v) :
    (∃ x, v = .plain (.float x) .f64) ∨
    ∃ n w, readInt64? numeral.toList = some n ∧ v = .plain (.int n) (.int .signed w) ∧
      MachineType.fits (.int .signed w) n = true ∧
      (n ≠ -2147483648 → MachineType.fits (.int .signed w) (-n) = true) := by
  unfold lowerNumeral at h
  split at h
  · split at h
    · cases h
      exact .inl ⟨_, rfl⟩
    · cases h
  · split at h
    · next n hn =>
      cases h
      by_cases hfits : MachineType.fits .i32 n = true
      · rw [if_pos hfits]
        exact .inr ⟨n, _, hn, rfl, hfits, MachineType.fits_neg_i32 hfits⟩
      · rw [if_neg hfits]
        exact .inr ⟨n, _, hn, rfl, MachineType.fits_i64 n, fun _ => MachineType.fits_i64 (-n)⟩
    · cases h

/-- A constant takes only types that hold it. -/
theorem fits_of_convertConstant? {v : TypedValue} {target : MachineType} {value : Value}
    (hv : v.value.Fits v.type) (h : convertConstant? v target = some value) :
    value.Fits target := by
  unfold convertConstant? at h
  split at h
  · next heq =>
    cases h
    exact heq ▸ hv
  · split at h
    · split at h
      · next hcond =>
        rintro m ⟨rfl⟩
        cases h
        simp only [Bool.and_eq_true] at hcond
        exact hcond.2
      · split at h
        · rintro m ⟨rfl⟩
          cases h
        · cases h
    · split at h
      · rintro m ⟨rfl⟩
        cases h
      · cases h
    · cases h

theorem selectOpcode?_type {op : BinaryOp} {type : MachineType} {code : Opcode}
    (h : selectOpcode? op type = some code) : type ≠ .void ∧
      (code.isComparison = false → type.isInteger = true ∨ type.isFloat = true) := by
  unfold selectOpcode? at h
  split at h
  · exact ⟨by simp, fun _ => .inl rfl⟩
  · exact ⟨by simp, fun _ => .inr rfl⟩
  all_goals cases h
  all_goals exact ⟨by simp, by decide⟩

theorem widens_of_widening? {source target : MachineType} {op : Conversion}
    (h : widening? source target = some (.extend op)) : op.Widens source target := by
  unfold widening? at h
  split at h
  · next s w s' w' =>
    split at h
    · cases h
    · split at h
      · next hlt => cases s <;> cases h <;> exact hlt
      · cases h
  · cases h
    exact ⟨rfl, rfl⟩
  · cases h

/-- A conversion that needs no instruction is one of integers of the same width. -/
theorem alike_of_widening? {source target : MachineType}
    (h : widening? source target = some .same) : source.Alike target := by
  unfold widening? at h
  split at h
  · next s w s' w' =>
    split at h
    · next hw =>
      obtain rfl : w = w' := by cases w <;> cases w' <;> simp_all [IntWidth.bits, IntWidth.bytes]
      exact .inr ⟨s, s', w, rfl, rfl⟩
    · split at h <;> cases h
  · cases h
  · cases h

namespace Setting

variable {c : Setting} {L : Ledger}

/-- Two operands at a common type, if that is the type of a value. -/
structure Unifies (c : Setting) (L : Ledger) (o : Lower.Operands) : Prop where
  signed : c.exact → o.type.isUnsigned = false
  operands : o.type ≠ .void → c.Operand L o.left o.type ∧ c.Operand L o.right o.type

theorem Yields.signed {v : TypedValue} (h : c.Yields L v) (hexact : c.exact) :
    v.type.isUnsigned = false := by
  rcases h with rfl | h
  · rfl
  · exact h.allows.signed hexact

theorem Unifies.mono {L' : Ledger} {o : Lower.Operands} (h : c.Unifies L o) (hL : L ⊆ L') :
    c.Unifies L' o :=
  ⟨h.signed, fun ho => ⟨(h.operands ho).1.mono hL, (h.operands ho).2.mono hL⟩⟩

theorem matches_pointer {t : SourceType} (ht : t.isPointer = true) : c.Matches .ptr t :=
  ⟨fun _ => rfl, fun _ => (StructTable.resolve_of_pointer ht).symm⟩

theorem allows_ptr : c.Allows .ptr := ⟨by simp, fun _ => rfl⟩

/-- A pointer with a source type. -/
theorem gives_pointer {value : Value} {t : SourceType} (h : L.HasType value .ptr)
    (ht : t.isPointer = true) : c.Gives L ⟨value, .ptr, some t⟩ :=
  ⟨operand_of_hasType h rfl, allows_ptr, matches_pointer ht⟩

theorem gives_truth {value : Value} (h : c.Operand L value .bool) : c.Gives L (.truth value) :=
  ⟨h, ⟨by simp [TypedValue.truth], fun _ => rfl⟩,
    ⟨by simp [TypedValue.inferredType, TypedValue.truth, SourceType.named],
      fun _ => (StructTable.resolve_of_builtin rfl rfl).symm⟩⟩

theorem operand_truth (b : Bool) : c.Operand L (.bool b) .bool :=
  operand_of_hasType (.bool b) rfl

/-- A value whose opposite, if it is constant, is one of its type, too. -/
structure Offers (c : Setting) (L : Ledger) (v : TypedValue) : Prop where
  yields : c.Yields L v
  opposable : v.IsOpposable

theorem offers_void : c.Offers L .void := ⟨yields_void, fun n hn => by cases hn⟩

/-- A value that is no integer has no opposite. -/
theorem Gives.offers {v : TypedValue} (h : c.Gives L v) (hv : v.type.isInteger = false) :
    c.Offers L v := by
  refine ⟨.inr h, fun n hn => ?_⟩
  have hfits := h.operand.hasType.fits hv n hn
  cases htype : v.type <;> simp_all [MachineType.isInteger, MachineType.fits]

theorem offers_truth {value : Value} (h : c.Operand L value .bool) : c.Offers L (.truth value) :=
  (gives_truth h).offers rfl

/-- A temporary is not constant. -/
theorem offers_temp {value : Value} {type : MachineType} {source : SourceType}
    (h : L.Computes value type) (hallows : c.Allows type) (hmatches : c.Matches type source) :
    c.Offers L ⟨value, type, some source⟩ := by
  refine ⟨.inr ⟨operand_of_computes h, hallows, hmatches⟩, fun n hn => ?_⟩
  obtain ⟨m, rfl⟩ := h.temp
  cases hn

/-- A number without a source type of its own. -/
theorem gives_plain {value : Value} {type : MachineType} (h : c.Operand L value type)
    (hsigned : c.exact → type.isUnsigned = false)
    (htype : type.isInteger = true ∨ type.isFloat = true) : c.Gives L (.plain value type) :=
  ⟨h, ⟨by rintro rfl; simp [MachineType.isInteger, MachineType.isFloat] at htype, hsigned⟩,
    matches_toSource (htype.imp_right .inl)⟩

theorem offers_plain {value : Value} {type : MachineType} (h : L.Computes value type)
    (hsigned : c.exact → type.isUnsigned = false)
    (htype : type.isInteger = true ∨ type.isFloat = true) : c.Offers L (.plain value type) := by
  refine ⟨.inr (gives_plain (operand_of_computes h) hsigned htype), fun n hn => ?_⟩
  obtain ⟨m, rfl⟩ := h.temp
  cases hn

namespace Obeys

open Lower

variable {α : Type} {v : TypedValue}

/-! ## Conversions -/

theorem operand_of_convertConstant? {target : MachineType} {value : Value}
    (hv : c.Yields L v) (htarget : target ≠ .void) (h : convertConstant? v target = some value) :
    c.Operand L value target := by
  unfold convertConstant? at h
  split at h
  · next heq =>
    cases h
    exact heq ▸ (hv.gives (heq ▸ htarget)).operand
  · split at h
    · split at h
      · next n hn hcond =>
        cases h
        simp only [Bool.and_eq_true] at hcond
        obtain ⟨⟨-, hint⟩, hfits⟩ := hcond
        cases target with
        | int s w => exact ⟨.int n s w, fun _ m hm => by cases hm; exact hfits⟩
        | _ => cases hint
      · split at h
        · next n hn _ hcond =>
          cases h
          simp only [Bool.and_eq_true] at hcond
          cases target with
          | float w => exact operand_of_hasType (.float _ w) rfl
          | _ => exact absurd hcond.2 (by simp [MachineType.isFloat])
        · cases h
    · split at h
      · next x hx hcond =>
        cases h
        simp only [Bool.and_eq_true] at hcond
        cases target with
        | float w => exact operand_of_hasType (.float x w) rfl
        | _ => exact absurd hcond.2 (by simp [MachineType.isFloat])
      · cases h
    · cases h

/-- Integers of one width are told apart by nothing but their sign, and there are no unsigned
ones in an exact setting. -/
theorem operand_of_alike {value : Value} {type target : MachineType}
    (h : c.Operand L value type) (halike : type.Alike target)
    (htype : c.exact → type.isUnsigned = false) (htarget : c.exact → target.isUnsigned = false) :
    c.Operand L value target := by
  refine ⟨h.hasType.alike halike, fun hexact => ?_⟩
  have htype := htype hexact
  have htarget := htarget hexact
  rcases halike with rfl | ⟨s, s', w, rfl, rfl⟩
  · exact h.fits hexact
  · cases s <;> cases s' <;> simp [MachineType.isUnsigned] at htype htarget
    exact h.fits hexact

theorem convert? (hv : c.Yields L v) {target : MachineType}
    (htarget : c.exact → target.isUnsigned = false) :
    c.Obeys L (Lower.convert? v target) fun result L' => ∀ value, result = some value →
      target ≠ .void → c.Operand L' value target := by
  rw [Lower.convert?]
  cases hc : convertConstant? v target with
  | some value =>
    refine pure fun L' hL _ heq hne => ?_
    obtain rfl := Option.some.inj heq
    exact (operand_of_convertConstant? hv hne hc).mono hL
  | none =>
    have hgives (hw : widening? v.type target ≠ none) : c.Gives L v := by
      apply hv.gives
      intro heq
      simp [heq, widening?] at hw
    cases hw : widening? v.type target with
    | none => exact pure fun L' hL value heq => by cases heq
    | some w =>
      have hv := hgives (by simp [hw])
      cases w with
      | same =>
        refine pure fun L' hL _ heq _ => ?_
        obtain rfl := Option.some.inj heq
        exact (operand_of_alike hv.operand (alike_of_widening? hw) hv.allows.signed htarget).mono hL
      | extend op =>
        refine (convert hv.operand (widens_of_widening? hw)).bind fun value L' _ hvalue => ?_
        refine pure fun L'' hL _ heq _ => ?_
        obtain rfl := Option.some.inj heq
        exact operand_of_computes (hvalue.mono hL)

theorem coerce (hv : c.Yields L v) {target : MachineType} (htarget : c.Allows target)
    (source : SourceType) (use : String) :
    c.Obeys L (Lower.coerce v source target use) fun value L' => c.Operand L' value target := by
  refine (convert? hv htarget.signed).bind fun result L' _ hresult => ?_
  cases result with
  | some value => exact pure fun L'' hL => (hresult value rfl htarget.ne_void).mono hL
  | none => exact fail _

theorem toBool (hv : c.Yields L v) :
    c.Obeys L (Lower.toBool v) fun value L' => c.Operand L' value .bool := by
  have hoperand (hne : v.type ≠ .void) := (hv.gives hne).operand
  -- All that is not decided at once is compared with zero.
  have hcompare {op : Opcode} {zero : Value} (hop : op.isComparison = true)
      (hne : v.type ≠ .void) (hzero : c.Operand L zero v.type) :
      c.Obeys L (build (Build.binary op v.value zero v.type))
        fun value L' => c.Operand L' value .bool := by
    refine imp (binary op (hoperand hne) hzero) fun value L' _ hvalue => ?_
    rw [if_pos hop] at hvalue
    exact operand_of_computes hvalue
  obtain ⟨value, type, source⟩ := v
  unfold Lower.toBool
  dsimp only at hoperand hcompare ⊢
  split
  · exact pure fun L' hL => (hoperand (by simp)).mono hL
  · exact pure fun L' _ => operand_truth _
  · exact pure fun L' _ => operand_truth _
  · exact pure fun L' _ => operand_truth _
  · next s w _ =>
    refine hcompare rfl (by simp) ⟨.int 0 s w, fun _ n hn => ?_⟩
    cases hn
    cases s <;> cases w <;> rfl
  · exact hcompare rfl (by simp) (operand_of_hasType .null rfl)
  · next w _ => exact hcompare rfl (by simp) (operand_of_hasType (.float _ w) rfl)
  · exact fail _

theorem adaptLeft? {l r : TypedValue} (hl : c.Yields L l) (hr : c.Yields L r) :
    c.Obeys L (Lower.adaptLeft? l r) fun result L' => ∀ o, result = some o →
      c.Unifies L' o := by
  refine (convert? hl hr.signed).bind fun result L' hL hresult => pure fun L'' hL' o ho => ?_
  obtain ⟨value, hvalue, rfl⟩ := Option.map_eq_some_iff.mp ho
  exact ⟨hr.signed, fun hne => ⟨(hresult value hvalue hne).mono hL',
    (hr.gives hne).operand.mono (hL.trans hL')⟩⟩

theorem adaptRight? {l r : TypedValue} (hl : c.Yields L l) (hr : c.Yields L r) :
    c.Obeys L (Lower.adaptRight? l r) fun result L' => ∀ o, result = some o →
      c.Unifies L' o := by
  refine (convert? hr hl.signed).bind fun result L' hL hresult => pure fun L'' hL' o ho => ?_
  obtain ⟨value, hvalue, rfl⟩ := Option.map_eq_some_iff.mp ho
  exact ⟨hl.signed, fun hne => ⟨(hl.gives hne).operand.mono (hL.trans hL'),
    (hresult value hvalue hne).mono hL'⟩⟩

theorem unify? {l r : TypedValue} (hl : c.Yields L l) (hr : c.Yields L r) :
    c.Obeys L (Lower.unify? l r) fun result L' => ∀ o, result = some o → c.Unifies L' o := by
  have hkeep {L' : Ledger} (o : Operands)
      (h : ∀ o', some o = some o' → c.Unifies L' o') : c.Obeys L' (Pure.pure (some o))
        fun result L'' => ∀ o', result = some o' → c.Unifies L'' o' :=
    pure fun L'' hL o' ho' => (h o' ho').mono hL
  rw [Lower.unify?]
  split
  · next heq =>
    apply hkeep
    rintro o ⟨rfl⟩
    exact ⟨hl.signed, fun hne => ⟨(hl.gives hne).operand, heq ▸ (hr.gives (heq ▸ hne)).operand⟩⟩
  · split
    · refine (adaptLeft? hl hr).bind fun result L' hL hresult => ?_
      cases result with
      | some o => exact hkeep o hresult
      | none => exact adaptRight? (hl.mono hL) (hr.mono hL)
    · refine (adaptRight? hl hr).bind fun result L' hL hresult => ?_
      cases result with
      | some o => exact hkeep o hresult
      | none => exact adaptLeft? (hl.mono hL) (hr.mono hL)

/-! ## Literals -/

theorem gives_numeral {numeral : String} (h : lowerNumeral numeral = .ok v) :
    c.Gives L v ∧ (readInt64? numeral.toList ≠ some (-2147483648) → v.IsOpposable) := by
  rcases lowerNumeral_cases h with ⟨x, rfl⟩ | ⟨n, w, hn, rfl, hfits, hopposite⟩
  · exact ⟨gives_plain (operand_of_hasType (.float _ _) rfl) (fun _ => rfl) (.inr rfl),
      fun _ n hn => by cases hn⟩
  · refine ⟨gives_plain ⟨.int n _ _, ?_⟩ (fun _ => rfl) (.inl rfl), ?_⟩
    · rintro - m ⟨rfl⟩
      exact hfits
    · rintro hne m ⟨rfl⟩
      exact hopposite fun heq => hne (by rw [hn, heq])

/-- A string literal may add a constant to the global variables. -/
theorem stringLiteral (text : String) :
    c.Obeys L (SsaLowering.lowerLiteral (.string text)) fun v L' => c.Offers L' v := by
  intro s hs hL
  have hsub : s.ledger ⊆ (exec (SsaLowering.lowerLiteral (.string text)) s).2.ledger := by
    rintro e (he | ⟨g, hg, rfl⟩)
    · exact .inl he
    · exact .inr ⟨g, StringPool.subset_intern hg, rfl⟩
  refine ⟨⟨?_, ?_, ?_, ?_⟩, hsub, ?_⟩
  · rintro i (hi | ⟨g, hg, hi⟩)
    · exact (hs.code i (.inl hi)).mono hsub
    · cases hi
  · exact fun entry he => (hs.locals entry he).mono hsub
  · exact fun entry he => (hs.globals entry he).mono hsub
  · intro hexact g hg v hv
    rcases StringPool.mem_or_of_mem_intern hg with hg | hg
    · exact hs.initializers hexact g hg v hv
    · obtain rfl := Option.some.inj (hv.symm.trans hg)
      intro n hn
      cases hn
  · rintro v ⟨rfl⟩
    exact (gives_pointer (.global _) rfl).offers rfl

/-- The value of a literal, and what is known of its opposite. -/
theorem lowerLiteral (location : Option Location) (literal : Literal) :
    c.Obeys L (SsaLowering.lowerLiteral literal) fun v L' => c.Yields L' v ∧
      ((Term.literal location literal).isOpposable = true → v.IsOpposable) := by
  cases literal with
  | number numeral =>
    rw [SsaLowering.lowerLiteral]
    cases h : lowerNumeral numeral with
    | ok v =>
      refine pure fun L' _ => ?_
      obtain ⟨hgives, hopposable⟩ := gives_numeral (c := c) (L := L') h
      exact ⟨.inr hgives, fun hterm => hopposable (by simpa [Term.isOpposable] using hterm)⟩
    | error e => exact throw e
  | string text =>
    apply (stringLiteral text).imp
    rintro v L' - hv
    exact ⟨hv.yields, fun _ => hv.opposable⟩
  | bool b =>
    refine pure fun L' _ => ?_
    have hv : c.Offers L' (.truth (.bool b)) := offers_truth (operand_truth b)
    exact ⟨hv.yields, fun _ => hv.opposable⟩
  | null =>
    refine pure fun L' _ => ?_
    have hv : c.Offers L' .null := (gives_pointer .null rfl).offers rfl
    exact ⟨hv.yields, fun _ => hv.opposable⟩

/-! ## Members -/

theorem visibleField (layout : StructLayout) (name : String) :
    c.Obeys L (Lower.visibleField c.env layout name) fun field _ => c.Opens layout field := by
  unfold Lower.visibleField
  refine orFail_bind fun field hfield => guarded' fun hvisible => pure fun L' _ => ?_
  refine ⟨List.mem_of_find?_eq_some hfield, ?_⟩
  simp only [Bool.and_eq_true, Bool.not_eq_true', bne_iff_ne, not_and, not_not] at hvisible
  cases hpublic : field.isPublic with
  | true => exact .inl rfl
  | false => exact .inr (hvisible hpublic)

theorem layout_mem {place : StructPlace} (h : c.Locates L place) :
    place.layout ∈ c.env.structs.layouts := by
  cases h with
  | memory hlayout => exact hlayout
  | aggregate hlayout => exact hlayout

/-- The value of a field. A pointer in a field leads anywhere. -/
theorem loadField {place : StructPlace} {field : FieldLayout} (hplace : c.Locates L place)
    (hfield : c.Opens place.layout field) :
    c.Obeys L (Lower.loadField place field) fun v L' =>
      v = ⟨v.value, field.type, some field.source⟩ ∧ L'.Computes v.value field.type ∧
      (field.type = .ptr → ∀ type, L'.PointsTo v.value type) := by
  cases place with
  | memory ptr layout writable =>
    refine (fieldAddress hplace hfield).bind fun address L₁ _ haddress => ?_
    refine (load haddress.1 field.type).bind fun value L₂ _ hvalue => pure fun L₃ hL => ?_
    obtain ⟨n, rfl, hmem⟩ := hvalue
    refine ⟨rfl, Ledger.computes_result (hL hmem) rfl rfl, fun hptr type => ?_⟩
    rw [hptr] at hmem
    exact .loaded (hL hmem)
  | aggregate value layout =>
    refine (extract hplace hfield).bind fun value L₁ _ hvalue => pure fun L₂ hL => ?_
    obtain ⟨n, rfl, hmem⟩ := hvalue
    refine ⟨rfl, Ledger.computes_result (hL hmem) rfl rfl, fun hptr type => ?_⟩
    rw [hptr] at hmem
    exact .extracted (hL hmem)

/-- The struct that a variable in memory holds or points to. -/
theorem inMemory {b : Binding} {layout : StructLayout} (hb : c.Binds L b)
    (hlayout : c.env.structs.find? b.source.name = some layout) {address : Value}
    (ha : b.storage.address? = some address) :
    c.Obeys L
      (if b.source.isPointer = true then do
        let __do_lift ← build (Build.load address .ptr)
        Pure.pure (StructPlace.memory __do_lift layout true)
      else Pure.pure (StructPlace.memory address layout b.isMutable))
      fun place L' => c.Locates L' place := by
  have hmem := (StructTable.mem_of_find? hlayout).1
  obtain ⟨hptr, hpoints⟩ := hb.houses.address ha
  split
  · refine (load hptr .ptr).bind fun value L₁ _ hvalue => pure fun L₂ hL => ?_
    obtain ⟨n, rfl, hload⟩ := hvalue
    exact .memory hmem (Ledger.computes_result (hL hload) rfl rfl).hasType
      fun _ => .loaded (hL hload)
  · next hp =>
    refine pure fun L' hL => .memory hmem (hptr.mono hL) fun hs => ?_
    rw [← hs.resolve_eq (by simpa using hp) hlayout, ← hb.matched.settled hs]
    exact hpoints.mono hL

theorem variablePlace (name : String) :
    c.Obeys L (Lower.variablePlace c.env name) fun place L' => c.Locates L' place := by
  unfold Lower.variablePlace
  refine (readBinding? name).bind fun result L₁ _ hresult => ?_
  refine orFail_bind fun b hb => orFail_bind fun layout hlayout => ?_
  have hb := hresult b hb
  have hmem := (StructTable.mem_of_find? hlayout).1
  dsimp only
  split
  · next value hs =>
    have hhouses := hb.houses
    rw [hs] at hhouses
    cases hhouses with
    | @direct n _ hparam =>
      have htype (L' : Ledger) (hL : L₁ ⊆ L') : L'.HasType (.temp n) b.type :=
        .temp (.inl (hL hparam)) (.refl _)
      split
      · next hp =>
        have hptr := hb.matched.pointer hp
        refine pure fun L' hL => .memory hmem (hptr ▸ htype L' hL) fun _ => .param ?_
        exact hptr ▸ hL hparam
      · next hp =>
        refine pure fun L' hL => .aggregate hmem (htype L' hL) fun hsettled => ?_
        rw [← hsettled.resolve_eq (by simpa using hp) hlayout, ← hb.matched.settled hsettled]
        exact htype L' hL
  · next slot hs => exact inMemory hb hlayout (by rw [hs]; rfl)
  · next symbol hs => exact inMemory hb hlayout (by rw [hs]; rfl)

theorem fieldPlace {outer : StructPlace} (houter : c.Locates L outer) (name : String) :
    c.Obeys L (Lower.fieldPlace c.env outer name) fun place L' => c.Locates L' place := by
  unfold Lower.fieldPlace
  refine (visibleField outer.layout name).bind fun field L₁ hL₁ hfield => ?_
  refine orFail_bind fun inner hinner => ?_
  have houter := houter.mono hL₁
  have hlayout := layout_mem houter
  have hmem := (StructTable.mem_of_find? hinner).1
  split
  · next hp =>
    have hptr := (matches_field hlayout hfield.1).pointer hp
    refine (loadField houter hfield).bind fun v L₂ _ hv => pure fun L₃ hL => ?_
    obtain ⟨-, hcomputes, hpoints⟩ := hv
    rw [hptr] at hcomputes
    exact .memory hmem (hcomputes.hasType.mono hL) fun _ => (hpoints hptr inner.type).mono hL
  · next hp =>
    -- In a settled table, the field holds the struct that is found under its name.
    have htype (hs : c.env.structs.Settled) : field.type = inner.type := by
      rw [(matches_field hlayout hfield.1).settled hs]
      exact hs.resolve_eq (by simpa using hp) hinner
    cases outer with
    | memory ptr layout writable =>
      refine (fieldAddress houter hfield).bind fun address L₂ _ ha => pure fun L₃ hL => ?_
      exact .memory hmem (ha.1.mono hL) fun hs => htype hs ▸ ha.2.mono hL
    | aggregate value layout =>
      refine (extract houter hfield).bind fun address L₂ _ ha => pure fun L₃ hL => ?_
      obtain ⟨n, rfl, hextract⟩ := ha
      have hhas : L₃.HasType (.temp n) field.type :=
        (Ledger.computes_result (hL hextract) rfl rfl).hasType
      exact .aggregate hmem hhas fun hs => htype hs ▸ hhas

theorem structPlace (object : Term) :
    c.Obeys L (Lower.structPlace c.env object) fun place L' => c.Locates L' place.1 := by
  generalize henv : c.env = env
  fun_induction Lower.structPlace env object generalizing L with
  | case1 location name =>
    subst henv
    exact (variablePlace name).bind fun place L₁ _ hplace => pure fun L₂ hL => hplace.mono hL
  | case2 location object field ih =>
    subst henv
    refine ih.bind fun place L₁ _ hplace => ?_
    refine (fieldPlace hplace field).bind fun inner L₂ _ hinner => pure fun L₃ hL => ?_
    exact hinner.mono hL
  | case3 => exact fail _

theorem lowerMember (object : Term) (name : String) :
    c.Obeys L (Lower.lowerMember c.env object name) fun v L' => c.Offers L' v := by
  refine (structPlace object).bind fun place L₁ _ hplace => ?_
  refine (visibleField place.1.layout name).bind fun field L₂ hL hfield => ?_
  have hlayout := layout_mem hplace
  refine imp (loadField (hplace.mono hL) hfield) fun v L₃ _ hv => ?_
  obtain ⟨heq, hcomputes, -⟩ := hv
  rw [heq]
  exact offers_temp hcomputes (allows_field hlayout hfield.1) (matches_field hlayout hfield.1)

/-- The address of a member that is written leads to storage for its field. -/
theorem memberAddress (object : Term) (name : String) :
    c.Obeys L (Lower.memberAddress c.env object name) fun result L' =>
      L'.HasType result.1 .ptr ∧ c.Allows result.2.type ∧
        c.Matches result.2.type result.2.source := by
  refine (structPlace object).bind fun place L₁ _ hplace => ?_
  refine (visibleField place.1.layout name).bind fun field L₂ hL hfield => ?_
  have hlayout := layout_mem hplace
  split
  · next ptr layout heq =>
    have hplace := hplace.mono hL
    rw [heq] at hplace hfield hlayout
    refine (fieldAddress hplace hfield).bind fun address L₃ _ ha => pure fun L₄ hL => ?_
    exact ⟨ha.1.mono hL, allows_field hlayout hfield.1, matches_field hlayout hfield.1⟩
  · exact fail _

/-! ## Operators -/

theorem lowerVariable (name : String) :
    c.Obeys L (Lower.lowerVariable c.env name) fun v L' => c.Offers L' v := by
  unfold Lower.lowerVariable
  refine (readBinding? name).bind fun result L₁ _ hresult => orFail_bind fun b hb => ?_
  have hb := hresult b hb
  have hload {address : Value} (ha : b.storage.address? = some address) :
      c.Obeys L₁ (build (Build.load address b.type) >>= fun value =>
          Pure.pure ⟨value, b.type, some b.source⟩) fun v L' => c.Offers L' v := by
    refine (load (hb.houses.address ha).1 b.type).bind fun value L₂ _ hvalue => pure fun L₃ hL => ?_
    obtain ⟨n, rfl, hmem⟩ := hvalue
    exact offers_temp (Ledger.computes_result (hL hmem) rfl rfl) hb.allows hb.matched
  cases hs : b.storage with
  | direct value =>
    have hhouses := hb.houses
    rw [hs] at hhouses
    cases hhouses with
    | direct hparam =>
      refine pure fun L' hL => offers_temp ⟨⟨_, rfl⟩, ?_⟩ hb.allows hb.matched
      exact .temp (.inl (hL hparam)) (.refl _)
  | stack slot => exact hload (by rw [hs]; rfl)
  | global symbol => exact hload (by rw [hs]; rfl)

theorem truthOf {operand : Lower TypedValue}
    (h : c.Obeys L operand fun v L' => c.Yields L' v) :
    c.Obeys L (Lower.truthOf operand) fun value L' => c.Operand L' value .bool :=
  h.bind fun _ _ _ hv => toBool hv

theorem lowerArithmetic (op : BinaryOp) {left right : Lower TypedValue}
    (hl : ∀ L, c.Obeys L left fun v L' => c.Yields L' v)
    (hr : ∀ L, c.Obeys L right fun v L' => c.Yields L' v) :
    c.Obeys L (Lower.lowerArithmetic op left right) fun v L' => c.Offers L' v := by
  refine (hl L).bind fun l L₁ _ hl => (hr L₁).bind fun r L₂ hL₂ hr => ?_
  refine (unify? (hl.mono hL₂) hr).bind fun result L₃ _ hresult => ?_
  refine orFail_bind fun o ho => orFail_bind fun code hcode => ?_
  obtain ⟨hsigned, hoperands⟩ := hresult o ho
  obtain ⟨hne, htype⟩ := selectOpcode?_type hcode
  obtain ⟨hleft, hright⟩ := hoperands hne
  refine (binary code hleft hright).bind fun value L₄ _ hvalue => ?_
  cases hcomparison : code.isComparison with
  | true =>
    rw [hcomparison, if_pos rfl] at hvalue
    exact pure fun L₅ hL => offers_truth (operand_of_computes (hvalue.mono hL))
  | false =>
    rw [hcomparison, if_neg (by simp)] at hvalue
    exact pure fun L₅ hL => offers_plain (hvalue.mono hL) hsigned (htype hcomparison)

theorem lowerEager (isAnd : Bool) {left right : Lower TypedValue}
    (hl : ∀ L, c.Obeys L left fun v L' => c.Yields L' v)
    (hr : ∀ L, c.Obeys L right fun v L' => c.Yields L' v) :
    c.Obeys L (Lower.lowerEager isAnd left right) fun v L' => c.Offers L' v := by
  refine (truthOf (hl L)).bind fun lhs L₁ _ hlhs => ?_
  refine (truthOf (hr L₁)).bind fun rhs L₂ hL₂ hrhs => ?_
  split
  · exact pure fun L₃ _ => offers_truth (operand_truth _)
  · refine (binary _ (hlhs.mono hL₂) hrhs).bind fun value L₃ _ hvalue => pure fun L₄ hL => ?_
    rw [ite_self] at hvalue
    exact offers_truth (operand_of_computes (hvalue.mono hL))

theorem lowerNot {operand : Lower TypedValue}
    (h : c.Obeys L operand fun v L' => c.Yields L' v) :
    c.Obeys L (Lower.lowerNot operand) fun v L' => c.Offers L' v := by
  refine (truthOf h).bind fun truth L₁ _ htruth => ?_
  split
  · exact pure fun L₂ _ => offers_truth (operand_truth _)
  · refine (binary .xor htruth (operand_truth true)).bind fun value L₂ _ hvalue =>
      pure fun L₃ hL => ?_
    exact offers_truth (operand_of_computes (hvalue.mono hL))

/-- The opposite of a number. A constant is replaced by its opposite, which has to fit. -/
theorem lowerNegate {operand : Lower TypedValue}
    (h : c.Obeys L operand fun v L' => c.Yields L' v ∧ (c.exact → v.IsOpposable)) :
    c.Obeys L (Lower.lowerNegate operand)
      fun v L' => c.Yields L' v ∧ (c.exact → v.IsOpposable) := by
  refine h.bind fun v L₁ _ hv => ?_
  obtain ⟨hyields, hopposable⟩ := hv
  have hgives (hne : v.type ≠ .void) := hyields.gives hne
  obtain ⟨value, type, source⟩ := v
  dsimp only at hgives
  -- A value that is computed keeps the source type.
  have hcomputed {op : Opcode} {zero : Value} (hop : op.isComparison = false)
      (hne : type ≠ .void) (hzero : c.Operand L₁ zero type) :
      c.Obeys L₁ (build (Build.binary op zero value type) >>= fun result =>
          Pure.pure (⟨result, type, source⟩ : TypedValue))
        fun v L' => c.Yields L' v ∧ (c.exact → v.IsOpposable) := by
    obtain ⟨hoperand, hallows, hmatches⟩ := hgives hne
    refine (binary op hzero hoperand).bind fun result L₂ _ hresult => pure fun L₃ hL => ?_
    rw [hop, if_neg (by simp)] at hresult
    refine ⟨.inr ⟨operand_of_computes (hresult.mono hL), hallows, hmatches⟩, fun _ n hn => ?_⟩
    obtain ⟨m, rfl⟩ := hresult.temp
    cases hn
  dsimp only
  split
  · next n s w =>
    obtain ⟨-, hallows, hmatches⟩ := hgives (by simp)
    refine pure fun L₂ hL => ⟨.inr ⟨⟨.int (-n) s w, ?_⟩, hallows, hmatches⟩, ?_⟩
    · rintro hexact _ ⟨rfl⟩
      exact hopposable hexact n rfl
    · rintro hexact _ ⟨rfl⟩
      rw [Int64.neg_neg]
      exact (hgives (by simp)).operand.fits hexact n rfl
  · next x w =>
    obtain ⟨-, hallows, hmatches⟩ := hgives (by simp)
    refine pure fun L₂ hL => ⟨.inr ⟨operand_of_hasType (.float _ w) rfl, hallows, hmatches⟩, ?_⟩
    intro _ n hn
    cases hn
  · next s w _ =>
    refine hcomputed rfl (by simp) ⟨.int 0 s w, fun _ n hn => ?_⟩
    cases hn
    cases s <;> cases w <;> rfl
  · next w _ => exact hcomputed rfl (by simp) (operand_of_hasType (.float _ w) rfl)
  · exact fail _

theorem openFork (isAnd : Bool) {lhs : Value} (hlhs : c.Operand L lhs .bool) :
    c.Obeys L (Lower.openFork isAnd lhs) fun _ _ => True :=
  Invariant.Keeps.openFork isAnd (decides hlhs)

theorem lowerFork (isAnd : Bool) {lhs : Value} {right : Lower TypedValue}
    (hlhs : c.Operand L lhs .bool) (hr : ∀ L, c.Obeys L right fun v L' => c.Yields L' v) :
    c.Obeys L (Lower.lowerFork isAnd lhs right) fun v L' => c.Offers L' v := by
  unfold Lower.lowerFork
  refine get.bind fun s L₁ hL₁ _ => orFail_bind fun start _ => ?_
  refine (openFork isAnd (hlhs.mono hL₁)).bind fun mergeLabel L₂ _ _ => ?_
  dsimp only
  refine ((truthOf (hr L₂)).tryCatch fun e L₃ _ => ?_).bind fun rhs L₄ _ hrhs => ?_
  · refine (proceedTo mergeLabel mergeLabel _).bind fun _ L₅ _ _ => throw e
  · refine get.bind fun s L₅ hL₅ _ => orFail_bind fun stop _ => ?_
    refine (jumpTo mergeLabel mergeLabel _).bind fun _ L₆ hL₆ _ => ?_
    refine (phi fun source hsource => ?_).bind fun value L₇ _ hvalue => pure fun L₈ hL => ?_
    · simp only [List.mem_cons, List.not_mem_nil, or_false] at hsource
      rcases hsource with rfl | rfl
      · exact operand_truth _
      · exact (hrhs.mono hL₅).mono hL₆
    · exact offers_truth (operand_of_computes (hvalue.mono hL))

theorem lowerShortCircuit (isAnd : Bool) {left right : Lower TypedValue}
    (hl : ∀ L, c.Obeys L left fun v L' => c.Yields L' v)
    (hr : ∀ L, c.Obeys L right fun v L' => c.Yields L' v) :
    c.Obeys L (Lower.lowerShortCircuit isAnd left right) fun v L' => c.Offers L' v := by
  refine (truthOf (hl L)).bind fun lhs L₁ _ hlhs => ?_
  split
  · split
    · exact pure fun L₂ _ => offers_truth (operand_truth _)
    · exact (truthOf (hr L₁)).bind fun rhs L₂ _ hrhs => pure fun L₃ hL =>
        offers_truth (hrhs.mono hL)
  · exact lowerFork isAnd hlhs hr

theorem lowerBinary (op : BinaryOp) {left right : Lower TypedValue}
    (hl : ∀ L, c.Obeys L left fun v L' => c.Yields L' v)
    (hr : ∀ L, c.Obeys L right fun v L' => c.Yields L' v) :
    c.Obeys L (Lower.lowerBinary op left right) fun v L' => c.Offers L' v := by
  cases op
  case logicalAnd => exact lowerShortCircuit true hl hr
  case logicalOr => exact lowerShortCircuit false hl hr
  case eagerAnd => exact lowerEager true hl hr
  case eagerOr => exact lowerEager false hl hr
  all_goals exact lowerArithmetic _ hl hr

/-- The operand of an increment or a decrement is a one of the type. -/
theorem operand_of_stepOperation? {op : UnaryOp} {type : MachineType} {code : Opcode}
    {one : Value} (h : stepOperation? op type = some (code, one)) :
    code.isComparison = false ∧ c.Operand L one type := by
  unfold stepOperation? at h
  split at h
  · next s w =>
    have hone : c.Operand L (.int 1) (.int s w) := by
      refine ⟨.int 1 s w, fun _ n hn => ?_⟩
      cases hn
      cases s <;> cases w <;> rfl
    split at h <;> cases h <;> exact ⟨rfl, hone⟩
  · next w =>
    have hone : c.Operand L (.float .one) (.float w) := operand_of_hasType (.float _ w) rfl
    split at h <;> cases h <;> exact ⟨rfl, hone⟩
  · cases h

theorem lowerStep (op : UnaryOp) (operand : Term) :
    c.Obeys L (Lower.lowerStep c.env op operand) fun v L' => c.Offers L' v := by
  unfold Lower.lowerStep
  split
  · next location name =>
    refine (readBinding? name).bind fun result L₁ _ hresult => orFail_bind fun b hb => ?_
    have hb := hresult b hb
    refine guarded fun _ => orFail_bind fun address ha => orFail_bind fun step hstep => ?_
    have hptr := (hb.houses.address ha).1
    obtain ⟨hcode, hone⟩ := operand_of_stepOperation? (c := c) (L := L₁) hstep
    refine (load hptr b.type).bind fun old L₂ hL₂ hold => ?_
    obtain ⟨n, rfl, hmem⟩ := hold
    have hold : L₂.Computes (.temp n) b.type := Ledger.computes_result hmem rfl rfl
    refine (binary step.1 (operand_of_computes hold) (hone.mono hL₂)).bind
      fun new L₃ hL₃ hnew => ?_
    rw [hcode, if_neg (by simp)] at hnew
    refine (store (operand_of_computes hnew) ((hptr.mono hL₂).mono hL₃)).bind fun _ L₄ hL₄ _ => ?_
    refine pure fun L₅ hL₅ => offers_temp ?_ hb.allows hb.matched
    split
    · exact hnew.mono (hL₄.trans hL₅)
    · exact hold.mono (hL₃.trans (hL₄.trans hL₅))
  · exact fail _

/-! ## Calls -/

theorem promoteVariadic {v : TypedValue} (hv : c.Yields L v) (callee : String) :
    c.Obeys L (Lower.promoteVariadic v callee) fun arg L' => c.Operand L' arg.2 arg.1 := by
  unfold Lower.promoteVariadic
  split
  · next heq =>
    have hoperand := (hv.gives (by simp [heq])).operand
    rw [heq] at hoperand
    have hwidens : Conversion.fpext.Widens .f32 .f64 := ⟨rfl, rfl⟩
    refine (convert hoperand hwidens).bind fun value L₁ _ hvalue => pure fun L₂ hL => ?_
    exact operand_of_computes (hvalue.mono hL)
  · exact fail _
  · exact fail _
  · next hvoid _ => exact pure fun L' hL => (hv.gives hvoid).operand.mono hL

theorem passArguments (callee : String) (number : Nat) (sources : List SourceType)
    {types : List MachineType} {values : List TypedValue}
    (htypes : ∀ type ∈ types, c.Allows type) (hvalues : ∀ v ∈ values, c.Yields L v) :
    c.Obeys L (Lower.passArguments callee number sources types values) fun args L' =>
      ∀ arg ∈ args, c.Operand L' arg.2 arg.1 := by
  fun_induction Lower.passArguments callee number sources types values generalizing L with
  | case1 => exact pure fun L' _ arg harg => by cases harg
  | case2 number source sources type types v rest use =>
    rename_i ih
    have hrest (L' : Ledger) (hL : L ⊆ L') : ∀ v ∈ rest, c.Yields L' v :=
      fun w hw => (hvalues w (by simp [hw])).mono hL
    refine (coerce (hvalues v (by simp)) (htypes type (by simp)) source use).bind
      fun value L₁ hL₁ hvalue => ?_
    refine (ih (fun type htype => htypes type (by simp [htype])) (hrest L₁ hL₁)).bind
      fun passed L₂ hL₂ hpassed => pure fun L₃ hL₃ arg harg => ?_
    rcases List.mem_cons.mp harg with rfl | harg
    · exact hvalue.mono (hL₂.trans hL₃)
    · exact (hpassed arg harg).mono hL₃
  | case3 number sources types v rest _ ih =>
    have hrest (L' : Ledger) (hL : L ⊆ L') : ∀ v ∈ rest, c.Yields L' v :=
      fun w hw => (hvalues w (by simp [hw])).mono hL
    refine (promoteVariadic (hvalues v (by simp)) callee).bind fun arg L₁ hL₁ hpromoted => ?_
    refine (ih htypes (hrest L₁ hL₁)).bind
      fun passed L₂ hL₂ hpassed => pure fun L₃ hL₃ arg' harg => ?_
    rcases List.mem_cons.mp harg with rfl | harg
    · exact hpromoted.mono (hL₂.trans hL₃)
    · exact (hpassed arg' harg).mono hL₃

theorem allows_param {entry : String × Signature} (hentry : entry ∈ c.env.functions) :
    ∀ type ∈ entry.2.paramTypes, c.Allows type := by
  intro type htype
  obtain ⟨hresolves, hsigned⟩ := c.signatures entry hentry
  refine ⟨?_, fun hexact => hsigned hexact type (List.mem_cons_of_mem _ htype)⟩
  rw [hresolves.params] at htype
  obtain ⟨source, -, rfl⟩ := List.mem_map.mp htype
  exact (c.structs.exists_extent source).1

theorem matches_result {entry : String × Signature} (hentry : entry ∈ c.env.functions)
    (hne : entry.2.returnType ≠ .void) :
    c.Allows entry.2.returnType ∧ c.Matches entry.2.returnType entry.2.source := by
  obtain ⟨hresolves, hsigned⟩ := c.signatures entry hentry
  have hresult := hresolves.result
  rw [StructTable.resolveReturn] at hresult
  split at hresult
  · exact absurd hresult hne
  · refine ⟨⟨hne, fun hexact => hsigned hexact _ (by simp)⟩, ?_⟩
    rw [hresult]
    exact c.matches_resolve _

theorem lowerCall (callee : String) (count : Nat) {args : Lower (List TypedValue)}
    (h : ∀ L, c.Obeys L args fun values L' => ∀ v ∈ values, c.Yields L' v) :
    c.Obeys L (Lower.lowerCall c.env callee count args) fun v L' => c.Offers L' v := by
  unfold Lower.lowerCall
  refine orFail_bind fun signature hlookup => ?_
  have hentry : (callee, signature) ∈ c.env.functions := by
    obtain ⟨front, rest, heq, -⟩ := List.lookup_eq_some_iff.mp hlookup
    simp [heq]
  refine guarded fun _ => (h L).bind fun values L₁ _ hvalues => ?_
  refine (passArguments callee 1 _ (allows_param hentry) hvalues).bind fun passed L₂ _ hpassed => ?_
  refine (call hentry hpassed).bind fun result L₃ _ hresult => ?_
  cases result with
  | none => exact pure fun _ _ => offers_void
  | some value =>
    obtain ⟨hne, hcomputes⟩ := hresult value rfl
    obtain ⟨hallows, hmatches⟩ := matches_result hentry hne
    exact pure fun L₄ hL => offers_temp (hcomputes.mono hL) hallows hmatches

theorem lowerCast (location : Option Location) (target : SourceType) {operand : Lower TypedValue}
    (h : ∀ L, c.Obeys L operand fun v L' => c.Yields L' v) :
    c.Obeys L (Lower.lowerCast c.env location target operand) fun v L' => c.Offers L' v := by
  refine (checkKnown c.env target location).bind fun _ L₁ _ _ => (h L₁).bind fun v L₂ _ hv => ?_
  split
  · next hcast =>
    have hptr := (hv.gives (by simp [hcast.1])).operand.hasType
    rw [hcast.1] at hptr
    exact pure fun L₃ hL => (gives_pointer (hptr.mono hL) hcast.2).offers rfl
  · exact fail _

theorem lowerAlloc (location : Option Location) (target : SourceType) :
    c.Obeys L (Lower.lowerAlloc c.env location target) fun v L' => c.Offers L' v := by
  unfold Lower.lowerAlloc
  refine (checkKnown c.env target location).bind fun _ L₁ _ _ => ?_
  refine orFail_bind fun signature hlookup => ?_
  have hentry : (allocator, signature) ∈ c.env.functions := by
    obtain ⟨front, rest, heq, -⟩ := List.lookup_eq_some_iff.mp hlookup
    simp [heq]
  refine (call hentry fun arg harg => ?_).bind fun result L₂ _ hresult =>
    orFail_bind fun raw hraw => ?_
  · obtain rfl := List.mem_singleton.mp harg
    exact ⟨.int _ _ _, fun _ n _ => MachineType.fits_i64 n⟩
  · have hraw := (hresult raw hraw).2
    split
    · next hptr =>
      rw [hptr] at hraw
      exact pure fun L₃ hL => (gives_pointer (hraw.hasType.mono hL) rfl).offers rfl
    · have hwidens : Conversion.bitcast.Widens signature.returnType .ptr := trivial
      refine (convert (operand_of_computes hraw) hwidens).bind fun pointer L₃ _ hpointer =>
        pure fun L₄ hL => ?_
      exact (gives_pointer (hpointer.hasType.mono hL) rfl).offers rfl

/-! ## Assignments -/

theorem assignVariable {v : TypedValue} (hv : c.Yields L v) (name : String) :
    c.Obeys L (Lower.assignVariable c.env name v) fun v L' => c.Yields L' v := by
  unfold Lower.assignVariable
  refine (peekBinding? name).bind fun result L₁ hL₁ hresult => orFail_bind fun b hb => ?_
  have hb := hresult b hb
  refine guarded fun _ => orFail_bind fun address ha => ?_
  have hptr := (hb.houses.address ha).1
  refine (coerce (hv.mono hL₁) hb.allows b.source _).bind fun stored L₂ hL₂ hstored => ?_
  refine (store hstored (hptr.mono hL₂)).bind fun _ L₃ hL₃ _ => pure fun L₄ hL₄ => ?_
  exact .inr ⟨hstored.mono (hL₃.trans hL₄), hb.allows, hb.matched⟩

theorem assignMember {v : TypedValue} (hv : c.Yields L v) (object : Term) (name : String) :
    c.Obeys L (Lower.assignMember c.env object name v) fun v L' => c.Yields L' v := by
  unfold Lower.assignMember
  refine (memberAddress object name).bind fun result L₁ hL₁ hresult => ?_
  obtain ⟨hptr, hallows, hmatches⟩ := hresult
  refine (coerce (hv.mono hL₁) hallows _ _).bind fun stored L₂ hL₂ hstored => ?_
  refine (store hstored (hptr.mono hL₂)).bind fun _ L₃ hL₃ _ => pure fun L₄ hL₄ => ?_
  exact .inr ⟨hstored.mono (hL₃.trans hL₄), hallows, hmatches⟩

theorem lowerAssign (target : Term) {value : Lower TypedValue}
    (h : c.Obeys L value fun v L' => c.Yields L' v) :
    c.Obeys L (Lower.lowerAssign c.env target value) fun v L' => c.Yields L' v := by
  refine h.bind fun v L₁ _ hv => ?_
  split
  · exact assignVariable hv _
  · exact assignMember hv _ _
  · exact fail _

/-! ## The recursion -/

/-- What is known of the value of an expression: it is what its types say, and its opposite fits
where that can be seen from the expression. -/
def Values (c : Setting) (term : Term) (v : TypedValue) (L : Ledger) : Prop :=
  c.Yields L v ∧ (term.isOpposable = true → c.exact → v.IsOpposable)

theorem values_of_offers {term : Term} {x : Lower TypedValue}
    (h : c.Obeys L x fun v L' => c.Offers L' v) : c.Obeys L x (Values c term) :=
  h.imp fun _ _ _ hv => ⟨hv.yields, fun _ _ => hv.opposable⟩

theorem yields_of_values {term : Term} {x : Lower TypedValue}
    (h : c.Obeys L x (Values c term)) : c.Obeys L x fun v L' => c.Yields L' v :=
  h.imp fun _ _ _ hv => hv.1

mutual

/-- The lowering of an expression obeys the setting, by recursion on the expression. In an exact
setting, the expression has to be tame. -/
theorem lowerTerm : (term : Term) → (c.exact → term.isTame = true) → (L : Ledger) →
    c.Obeys L (Lower.lowerTerm c.env term) (Values c term)
  | .literal location literal, _, L => by
    apply located
    apply (lowerLiteral location literal).imp
    rintro v L' - ⟨hyields, hopposable⟩
    exact ⟨hyields, fun hterm _ => hopposable hterm⟩
  | .variable _ name, _, L => located (values_of_offers (lowerVariable name))
  | .call _ callee args, htame, L =>
    located (values_of_offers (lowerCall callee args.length (lowerTerms args htame)))
  | .binary _ op left right, htame, L => by
    have hboth := fun hexact => Bool.and_eq_true_iff.mp (htame hexact)
    exact located (values_of_offers (lowerBinary op
      (fun L => yields_of_values (lowerTerm left (fun hexact => (hboth hexact).1) L))
      fun L => yields_of_values (lowerTerm right (fun hexact => (hboth hexact).2) L)))
  | .unary _ .logicalNot operand, htame, L =>
    located (values_of_offers (lowerNot (yields_of_values (lowerTerm operand htame L))))
  | .unary _ .minus operand, htame, L => by
    have hboth := fun hexact => Bool.and_eq_true_iff.mp (htame hexact)
    have hoperand := lowerTerm operand (fun hexact => (hboth hexact).2) L
    apply located
    refine (lowerNegate (hoperand.imp fun v L' _ hv => ⟨hv.1, fun hexact => ?_⟩)).imp
      fun v L' _ hv => ⟨hv.1, fun _ => hv.2⟩
    exact hv.2 (hboth hexact).1 hexact
  | .unary _ .preIncrement operand, _, L | .unary _ .postIncrement operand, _, L
  | .unary _ .preDecrement operand, _, L | .unary _ .postDecrement operand, _, L =>
    located (values_of_offers (lowerStep _ operand))
  | .cast location target operand, htame, L =>
    located (values_of_offers (lowerCast location target fun L =>
      yields_of_values (lowerTerm operand htame L)))
  | .alloc location target, _, L => located (values_of_offers (lowerAlloc location target))
  | .assign _ target value, htame, L => by
    apply located
    refine (lowerAssign target (yields_of_values (lowerTerm value htame L))).imp
      fun v L' _ hv => ⟨hv, fun hterm => ?_⟩
    cases hterm
  | .member _ object field, _, L => located (values_of_offers (lowerMember object field))

theorem lowerTerms : (terms : List Term) → (c.exact → Term.areTame terms = true) →
    (L : Ledger) → c.Obeys L (Lower.lowerTerms c.env terms)
      fun values L' => ∀ v ∈ values, c.Yields L' v
  | [], _, L => pure fun _ _ v hv => by cases hv
  | term :: rest, htame, L => by
    have hboth := fun hexact => Bool.and_eq_true_iff.mp (htame hexact)
    refine (lowerTerm term (fun hexact => (hboth hexact).1) L).bind fun v L₁ _ hv => ?_
    refine (lowerTerms rest (fun hexact => (hboth hexact).2) L₁).bind fun vs L₂ hL₂ hvs =>
      pure fun L₃ hL₃ w hw => ?_
    rcases List.mem_cons.mp hw with rfl | hw
    · exact hv.1.mono (hL₂.trans hL₃)
    · exact (hvs w hw).mono hL₃

end

end Obeys

end Setting

end SsaLowering
