import SsaLowering.Proofs.Emission

/-!
# Every expression is lowered to a piece of code

One statement for each action of the lowering of expressions: where it is carried out in an
open block, it writes a piece of code, whether or not it succeeds.
-/

namespace SsaLowering

/-- The names outside of functions live in memory that has a name. -/
def Environment.Rooted (env : Environment) : Prop :=
  ∀ entry ∈ env.globals, entry.2.storage.temps = ∅

/-- The temporaries that a binding names. -/
def Binding.temps (b : Binding) : Set Nat := b.storage.temps

/-- The temporaries that the place of a struct names. -/
def StructPlace.temps : StructPlace → Set Nat
  | .memory ptr _ _ => ptr.temps
  | .aggregate value _ => value.temps

/-- The temporaries that two operands name. -/
def Lower.Operands.temps (o : Lower.Operands) : Set Nat := o.left.temps ∪ o.right.temps

@[simp] theorem Lower.Operands.temps_eq (o : Lower.Operands) :
    o.temps = o.left.temps ∪ o.right.temps := rfl

theorem mem_of_lookup {α : Type} {name : String} {a : α} {entries : List (String × α)}
    (h : entries.lookup name = some a) : (name, a) ∈ entries := by
  obtain ⟨front, rest, rfl, -⟩ := List.lookup_eq_some_iff.mp h
  simp

namespace Scope

theorem mem_of_find? {scope : Scope} {name : String} {b : Binding}
    (h : scope.find? name = some b) : (name, b) ∈ scope.entries := mem_of_lookup h

/-- Marking a name as used moves nothing. -/
theorem exists_of_mem_markUsed {scope : Scope} {name : String} {entry : String × Binding}
    (h : entry ∈ (scope.markUsed name).entries) :
    ∃ old ∈ scope.entries, old.1 = entry.1 ∧ old.2.storage = entry.2.storage := by
  obtain ⟨old, hold, rfl⟩ := List.mem_map.mp h
  refine ⟨old, hold, ?_⟩
  dsimp only
  split <;> exact ⟨rfl, rfl⟩

end Scope

namespace Emits

open Lower BodyState

variable {α : Type} {env : Environment} {known : Set Nat} {temps : α → Set Nat}

/-- An action that is carried out only if a condition holds. -/
theorem guarded {c : Prop} [Decidable c] {e : LoweringError} {next : Unit → Lower α}
    (h : Emits known (next ()) temps) :
    Emits known (if c then next () else MonadExcept.throw e >>= next) temps := by
  have hfail : Emits known (MonadExcept.throw e : Lower Unit) noTemps := throw e
  split
  · exact h
  · exact hfail.bind fun _ => h.mono Set.subset_union_left

theorem guarded' {c : Prop} [Decidable c] {e : LoweringError} {next : Unit → Lower α}
    (h : Emits known (next ()) temps) :
    Emits known (if c then MonadExcept.throw e >>= next else next ()) temps := by
  have hfail : Emits known (MonadExcept.throw e : Lower Unit) noTemps := throw e
  split
  · exact hfail.bind fun _ => h.mono Set.subset_union_left
  · exact h

theorem readBinding? (henv : env.Rooted) (name : String) :
    Emits known (Lower.readBinding? env name) (optional Binding.temps) := by
  apply of_quiet
  intro s hs
  have hscope : ∀ entry ∈ (s.scope.markUsed name).entries,
      entry.2.storage.temps ⊆ s.builder.base := by
    intro entry he
    obtain ⟨old, hold, -, hstorage⟩ := Scope.exists_of_mem_markUsed he
    rw [← hstorage]
    exact hs.scope old hold
  have hsteady : ({ s with scope := s.scope.markUsed name } : BodyState).Steady :=
    ⟨hs.front, hscope⟩
  simp only [Lower.readBinding?, exec_bind, exec_get, exec_set, Scope.read]
  cases hfind : (s.scope.markUsed name).find? name with
  | some b =>
    refine ⟨rfl, hsteady, Nat.le_refl _, ?_⟩
    rintro b' ⟨rfl⟩
    rw [optional_some]
    exact (hscope _ (Scope.mem_of_find? hfind)).trans Set.subset_union_right
  | none =>
    refine ⟨rfl, hsteady, Nat.le_refl _, ?_⟩
    rintro b' ⟨rfl⟩
    rintro t ⟨b, hb, ht⟩
    simp [Binding.temps, henv _ (mem_of_lookup hb)] at ht

theorem peekBinding? (henv : env.Rooted) (name : String) :
    Emits known (Lower.peekBinding? env name) (optional Binding.temps) := by
  apply of_quiet
  intro s hs
  simp only [Lower.peekBinding?, exec_bind, exec_get]
  cases hfind : s.scope.find? name with
  | some b =>
    refine ⟨rfl, hs, Nat.le_refl _, ?_⟩
    rintro b' ⟨rfl⟩
    rw [optional_some]
    exact (hs.scope _ (Scope.mem_of_find? hfind)).trans Set.subset_union_right
  | none =>
    refine ⟨rfl, hs, Nat.le_refl _, ?_⟩
    rintro b' ⟨rfl⟩
    rintro t ⟨b, hb, ht⟩
    simp [Binding.temps, henv _ (mem_of_lookup hb)] at ht

theorem warn (w : Warning) (location : Option Location) :
    Emits known (Lower.warn w location) noTemps := by
  apply of_quiet
  intro s hs
  rw [exec_warn]
  exact ⟨rfl, ⟨hs.front, hs.scope⟩, by simp, by simp⟩

theorem checkKnown (type : SourceType) (location : Option Location) :
    Emits known (Lower.checkKnown env type location) noTemps := by
  rw [Lower.checkKnown]
  split
  · exact pure (by simp)
  · exact warn _ _

/-- A binding in memory is reached through what can be read. -/
theorem address?_subset {b : Binding} (h : b.temps ⊆ known) :
    optional Value.temps b.storage.address? ⊆ known := by
  cases hb : b.storage <;> simp_all [Storage.address?, Binding.temps, Storage.temps]

/-! ## Conversions -/

theorem convertConstant?_subset {v : TypedValue} {target : MachineType} {value : Value}
    (h : convertConstant? v target = some value) : value.temps ⊆ v.temps := by
  rw [convertConstant?] at h
  split at h
  · obtain rfl := Option.some.inj h
    exact subset_rfl
  · split at h
    · split at h
      · obtain rfl := Option.some.inj h
        simp
      · split at h
        · obtain rfl := Option.some.inj h
          simp
        · cases h
    · split at h
      · obtain rfl := Option.some.inj h
        simp
      · cases h
    · cases h

theorem convert? {v : TypedValue} (target : MachineType) (h : v.temps ⊆ known) :
    Emits known (Lower.convert? v target) (optional Value.temps) := by
  rw [Lower.convert?]
  cases hc : convertConstant? v target with
  | some value => exact pure (by simpa using (convertConstant?_subset hc).trans h)
  | none =>
    cases widening? v.type target with
    | none => exact pure (by simp)
    | some w =>
      cases w with
      | same => exact pure (by simpa using h)
      | extend op => exact (convert op h).bind fun value => pure (by simp)

theorem coerce {v : TypedValue} (source : SourceType) (target : MachineType) (use : String)
    (h : v.temps ⊆ known) : Emits known (Lower.coerce v source target use) Value.temps := by
  rw [Lower.coerce]
  refine (convert? target h).bind fun value => ?_
  cases value with
  | some value => exact pure (by simp)
  | none => exact fail _

theorem toBool {v : TypedValue} (h : v.temps ⊆ known) :
    Emits known (Lower.toBool v) Value.temps := by
  unfold Lower.toBool
  split
  · exact pure h
  · exact pure (by simp)
  · exact pure (by simp)
  · exact pure (by simp)
  · exact binary _ (by simpa using h)
  · exact binary _ (by simpa using h)
  · exact binary _ (by simpa using h)
  · exact fail _

theorem adaptLeft? {l r : TypedValue} (h : l.temps ∪ r.temps ⊆ known) :
    Emits known (Lower.adaptLeft? l r) (optional Operands.temps) := by
  obtain ⟨hl, hr⟩ := Set.union_subset_iff.mp h
  refine (convert? _ hl).bind fun value => ?_
  cases value with
  | none => exact pure (by simp)
  | some value =>
    refine pure ?_
    simpa using hr.trans Set.subset_union_left

theorem adaptRight? {l r : TypedValue} (h : l.temps ∪ r.temps ⊆ known) :
    Emits known (Lower.adaptRight? l r) (optional Operands.temps) := by
  obtain ⟨hl, hr⟩ := Set.union_subset_iff.mp h
  refine (convert? _ hr).bind fun value => ?_
  cases value with
  | none => exact pure (by simp)
  | some value =>
    refine pure ?_
    simpa using hl.trans Set.subset_union_left

theorem unify? {l r : TypedValue} (h : l.temps ∪ r.temps ⊆ known) :
    Emits known (Lower.unify? l r) (optional Operands.temps) := by
  rw [Lower.unify?]
  split
  · exact pure (by simpa using h)
  · split
    · refine (adaptLeft? h).bind fun operands => ?_
      cases operands with
      | some operands => exact pure (by simp)
      | none => exact (adaptRight? h).mono Set.subset_union_left
    · refine (adaptRight? h).bind fun operands => ?_
      cases operands with
      | some operands => exact pure (by simp)
      | none => exact (adaptLeft? h).mono Set.subset_union_left

/-! ## Literals and members -/

theorem lowerNumeral_temps {numeral : String} {v : TypedValue}
    (h : lowerNumeral numeral = .ok v) : v.value.temps = ∅ := by
  rw [lowerNumeral] at h
  split at h <;> split at h <;> cases h <;> simp

theorem lowerLiteral (literal : Literal) :
    Emits known (SsaLowering.lowerLiteral literal) TypedValue.temps := by
  cases literal with
  | number numeral =>
    rw [SsaLowering.lowerLiteral]
    cases h : lowerNumeral numeral with
    | ok v => exact pure (by simp [lowerNumeral_temps h])
    | error e => exact throw e
  | string text =>
    apply of_quiet
    intro s hs
    refine ⟨rfl, ⟨hs.front, hs.scope⟩, Nat.le_refl _, ?_⟩
    rintro v ⟨rfl⟩
    simp [stringValue]
  | bool b => exact pure (by simp)
  | null => exact pure (by simp)

theorem visibleField (layout : StructLayout) (name : String) :
    Emits known (Lower.visibleField env layout name) noTemps := by
  unfold Lower.visibleField
  exact orFail_plain.bind fun field => guarded' (pure (by simp))

theorem loadField {place : StructPlace} (field : FieldLayout) (h : place.temps ⊆ known) :
    Emits known (Lower.loadField place field) TypedValue.temps := by
  cases place with
  | memory ptr layout writable =>
    refine (fieldAddress field.index h).bind fun address => ?_
    exact (load Set.subset_union_right).bind fun value => pure (by simp)
  | aggregate value layout => exact (extract field.index h).bind fun value => pure (by simp)

theorem variablePlace (henv : env.Rooted) (name : String) :
    Emits known (Lower.variablePlace env name) StructPlace.temps := by
  unfold Lower.variablePlace
  refine (readBinding? henv name).bind fun result => ?_
  refine (orFail Set.subset_union_right).bind fun binding => ?_
  refine orFail_plain.bind fun layout => ?_
  have hb : binding.temps ⊆ known ∪ optional Binding.temps result ∪ binding.temps ∪
      noTemps layout := Set.subset_union_right.trans Set.subset_union_left
  -- A variable in memory is loaded if it is a pointer, and is the struct itself if not.
  have hmemory {address : Value} (ha : address.temps ⊆ binding.temps) :
      Emits (known ∪ optional Binding.temps result ∪ binding.temps ∪ noTemps layout)
        (if binding.source.isPointer = true then do
            let __do_lift ← build (Build.load address .ptr)
            Pure.pure (StructPlace.memory __do_lift layout true)
          else Pure.pure (StructPlace.memory address layout binding.isMutable))
        StructPlace.temps := by
    split
    · exact (load (ha.trans hb)).bind fun value => pure (by simp [StructPlace.temps])
    · exact pure (ha.trans hb)
  dsimp only
  split
  · next value hs =>
    have hv : value.temps ⊆ binding.temps := by simp [Binding.temps, hs, Storage.temps]
    split
    · exact pure (hv.trans hb)
    · exact pure (hv.trans hb)
  · next slot hs => exact hmemory (by simp [Binding.temps, hs, Storage.temps])
  · exact hmemory (by simp)

theorem fieldPlace {outer : StructPlace} (name : String) (h : outer.temps ⊆ known) :
    Emits known (Lower.fieldPlace env outer name) StructPlace.temps := by
  unfold Lower.fieldPlace
  refine (visibleField _ name).bind fun field => ?_
  refine orFail_plain.bind fun inner => ?_
  have ho : outer.temps ⊆ known ∪ noTemps field ∪ noTemps inner :=
    h.trans (Set.subset_union_left.trans Set.subset_union_left)
  split
  · exact (loadField field ho).bind fun value => pure (by simp [StructPlace.temps])
  · cases outer with
    | memory ptr layout writable =>
      exact (fieldAddress field.index ho).bind fun value => pure (by simp [StructPlace.temps])
    | aggregate value layout =>
      exact (extract field.index ho).bind fun value => pure (by simp [StructPlace.temps])

theorem structPlace (henv : env.Rooted) (object : Term) :
    Emits known (Lower.structPlace env object) fun place => place.1.temps := by
  fun_induction Lower.structPlace env object with
  | case1 location name => exact (variablePlace henv name).bind fun place => pure (by simp)
  | case2 location object field ih =>
    refine ih.bind fun place => ?_
    exact (fieldPlace field Set.subset_union_right).bind fun inner => pure (by simp)
  | case3 => exact fail _

theorem lowerMember (henv : env.Rooted) (object : Term) (name : String) :
    Emits known (Lower.lowerMember env object name) TypedValue.temps := by
  refine (structPlace henv object).bind fun place => ?_
  refine (visibleField _ name).bind fun field => loadField field ?_
  exact Set.subset_union_right.trans Set.subset_union_left

theorem memberAddress (henv : env.Rooted) (object : Term) (name : String) :
    Emits known (Lower.memberAddress env object name) fun result => result.1.temps := by
  refine (structPlace henv object).bind fun place => ?_
  refine (visibleField _ name).bind fun field => ?_
  have hp : place.1.temps ⊆ known ∪ place.1.temps ∪ noTemps field :=
    Set.subset_union_right.trans Set.subset_union_left
  split
  · next ptr layout heq =>
    have hptr : ptr.temps ⊆ place.1.temps := by
      rw [heq]
      exact subset_rfl
    exact (fieldAddress field.index (hptr.trans hp)).bind fun address => pure (by simp)
  · exact fail _

/-! ## Operators -/

theorem lowerVariable (henv : env.Rooted) (name : String) :
    Emits known (Lower.lowerVariable env name) TypedValue.temps := by
  unfold Lower.lowerVariable
  refine (readBinding? henv name).bind fun result => ?_
  refine (orFail Set.subset_union_right).bind fun binding => ?_
  have hb : binding.temps ⊆ known ∪ optional Binding.temps result ∪ binding.temps :=
    Set.subset_union_right
  cases hs : binding.storage with
  | direct value =>
    refine pure (.trans ?_ hb)
    simp [Binding.temps, hs, Storage.temps]
  | stack slot =>
    refine (load (.trans ?_ hb)).bind fun value => pure (by simp)
    simp [Binding.temps, hs, Storage.temps]
  | global symbol => exact (load (by simp)).bind fun value => pure (by simp)

theorem truthOf {operand : Lower TypedValue} (h : Emits known operand TypedValue.temps) :
    Emits known (Lower.truthOf operand) Value.temps :=
  h.bind fun _ => toBool Set.subset_union_right

theorem lowerArithmetic (op : BinaryOp) {left right : Lower TypedValue}
    (hl : ∀ known, Emits known left TypedValue.temps)
    (hr : ∀ known, Emits known right TypedValue.temps) :
    Emits known (Lower.lowerArithmetic op left right) TypedValue.temps := by
  refine (hl known).bind fun l => (hr _).bind fun r => ?_
  refine (unify? ?_).bind fun result => ?_
  · exact Set.union_subset_union_left _ Set.subset_union_right
  refine (orFail Set.subset_union_right).bind fun operands => ?_
  refine orFail_plain.bind fun code => ?_
  refine (binary code ?_).bind fun value => ?_
  · exact Set.subset_union_right.trans Set.subset_union_left
  split
  · exact pure (by simp)
  · exact pure (by simp)

theorem lowerEager (isAnd : Bool) {left right : Lower TypedValue}
    (hl : ∀ known, Emits known left TypedValue.temps)
    (hr : ∀ known, Emits known right TypedValue.temps) :
    Emits known (Lower.lowerEager isAnd left right) TypedValue.temps := by
  refine (truthOf (hl known)).bind fun lhs => (truthOf (hr _)).bind fun rhs => ?_
  split
  · exact pure (by simp)
  · refine (binary _ ?_).bind fun value => pure (by simp)
    exact Set.union_subset_union_left _ Set.subset_union_right

theorem lowerNot {operand : Lower TypedValue} (h : Emits known operand TypedValue.temps) :
    Emits known (Lower.lowerNot operand) TypedValue.temps := by
  refine (truthOf h).bind fun truth => ?_
  split
  · exact pure (by simp)
  · exact (binary _ (by simp)).bind fun value => pure (by simp)

theorem lowerNegate {operand : Lower TypedValue} (h : Emits known operand TypedValue.temps) :
    Emits known (Lower.lowerNegate operand) TypedValue.temps := by
  refine h.bind fun v => ?_
  split
  · exact pure (by simp)
  · exact pure (by simp)
  · exact (binary _ (by simp)).bind fun value => pure (by simp)
  · exact (binary _ (by simp)).bind fun value => pure (by simp)
  · exact fail _

/-- The fork of a logical operator is written, and the block of the right operand is open. -/
theorem exists_openFork {s : BodyState} (hs : s.Steady) (ho : s.StandsOpen) (isAnd : Bool)
    (lhs : Value) : ∃ ifTrue ifFalse s', Reaches (openFork isAnd lhs) s (s.builder.nextLabel + 1) s'
      [.instr (.branch lhs ifTrue ifFalse), .label s.builder.nextLabel]
      s.builder.nextLabel (s.builder.nextLabel + 2) ∧ s'.StandsOpen ∧
      ∀ avail, IsFork (s.cursor avail) ifTrue ifFalse := by
  obtain ⟨s', h, ho'⟩ := reaches_branchTo (hs.draw 2).steady ((standsOpen_draw 2).mpr ho) lhs
    (if isAnd then s.builder.nextLabel else s.builder.nextLabel + 1)
    (if isAnd then s.builder.nextLabel + 1 else s.builder.nextLabel)
    (hs.unused_draw (Nat.le_refl _) (by omega)) (if isAnd then "and.rhs" else "or.rhs")
  refine ⟨_, _, s', (h.returning (s.builder.nextLabel + 1)).of_draw hs rfl, ho', fun avail => ?_⟩
  cases isAnd
  · exact .inr ⟨rfl, rfl⟩
  · exact .inl ⟨rfl, rfl⟩

/-- The label drawn for the end of a diamond is still unused behind its inner way. -/
theorem merge_unused {s s₁ s₂ : BodyState} {avail avail' : Set Nat} {x : List Spot}
    {i : Instr} (hs : s.Steady) (hw : s.Writes s₁ [.instr i, .label s.builder.nextLabel])
    (hnext : s₁.builder.nextLabel = s.builder.nextLabel + 2)
    (hx : s₁.Emitted avail s₂ x avail') :
    s₂.Unused (s.builder.nextLabel + 1) := by
  have hbounds := hx.piece.label_bounds hw.steady.here_lt
  simp only [cursor, hnext] at hbounds
  refine ⟨?_, by omega⟩
  rw [hx.writes.builder.listing, hw.builder.listing]
  simp only [List.mem_append, List.mem_cons, reduceCtorEq, Item.label.injEq, List.mem_map,
    List.not_mem_nil, or_false, false_or, not_or]
  refine ⟨⟨fun hmem => ?_, by omega⟩, ?_⟩
  · have hlt := hs.label_lt hmem
    omega
  · rintro ⟨spot, hspot, heq⟩
    cases spot with
    | line => simp [Spot.item] at heq
    | head l a sources =>
      simp only [Spot.item, Item.label.injEq] at heq
      have hle := hx.piece.head_bounds hw.steady.here_lt hspot
      simp only [cursor, hnext] at hle
      omega

theorem exec_current {s : BodyState} (hs : s.Steady) (cause : Cause) :
    exec (Lower.orFail s.builder.current cause) s = (.ok s.builder.here, s) := by
  obtain ⟨f, done, last, hf⟩ := hs.front
  rw [hf.here_eq, hf.current]
  rfl

section

variable {isAnd : Bool} {lhs : Value} {avail avail' : Set Nat} {x : List Spot}
  {ifTrue ifFalse : Nat} {s s₁ s₂ s₃ : BodyState}

/-- The inner way of a diamond starts behind its fork. -/
theorem piece_inner (h₁ : Reaches (openFork isAnd lhs) s (s.builder.nextLabel + 1) s₁
      [.instr (.branch lhs ifTrue ifFalse), .label s.builder.nextLabel]
      s.builder.nextLabel (s.builder.nextLabel + 2))
    (hx : s₁.Emitted avail s₂ x avail') :
    Piece s.builder.base (s.cursor avail).inner x (s₂.cursor avail') := by
  have hc : s₁.cursor avail = (s.cursor avail).inner := by
    simp only [cursor, Cursor.inner, h₁.here, h₁.next]
  rw [← hc, ← h₁.base]
  exact hx.piece

/-- A fork, the code of the inner way and a jump are a diamond. -/
theorem emitted_diamond {hint : String} (hlhs : lhs.temps ⊆ avail ∪ s.builder.base)
    (hfork : IsFork (s.cursor avail) ifTrue ifFalse)
    (h₁ : Reaches (openFork isAnd lhs) s (s.builder.nextLabel + 1) s₁
      [.instr (.branch lhs ifTrue ifFalse), .label s.builder.nextLabel]
      s.builder.nextLabel (s.builder.nextLabel + 2))
    (hx : s₁.Emitted avail s₂ x avail')
    (h₃ : Reaches (jumpTo (s.builder.nextLabel + 1) (s.builder.nextLabel + 1) hint) s₂ () s₃
      [.instr (.jump (s.builder.nextLabel + 1)), .label (s.builder.nextLabel + 1)]
      (s.builder.nextLabel + 1) s₂.builder.nextLabel) (ho₃ : s₃.StandsOpen) :
    s.Emitted avail s₃ (diamond (s.cursor avail) lhs ifTrue ifFalse x (s₂.cursor avail'))
      avail where
  piece := by
    have hjoined : s₃.cursor avail = (s.cursor avail).joined (s₂.cursor avail') := by
      simp only [cursor, Cursor.joined, h₃.here, h₃.next]
    rw [hjoined]
    exact .abandoned hlhs hfork (piece_inner h₁ hx)
  writes := by
    have hwrites := h₁.writes.trans (hx.writes.trans h₃.writes)
    simpa [diamond, Spot.item, cursor] using hwrites
  base := h₃.base.trans (hx.base.trans h₁.base)
  isOpen := ho₃

end

theorem lowerFork (isAnd : Bool) {lhs : Value} {right : Lower TypedValue}
    (hlhs : lhs.temps ⊆ known) (hr : ∀ known, Emits known right TypedValue.temps) :
    Emits known (Lower.lowerFork isAnd lhs right) TypedValue.temps := by
  intro s avail hs ho hknown
  obtain ⟨ifTrue, ifFalse, s₁, h₁, ho₁, hfork⟩ := exists_openFork hs ho isAnd lhs
  obtain ⟨x, avail', hx, htemps⟩ := truthOf (hr ∅) s₁ avail h₁.writes.steady ho₁ (by simp)
  unfold Lower.lowerFork
  simp only [exec_bind, exec_get, exec_current hs, h₁.exec, exec_tryCatch]
  generalize hint_eq : (if isAnd then "and.end" else "or.end") = hint
  rcases hexec : exec (Lower.truthOf right) s₁ with ⟨result, s₂⟩
  rw [hexec] at hx htemps
  obtain ⟨s₃, h₃, ho₃⟩ := reaches_jumpTo hx.writes.steady hx.isOpen (s.builder.nextLabel + 1)
    (merge_unused hs h₁.writes h₁.next hx) hint
  have hdiamond := emitted_diamond (hlhs.trans hknown) (hfork avail) h₁ hx h₃ ho₃
  cases result with
  | error e =>
    have hproceed : exec (proceedTo (s.builder.nextLabel + 1) (s.builder.nextLabel + 1) hint) s₂ =
        (.ok (), s₃) := by
      rw [← h₃.exec]
      have hopen : s₂.builder.isTerminated = false := hx.isOpen
      simp [proceedTo, fallThrough, jumpTo, exec_bind, exec_isTerminated, hopen]
    simp only [hproceed, exec_throw]
    exact ⟨_, _, hdiamond, by simp⟩
  | ok rhs =>
    obtain ⟨t, s₄, h₄, ho₄⟩ := reaches_phi h₃.writes.steady ho₃
      [(.bool !isAnd, s.builder.here), (rhs, s₂.builder.here)] .bool
    simp only [exec_current hx.writes.steady, h₃.exec, h₄.exec, exec_pure]
    have hrhs : rhs.temps ⊆ avail' ∪ s.builder.base := by
      rw [← h₁.base]
      exact htemps rhs rfl
    have hjoined : s₄.cursor (avail ∪ {t}) = ((s.cursor avail).joined (s₂.cursor avail')).past
        (.phi t [(.bool !isAnd, s.builder.here), (rhs, s₂.builder.here)] .bool) := by
      simp [cursor, Cursor.joined, Cursor.past, h₄.here, h₄.next, h₃.here, h₃.next,
        Instr.result?]
    refine ⟨_, avail ∪ {t}, ⟨hjoined ▸ Piece.merged (hlhs.trans hknown) (hfork avail)
      (piece_inner h₁ hx) (by simp) hrhs, ?_, h₄.base.trans hdiamond.base, ho₄⟩, ?_⟩
    · rw [List.map_append]
      exact hdiamond.writes.trans h₄.writes
    · rintro v ⟨rfl⟩
      simp

theorem lowerShortCircuit (isAnd : Bool) {left right : Lower TypedValue}
    (hl : ∀ known, Emits known left TypedValue.temps)
    (hr : ∀ known, Emits known right TypedValue.temps) :
    Emits known (Lower.lowerShortCircuit isAnd left right) TypedValue.temps := by
  refine (truthOf (hl known)).bind fun lhs => ?_
  split
  · split
    · exact pure (by simp)
    · exact (truthOf (hr _)).bind fun rhs => pure (by simp)
  · exact lowerFork isAnd Set.subset_union_right hr

theorem lowerBinary (op : BinaryOp) {left right : Lower TypedValue}
    (hl : ∀ known, Emits known left TypedValue.temps)
    (hr : ∀ known, Emits known right TypedValue.temps) :
    Emits known (Lower.lowerBinary op left right) TypedValue.temps := by
  cases op
  case logicalAnd => exact lowerShortCircuit true hl hr
  case logicalOr => exact lowerShortCircuit false hl hr
  case eagerAnd => exact lowerEager true hl hr
  case eagerOr => exact lowerEager false hl hr
  all_goals exact lowerArithmetic _ hl hr

theorem stepOperation?_temps {op : UnaryOp} {type : MachineType} {code : Opcode} {one : Value}
    (h : stepOperation? op type = some (code, one)) : one.temps = ∅ := by
  unfold stepOperation? at h
  split at h
  · split at h <;> simp at h <;> simp [← h.2]
  · split at h <;> simp at h <;> simp [← h.2]
  · cases h

theorem lowerStep (henv : env.Rooted) (op : UnaryOp) (operand : Term) :
    Emits known (Lower.lowerStep env op operand) TypedValue.temps := by
  unfold Lower.lowerStep
  split
  · next location name =>
    refine (readBinding? henv name).bind fun result => ?_
    refine (orFail Set.subset_union_right).bind fun binding => guarded ?_
    have hb : binding.temps ⊆ known ∪ optional Binding.temps result ∪ binding.temps :=
      Set.subset_union_right
    refine (orFail (address?_subset hb)).bind fun address => ?_
    have hone : optional (fun step => step.2.temps) (stepOperation? op binding.type) ⊆
        known ∪ optional Binding.temps result ∪ binding.temps ∪ address.temps := by
      rintro t ⟨⟨code, one⟩, hstep, ht⟩
      simp [stepOperation?_temps hstep] at ht
    refine (orFail hone).bind fun step => ?_
    · generalize hk : known ∪ optional Binding.temps result ∪ binding.temps = known'
      refine (load (Set.subset_union_right.trans Set.subset_union_left)).bind fun old => ?_
      refine (binary step.1 ?_).bind fun new => ?_
      · exact Set.union_subset Set.subset_union_right
          (Set.subset_union_right.trans Set.subset_union_left)
      refine (store ?_).bind fun _ => ?_
      · refine Set.union_subset Set.subset_union_right ?_
        intro t ht
        simp [ht]
      · refine pure ?_
        intro t ht
        dsimp only [TypedValue.temps_eq] at ht
        split at ht <;> simp [ht]
  · exact fail _

theorem promoteVariadic {v : TypedValue} (callee : String) (h : v.temps ⊆ known) :
    Emits known (Lower.promoteVariadic v callee) fun arg => arg.2.temps := by
  unfold Lower.promoteVariadic
  split
  · exact (convert .fpext h).bind fun value => pure (by simp)
  · exact fail _
  · exact fail _
  · exact pure h

theorem passArguments (callee : String) (number : Nat) (sources : List SourceType)
    (types : List MachineType) {values : List TypedValue}
    (h : listed TypedValue.temps values ⊆ known) :
    Emits known (Lower.passArguments callee number sources types values)
      (listed fun arg => arg.2.temps) := by
  fun_induction Lower.passArguments callee number sources types values generalizing known with
  | case1 => exact pure (by simp)
  | case2 number source sources type types v rest use =>
    rename_i ih
    rw [listed_cons] at h
    obtain ⟨hv, hrest⟩ := Set.union_subset_iff.mp h
    refine (coerce source type use hv).bind fun value => ?_
    refine (ih (hrest.trans Set.subset_union_left)).bind fun passed => pure ?_
    rw [listed_cons]
    exact Set.union_subset_union_left _ Set.subset_union_right
  | case3 number sources types v rest _ ih =>
    rw [listed_cons] at h
    obtain ⟨hv, hrest⟩ := Set.union_subset_iff.mp h
    refine (promoteVariadic callee hv).bind fun arg => ?_
    refine (ih (hrest.trans Set.subset_union_left)).bind fun passed => pure ?_
    rw [listed_cons]
    exact Set.union_subset_union_left _ Set.subset_union_right

theorem lowerCall (callee : String) (count : Nat) {args : Lower (List TypedValue)}
    (h : ∀ known, Emits known args (listed TypedValue.temps)) :
    Emits known (Lower.lowerCall env callee count args) TypedValue.temps := by
  unfold Lower.lowerCall
  refine orFail_plain.bind fun signature => ?_
  refine guarded ((h _).bind fun values => ?_)
  refine (passArguments callee 1 _ _ Set.subset_union_right).bind fun passed => ?_
  refine (call Set.subset_union_right).bind fun result => ?_
  cases result with
  | some result => exact pure (by simp)
  | none => exact pure (by simp)

theorem lowerCast (location : Option Location) (target : SourceType) {operand : Lower TypedValue}
    (h : ∀ known, Emits known operand TypedValue.temps) :
    Emits known (Lower.lowerCast env location target operand) TypedValue.temps := by
  refine (checkKnown target location).bind fun _ => (h _).bind fun v => ?_
  split
  · exact pure (by simp)
  · exact fail _

theorem lowerAlloc (location : Option Location) (target : SourceType) :
    Emits known (Lower.lowerAlloc env location target) TypedValue.temps := by
  unfold Lower.lowerAlloc
  refine (checkKnown target location).bind fun _ => ?_
  refine orFail_plain.bind fun signature => ?_
  refine (call (by simp)).bind fun result => ?_
  refine (orFail Set.subset_union_right).bind fun raw => ?_
  split
  · exact pure (by simp)
  · exact (convert _ Set.subset_union_right).bind fun pointer => pure (by simp)

/-! ## Assignments -/

theorem assignVariable (henv : env.Rooted) (name : String) {v : TypedValue}
    (h : v.temps ⊆ known) : Emits known (Lower.assignVariable env name v) TypedValue.temps := by
  unfold Lower.assignVariable
  refine (peekBinding? henv name).bind fun result => ?_
  refine (orFail Set.subset_union_right).bind fun binding => guarded ?_
  refine (orFail (address?_subset Set.subset_union_right)).bind fun address => ?_
  refine (coerce _ _ _ ?_).bind fun stored => ?_
  · intro t ht
    simp only [Set.mem_union]
    exact .inl (.inl (.inl (h ht)))
  refine (store ?_).bind fun _ => pure ?_
  · exact Set.union_subset Set.subset_union_right
      (Set.subset_union_right.trans Set.subset_union_left)
  · exact Set.subset_union_right.trans Set.subset_union_left

theorem assignMember (henv : env.Rooted) (object : Term) (name : String) {v : TypedValue}
    (h : v.temps ⊆ known) :
    Emits known (Lower.assignMember env object name v) TypedValue.temps := by
  refine (memberAddress henv object name).bind fun result => ?_
  refine (coerce _ _ _ (h.trans Set.subset_union_left)).bind fun stored => ?_
  refine (store ?_).bind fun _ => pure ?_
  · exact Set.union_subset Set.subset_union_right
      (Set.subset_union_right.trans Set.subset_union_left)
  · exact Set.subset_union_right.trans Set.subset_union_left

theorem lowerAssign (henv : env.Rooted) (target : Term) {value : Lower TypedValue}
    (h : Emits known value TypedValue.temps) :
    Emits known (Lower.lowerAssign env target value) TypedValue.temps := by
  refine h.bind fun v => ?_
  split
  · exact assignVariable henv _ Set.subset_union_right
  · exact assignMember henv _ _ Set.subset_union_right
  · exact fail _

mutual

/-- The lowering of an expression writes a piece of code, by recursion on the expression. -/
theorem lowerTerm (henv : env.Rooted) :
    (term : Term) → (known : Set Nat) → Emits known (Lower.lowerTerm env term) TypedValue.temps
  | .literal .., _ => located (lowerLiteral _)
  | .variable .., _ => located (lowerVariable henv _)
  | .call _ _ args, _ => located (lowerCall _ _ (lowerTerms henv args))
  | .binary _ op left right, _ =>
    located (lowerBinary op (lowerTerm henv left) (lowerTerm henv right))
  | .unary _ .logicalNot operand, _ => located (lowerNot (lowerTerm henv operand _))
  | .unary _ .minus operand, _ => located (lowerNegate (lowerTerm henv operand _))
  | .unary _ .preIncrement operand, _ | .unary _ .postIncrement operand, _
  | .unary _ .preDecrement operand, _ | .unary _ .postDecrement operand, _ =>
    located (lowerStep henv _ operand)
  | .cast _ _ operand, _ => located (lowerCast _ _ (lowerTerm henv operand))
  | .alloc .., _ => located (lowerAlloc _ _)
  | .assign _ target value, _ => located (lowerAssign henv target (lowerTerm henv value _))
  | .member _ object field, _ => located (lowerMember henv object field)

theorem lowerTerms (henv : env.Rooted) :
    (terms : List Term) → (known : Set Nat) →
      Emits known (Lower.lowerTerms env terms) (listed TypedValue.temps)
  | [], _ => pure (by simp)
  | term :: rest, known => (lowerTerm henv term known).bind fun v =>
    (lowerTerms henv rest _).bind fun vs => pure (by
      rw [listed_cons]
      exact Set.union_subset_union_left _ Set.subset_union_right)

end

end Emits

end SsaLowering
