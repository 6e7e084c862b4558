import SsaLowering.Lowering.Expression

/-!
# Struct tables and the types of their fields

A struct is laid out with the structs declared before it, so every declaration has a layout,
and its fields are numbered in order. The type of a field is fixed at that moment. A table is
settled if it would give every field the same type again.
-/

namespace SsaLowering

namespace MachineType

variable {fields : List MachineType} {used align : Nat} {l : AggregateLayout}

/-- There is one offset for each field. -/
theorem length_offsets (h : placeFrom fields used align = some l) :
    l.offsets.length = fields.length := by
  induction fields generalizing used align l with
  | nil =>
    obtain rfl := Option.some.inj h
    rfl
  | cons field fields ih =>
    rw [placeFrom] at h
    obtain ⟨e, -, h⟩ := Option.bind_eq_some_iff.mp h
    obtain ⟨l', hl', h⟩ := Option.bind_eq_some_iff.mp h
    obtain rfl := Option.some.inj h
    simp [ih hl']

/-- Fields with an extent can be placed. -/
theorem exists_placeFrom (h : ∀ field ∈ fields, ∃ e, field.extent? = some e) :
    ∃ l, placeFrom fields used align = some l := by
  induction fields generalizing used align with
  | nil => exact ⟨_, rfl⟩
  | cons field fields ih =>
    obtain ⟨e, he⟩ := h field (by simp)
    obtain ⟨l, hl⟩ : ∃ l, placeFrom fields (roundUp used e.align + e.size)
        (max align e.align) = some l :=
      ih fun field hfield => h field (by simp [hfield])
    exact ⟨{ l with offsets := roundUp used e.align :: l.offsets }, by simp [placeFrom, he, hl]⟩

end MachineType

namespace SourceType

/-- The type is one of the unsigned integers. -/
def isUnsigned (t : SourceType) : Bool :=
  !t.isPointer && (builtin? t.name).any (·.isUnsigned)

/-- A built-in name stands for a number or a truth value of at most eight bytes. -/
theorem exists_extent_builtin {name : String} {type : MachineType} (h : builtin? name = some type) :
    type ≠ .void ∧ ∃ e, type.extent? = some e ∧ e.size ≤ 8 := by
  unfold builtin? at h
  split at h <;> cases h <;> exact ⟨by simp, _, rfl, by decide⟩

end SourceType

/-- The fields of a layout are numbered in order, have types that can be kept, and make up
its type and its size. -/
structure StructLayout.Consistent (l : StructLayout) : Prop where
  type_eq : l.type = .struct l.name (l.fields.map (·.type))
  field_eq : ∀ field ∈ l.fields, l.fields[field.index]? = some field
  pointer : ∀ field ∈ l.fields, field.source.isPointer = true → field.type = .ptr
  ne_void : ∀ field ∈ l.fields, field.type ≠ .void
  extent_eq : l.type.extent? = some ⟨l.size, l.align⟩

/-- A field stands at its number in the type of its struct. -/
theorem StructLayout.Consistent.getElem? {l : StructLayout} (h : l.Consistent)
    {field : FieldLayout} (hfield : field ∈ l.fields) :
    (l.fields.map (·.type))[field.index]? = some field.type := by
  rw [List.getElem?_map, h.field_eq field hfield]
  rfl

namespace StructTable

variable {table : StructTable} {t : SourceType} {layout : StructLayout}

/-- Every layout of the table is consistent. -/
def Consistent (table : StructTable) : Prop := ∀ layout ∈ table.layouts, layout.Consistent

/-- No struct hides behind a built-in name, and every field has the type that its source type
stands for in the whole table. -/
structure Settled (table : StructTable) : Prop where
  names : ∀ layout ∈ table.layouts, SourceType.builtin? layout.name = none
  fields : ∀ layout ∈ table.layouts, ∀ field ∈ layout.fields,
    field.type = table.resolve field.source

instance (table : StructTable) : Decidable table.Settled :=
  decidable_of_iff
    ((∀ layout ∈ table.layouts, SourceType.builtin? layout.name = none) ∧
      ∀ layout ∈ table.layouts, ∀ field ∈ layout.fields, field.type = table.resolve field.source)
    ⟨fun h => ⟨h.1, h.2⟩, fun h => ⟨h.names, h.fields⟩⟩

theorem mem_of_find? {name : String} (h : table.find? name = some layout) :
    layout ∈ table.layouts ∧ layout.name = name :=
  ⟨List.mem_of_find?_eq_some h, by simpa using List.find?_some h⟩

theorem resolve_of_pointer (h : t.isPointer = true) : table.resolve t = .ptr := if_pos h

theorem resolve_of_builtin {type : MachineType} (hp : t.isPointer = false)
    (h : SourceType.builtin? t.name = some type) : table.resolve t = type := by
  simp [resolve, hp, h]

/-- What a type stands for: a pointer, a number or a truth value, a struct, or a byte. -/
theorem resolve_cases (table : StructTable) (t : SourceType) :
    (t.isPointer = true ∧ table.resolve t = .ptr) ∨
    (t.isPointer = false ∧ SourceType.builtin? t.name = some (table.resolve t)) ∨
    (t.isPointer = false ∧ SourceType.builtin? t.name = none ∧
      ∃ layout, table.find? t.name = some layout ∧ table.resolve t = layout.type) ∨
    (t.isPointer = false ∧ SourceType.builtin? t.name = none ∧ table.find? t.name = none ∧
      table.resolve t = .i8) := by
  cases hp : t.isPointer with
  | true => exact .inl ⟨rfl, resolve_of_pointer hp⟩
  | false =>
    cases hb : SourceType.builtin? t.name with
    | some type => exact .inr (.inl ⟨rfl, by rw [resolve_of_builtin hp hb]⟩)
    | none =>
      cases hf : table.find? t.name with
      | some layout =>
        exact .inr (.inr (.inl ⟨rfl, rfl, layout, rfl, by simp [resolve, hp, hb, hf]⟩))
      | none => exact .inr (.inr (.inr ⟨rfl, rfl, rfl, by simp [resolve, hp, hb, hf, fallback]⟩))

/-- Whatever a type stands for has an extent. -/
theorem Consistent.exists_extent (h : table.Consistent) (t : SourceType) :
    table.resolve t ≠ .void ∧ ∃ e, (table.resolve t).extent? = some e := by
  rcases table.resolve_cases t with ⟨-, heq⟩ | ⟨-, hb⟩ | ⟨-, -, layout, hf, heq⟩ | ⟨-, -, -, heq⟩
  · rw [heq]
    exact ⟨by simp, _, rfl⟩
  · obtain ⟨hne, e, he, -⟩ := SourceType.exists_extent_builtin hb
    exact ⟨hne, e, he⟩
  · have hlayout := h layout (mem_of_find? hf).1
    rw [heq]
    exact ⟨by simp [hlayout.type_eq], _, hlayout.extent_eq⟩
  · rw [heq]
    exact ⟨by simp, _, rfl⟩

/-- Only the names of unsigned integers stand for unsigned integers. -/
theorem Consistent.isUnsigned_resolve (h : table.Consistent) (t : SourceType) :
    (table.resolve t).isUnsigned = t.isUnsigned := by
  rcases table.resolve_cases t with
    ⟨hp, heq⟩ | ⟨hp, hb⟩ | ⟨hp, hb, layout, hf, heq⟩ | ⟨hp, hb, -, heq⟩
  · simp [heq, SourceType.isUnsigned, hp, MachineType.isUnsigned]
  · simp [SourceType.isUnsigned, hp, hb]
  · simp [heq, SourceType.isUnsigned, hp, hb, (h layout (mem_of_find? hf).1).type_eq,
      MachineType.isUnsigned]
  · simp [heq, SourceType.isUnsigned, hp, hb, MachineType.isUnsigned]

/-- In a settled table, the name of a struct stands for that struct. -/
theorem Settled.resolve_eq (h : table.Settled) (hp : t.isPointer = false)
    (hf : table.find? t.name = some layout) : table.resolve t = layout.type := by
  obtain ⟨hmem, hname⟩ := mem_of_find? hf
  have hb := h.names layout hmem
  rw [hname] at hb
  simp [resolve, hp, hb, hf]

/-- The source type that is taken from a number or a truth value stands for its type. -/
theorem resolve_toSource (table : StructTable) {type : MachineType}
    (h : type.isInteger = true ∨ type.isFloat = true ∨ type = .bool) :
    type.toSource.isPointer = false ∧ table.resolve type.toSource = type := by
  cases type with
  | bool => exact ⟨rfl, resolve_of_builtin rfl (by decide)⟩
  | int s w => cases s <;> cases w <;> exact ⟨rfl, resolve_of_builtin rfl (by decide)⟩
  | float w => cases w <;> exact ⟨rfl, resolve_of_builtin rfl (by decide)⟩
  | _ => simp [MachineType.isInteger, MachineType.isFloat] at h

/-- No struct of a settled table has a built-in name. -/
theorem Settled.find?_eq_none (h : table.Settled) {name : String} {type : MachineType}
    (hb : SourceType.builtin? name = some type) : table.find? name = none := by
  cases hf : table.find? name with
  | none => rfl
  | some layout =>
    obtain ⟨hmem, hname⟩ := mem_of_find? hf
    have hnone := h.names layout hmem
    rw [hname, hb] at hnone
    cases hnone

/-- In a settled table, an allocation requests the bytes that a value of its type takes, or the
least number of bytes that is ever requested, if that is not less. -/
theorem Settled.allocSize_cases (h : table.Settled) (hc : table.Consistent) (t : SourceType) :
    ∃ size, (table.resolve t).size? = some size ∧ (Lower.allocSize table t = size ∨
      size ≤ Lower.minAllocSize ∧ Lower.allocSize table t = Lower.minAllocSize) := by
  rcases table.resolve_cases t with
    ⟨hp, heq⟩ | ⟨hp, hb⟩ | ⟨hp, -, layout, hf, heq⟩ | ⟨hp, -, hf, heq⟩
  · exact ⟨8, by rw [heq]; rfl, .inl (by simp [Lower.allocSize, hp, Lower.minAllocSize])⟩
  · obtain ⟨-, e, he, hsize⟩ := SourceType.exists_extent_builtin hb
    have hf := h.find?_eq_none hb
    exact ⟨e.size, by simp [MachineType.size?, he],
      .inr ⟨hsize, by simp [Lower.allocSize, hp, sizeOf?, hf]⟩⟩
  · have hlayout := hc layout (mem_of_find? hf).1
    exact ⟨layout.size, by simp [heq, MachineType.size?, hlayout.extent_eq],
      .inl (by simp [Lower.allocSize, hp, sizeOf?, hf])⟩
  · exact ⟨1, by rw [heq]; rfl, .inr ⟨by decide, by simp [Lower.allocSize, hp, sizeOf?, hf]⟩⟩

/-! ## Declarations -/

/-- The fields of a declaration are numbered in order. -/
theorem fieldLayouts_eq (start : Nat) {fields : List FieldDecl} {types : List MachineType}
    {offsets : List Nat} (ht : types.length = fields.length)
    (ho : offsets.length = fields.length) :
    (fieldLayouts start fields types offsets).map (·.type) = types ∧
      (fieldLayouts start fields types offsets).map (·.source) = fields.map (·.type) ∧
      (fieldLayouts start fields types offsets).map (·.index) =
        List.range' start fields.length := by
  induction fields generalizing start types offsets with
  | nil =>
    obtain rfl := List.eq_nil_of_length_eq_zero ht
    simp [fieldLayouts]
  | cons field fields ih =>
    cases types with
    | nil => cases ht
    | cons type types =>
      cases offsets with
      | nil => cases ho
      | cons offset offsets =>
        have ht' : types.length = fields.length := by simpa using ht
        have ho' : offsets.length = fields.length := by simpa using ho
        obtain ⟨htypes, hsources, hindices⟩ := ih (start + 1) ht' ho'
        simp [fieldLayouts, htypes, hsources, hindices, List.range'_succ]

/-- Fields that are numbered in order stand at their numbers. -/
theorem getElem?_index {fields : List FieldLayout}
    (h : fields.map (·.index) = List.range' 0 fields.length) {field : FieldLayout}
    (hfield : field ∈ fields) : fields[field.index]? = some field := by
  obtain ⟨k, hk, rfl⟩ := List.getElem_of_mem hfield
  have hindex : (fields.map (·.index))[k]? = some fields[k].index := by simp [hk]
  rw [h, List.getElem?_range' hk] at hindex
  have hk' : fields[k].index = k := by simpa using (Option.some.inj hindex).symm
  rw [hk', List.getElem?_eq_getElem hk]

/-- Every declaration has a layout, which gives its fields the types that they stand for. -/
theorem Consistent.exists_layout (h : table.Consistent) (decl : StructDecl) :
    ∃ layout, table.layout? decl = some layout ∧ layout.name = decl.name ∧ layout.Consistent ∧
      layout.fields.map (·.source) = decl.fields.map (·.type) ∧
      ∀ field ∈ layout.fields, field.type = table.resolve field.source := by
  let types := decl.fields.map fun field => table.resolve field.type
  -- Whatever a field resolves to has an extent, so all fields can be placed.
  obtain ⟨l, hl⟩ : ∃ l, MachineType.placeFrom types 0 1 = some l := by
    apply MachineType.exists_placeFrom
    intro type htype
    obtain ⟨field, -, rfl⟩ := List.mem_map.mp htype
    exact (h.exists_extent field.type).2
  let fields := fieldLayouts 0 decl.fields types l.offsets
  have hlayout : table.layout? decl = some
      ⟨decl.name, fields, .struct decl.name types, l.size, l.align, decl.interface⟩ := by
    rw [layout?, show MachineType.layout? types = some l from hl]
    rfl
  have htypes : types.length = decl.fields.length := by simp [types]
  obtain ⟨htypes, hsources, hindices⟩ :=
    fieldLayouts_eq 0 htypes ((MachineType.length_offsets hl).trans htypes)
  have hlength : fields.length = decl.fields.length := by
    simpa using congrArg List.length hsources
  have hresolved : ∀ field ∈ fields, field.type = table.resolve field.source := by
    have heq : types = fields.map (table.resolve ∘ (·.source)) := by
      rw [← List.map_map, hsources, List.map_map]
      rfl
    exact List.map_inj_left.mp (htypes.trans heq)
  refine ⟨_, hlayout, rfl, ⟨?_, ?_, ?_, ?_, ?_⟩, hsources, hresolved⟩
  · rw [htypes]
  · intro field hfield
    exact getElem?_index (hlength ▸ hindices) hfield
  · intro field hfield hp
    rw [hresolved field hfield, resolve_of_pointer hp]
  · intro field hfield
    rw [hresolved field hfield]
    exact (h.exists_extent field.source).1
  · simp [MachineType.extent?, hl]

end StructTable

end SsaLowering
