import Mathlib.Algebra.Order.Floor.Div
import Mathlib.Order.Bounds.Basic
import SsaLowering.Machine.Layout

/-!
# Natural layout

The layout of an aggregate is natural: every field begins at the first multiple of its
alignment behind the field before it, and the aggregate ends at the first multiple of its own
alignment behind its last field. The size of every type is a multiple of its alignment, so that
the elements of an array stay aligned as well.
-/

namespace SsaLowering

/-! ## Rounding -/

section

variable {n align : Nat}

/-- Rounding gives the least multiple that is not below the number. -/
theorem isLeast_roundUp (h : 0 < align) (n : Nat) :
    IsLeast {m | align ∣ m ∧ n ≤ m} (roundUp n align) := by
  have heq : roundUp n align = align * (n ⌈/⌉ align) := Nat.mul_comm _ _
  rw [heq]
  constructor
  · exact ⟨Nat.dvd_mul_right _ _, le_smul_ceilDiv h⟩
  · rintro _ ⟨⟨k, rfl⟩, hle⟩
    exact Nat.mul_le_mul_left align ((ceilDiv_le_iff_le_mul h).mpr hle)

theorem roundUp_lt (h : 0 < align) (n : Nat) : roundUp n align < n + align := by
  have hle : roundUp n align ≤ n + align - 1 := Nat.div_mul_le_self _ _
  omega

end

/-- The alignments that occur. -/
def alignments : List Nat := [1, 2, 4, 8]

theorem pos_of_mem_alignments {align : Nat} (h : align ∈ alignments) : 0 < align := by
  simp only [alignments, List.mem_cons, List.not_mem_nil, or_false] at h
  omega

theorem max_mem_alignments {a b : Nat} (ha : a ∈ alignments) (hb : b ∈ alignments) :
    max a b ∈ alignments := by
  rcases max_choice a b with h | h
  · rw [h]
    exact ha
  · rw [h]
    exact hb

/-! ## Types without a size -/

namespace MachineType

/-- The type has no size: it is void or a function type, or it is made from such a type. -/
inductive Unsized : MachineType → Prop
  | void : Unsized .void
  | function (result : MachineType) (params : List MachineType) (isVararg : Bool) :
    Unsized (.function result params isVararg)
  | array {element : MachineType} (size : Nat) : Unsized element → Unsized (.array size element)
  | struct {field : MachineType} {fields : List MachineType} (name : String) :
    field ∈ fields → Unsized field → Unsized (.struct name fields)

variable {type field : MachineType} {fields rest : List MachineType} {used align : Nat}
  {l : AggregateLayout} {e : Extent}

@[simp] theorem unsized_array {size : Nat} : (array size type).Unsized ↔ type.Unsized := by
  constructor
  · intro h
    cases h
    assumption
  · exact .array size

@[simp] theorem unsized_struct {name : String} :
    (struct name fields).Unsized ↔ ∃ field ∈ fields, field.Unsized := by
  constructor
  · intro h
    cases h with
    | struct _ hfield h => exact ⟨_, hfield, h⟩
  · rintro ⟨field, hfield, h⟩
    exact .struct name hfield h

/-- A field is placed at the next multiple of its alignment, and the others behind it. -/
theorem placeFrom_cons_eq_some : placeFrom (field :: rest) used align = some l ↔
    ∃ e l', field.extent? = some e ∧
      placeFrom rest (roundUp used e.align + e.size) (max align e.align) = some l' ∧
      l = { l' with offsets := roundUp used e.align :: l'.offsets } := by
  rw [placeFrom]
  constructor
  · intro h
    obtain ⟨e, he, h⟩ := Option.bind_eq_some_iff.mp h
    obtain ⟨l', hl', h⟩ := Option.bind_eq_some_iff.mp h
    exact ⟨e, l', he, hl', (Option.some.inj h).symm⟩
  · rintro ⟨e, l', he, hl', rfl⟩
    simp [he, hl']

theorem placeFrom_cons_eq_none : placeFrom (field :: rest) used align = none ↔
    field.extent? = none ∨ ∃ e, field.extent? = some e ∧
      placeFrom rest (roundUp used e.align + e.size) (max align e.align) = none := by
  rw [placeFrom]
  cases he : field.extent? with
  | none => simp
  | some e =>
    cases hl : placeFrom rest (roundUp used e.align + e.size) (max align e.align) with
    | none => simp [hl]
    | some l => simp [hl]

mutual

/-- Exactly the types without a size have no extent. -/
theorem extent?_eq_none_iff : (type : MachineType) → (type.extent? = none ↔ type.Unsized)
  | .void => by simp [extent?, Unsized.void]
  | .function .. => by simp [extent?, Unsized.function]
  | .bool | .int .. | .float .single | .float .double | .ptr => by
    simp only [extent?, reduceCtorEq, false_iff]
    rintro ⟨⟩
  | .array size element => by
    rw [extent?, Option.map_eq_none_iff, extent?_eq_none_iff element, unsized_array]
  | .struct name fields => by
    rw [extent?, Option.map_eq_none_iff, placeFrom_eq_none_iff fields, unsized_struct]
termination_by structural type => type

theorem placeFrom_eq_none_iff : (fields : List MachineType) → {used align : Nat} →
    (placeFrom fields used align = none ↔ ∃ field ∈ fields, field.Unsized)
  | [], _, _ => by simp [placeFrom]
  | field :: rest, used, align => by
    rw [placeFrom_cons_eq_none, extent?_eq_none_iff field]
    simp only [placeFrom_eq_none_iff rest, List.exists_mem_cons_iff]
    constructor
    · rintro (h | ⟨_, -, h⟩)
      · exact .inl h
      · exact .inr h
    · intro h
      by_cases hfield : field.Unsized
      · exact .inl hfield
      · obtain ⟨e, he⟩ := Option.ne_none_iff_exists'.mp (mt (extent?_eq_none_iff field).mp hfield)
        exact .inr ⟨e, he, h.resolve_left hfield⟩
termination_by structural fields => fields

end

/-! ## Alignment -/

/-- A layout ends with the padding to its own alignment. -/
theorem exists_size_eq (h : placeFrom fields used align = some l) :
    ∃ stop, l.size = roundUp stop l.align := by
  induction fields generalizing used align l with
  | nil =>
    obtain rfl := Option.some.inj h
    exact ⟨used, rfl⟩
  | cons field rest ih =>
    obtain ⟨e, l', -, hl', rfl⟩ := placeFrom_cons_eq_some.mp h
    obtain ⟨stop, hsize⟩ := ih hl'
    exact ⟨stop, hsize⟩

mutual

/-- The size of a type is a multiple of its alignment. -/
theorem align_dvd_size : (type : MachineType) → {e : Extent} → type.extent? = some e →
    e.align ∈ alignments ∧ e.align ∣ e.size
  | .bool, _, h | .ptr, _, h | .float .single, _, h | .float .double, _, h => by
    obtain rfl := Option.some.inj h
    decide
  | .int _ w, _, h => by
    obtain rfl := Option.some.inj h
    cases w <;> decide
  | .array size element, _, h => by
    rw [extent?] at h
    obtain ⟨e, he, rfl⟩ := Option.map_eq_some_iff.mp h
    obtain ⟨hmem, hdvd⟩ := align_dvd_size element he
    exact ⟨hmem, Dvd.dvd.mul_right hdvd size⟩
  | .struct _ fields, _, h => by
    rw [extent?] at h
    obtain ⟨l, hl, rfl⟩ := Option.map_eq_some_iff.mp h
    obtain ⟨stop, hsize⟩ := exists_size_eq hl
    have hmem : l.align ∈ alignments := align_mem_alignments fields hl (by decide)
    have hleast := isLeast_roundUp (pos_of_mem_alignments hmem) stop
    exact ⟨hmem, hsize ▸ hleast.1.1⟩
termination_by structural type => type

/-- The alignment of an aggregate is one of those of its fields. -/
theorem align_mem_alignments : (fields : List MachineType) → {used align : Nat} →
    {l : AggregateLayout} → placeFrom fields used align = some l → align ∈ alignments →
    l.align ∈ alignments
  | [], _, _, _, h, halign => by
    obtain rfl := Option.some.inj h
    exact halign
  | field :: rest, _, _, _, h, halign => by
    obtain ⟨e, l', he, hl', rfl⟩ := placeFrom_cons_eq_some.mp h
    have hmem : l'.align ∈ alignments :=
      align_mem_alignments rest hl' (max_mem_alignments halign (align_dvd_size field he).1)
    exact hmem
termination_by structural fields => fields

end

end MachineType

/-! ## Slots -/

/-- The part of an aggregate that a field takes. -/
structure Slot where
  offset : Nat
  size : Nat
  align : Nat
deriving DecidableEq

namespace Slot

/-- Where the part ends. -/
def stop (s : Slot) : Nat := s.offset + s.size

/-- The beginning of an aggregate, which takes nothing. -/
def origin : Slot := ⟨0, 0, 1⟩

/-- The part is for a field of the given type. -/
structure Houses (s : Slot) (type : MachineType) : Prop where
  size : type.size? = some s.size
  align : type.align? = some s.align

/-- The part `t` follows the part `s`: they do not overlap, and the padding between them is
smaller than the alignment of `t`. -/
def Precedes (s t : Slot) : Prop := s.stop ≤ t.offset ∧ t.offset < s.stop + t.align

variable {s : Slot} {slots : List Slot} {type : MachineType} {e : Extent}

/-- The first part behind another one for a field of the given extent. -/
def next (s : Slot) (e : Extent) : Slot := ⟨roundUp s.stop e.align, e.size, e.align⟩

theorem houses_next (h : type.extent? = some e) (s : Slot) : (s.next e).Houses type where
  size := by simp [MachineType.size?, h, next]
  align := by simp [MachineType.align?, h, next]

theorem precedes_next (h : 0 < e.align) (s : Slot) : s.Precedes (s.next e) :=
  ⟨(isLeast_roundUp h s.stop).1.2, roundUp_lt h s.stop⟩

/-- Behind a part that others follow, there is a last one, and all end where it ends. -/
theorem stop_le_last (h : (s :: slots).IsChain Precedes) :
    ∀ t ∈ s :: slots, t.stop ≤ ((s :: slots).getLast (by simp)).stop := by
  induction slots generalizing s with
  | nil => simp
  | cons t slots ih =>
    obtain ⟨hst, hrest⟩ := List.isChain_cons_cons.mp h
    have hlast := ih hrest
    rw [List.getLast_cons_cons]
    rintro u (_ | ⟨_, hu⟩)
    · calc
        s.stop ≤ t.offset := hst.1
        _ ≤ t.stop := Nat.le_add_right _ _
        _ ≤ _ := hlast t (by simp)
    · exact hlast u hu

end Slot

/-- The layout places fields in the given slots, without more padding than it needs. -/
structure AggregateLayout.PlacesIn (l : AggregateLayout) (fields : List MachineType)
    (slots : List Slot) : Prop where
  houses : List.Forall₂ Slot.Houses slots fields
  offsets : l.offsets = slots.map (·.offset)
  aligned : ∀ s ∈ slots, s.align ∣ s.offset
  inOrder : (Slot.origin :: slots).IsChain Slot.Precedes
  align_eq : l.align = (slots.map (·.align)).foldl max 1
  align_mem : ∀ align ∈ l.align :: slots.map (·.align), align ∈ alignments
  size_least : IsLeast {n | l.align ∣ n ∧ ∀ s ∈ slots, s.stop ≤ n} l.size

namespace MachineType

variable {fields : List MachineType} {used align : Nat} {l : AggregateLayout} {e : Extent}

/-- Fields that are placed behind a slot have slots that follow it. -/
theorem exists_slots {s : Slot} (h : placeFrom fields s.stop align = some l) :
    ∃ slots, List.Forall₂ Slot.Houses slots fields ∧ l.offsets = slots.map (·.offset) ∧
      (∀ t ∈ slots, t.align ∣ t.offset ∧ t.align ∈ alignments) ∧
      (s :: slots).IsChain Slot.Precedes ∧
      l.align = (slots.map (·.align)).foldl max align ∧
      l.size = roundUp ((s :: slots).getLast (by simp)).stop l.align := by
  induction fields generalizing s align l with
  | nil =>
    obtain rfl := Option.some.inj h
    exact ⟨[], .nil, rfl, by simp, .singleton s, rfl, rfl⟩
  | cons field rest ih =>
    obtain ⟨e, l', he, hl', rfl⟩ := placeFrom_cons_eq_some.mp h
    obtain ⟨slots, hall, hoffsets, haligned, hchain, halign, hsize⟩ := ih (s := s.next e) hl'
    have hmem : e.align ∈ alignments := (align_dvd_size field he).1
    have hpos := pos_of_mem_alignments hmem
    refine ⟨s.next e :: slots, .cons (s.houses_next he) hall, ?_, ?_,
      .cons_cons (s.precedes_next hpos) hchain, halign, hsize⟩
    · rw [hoffsets]
      rfl
    · rintro t (_ | ⟨_, ht⟩)
      · exact ⟨(isLeast_roundUp hpos s.stop).1.1, hmem⟩
      · exact haligned t ht

/-- The layout of an aggregate is natural. -/
theorem exists_placesIn (h : layout? fields = some l) : ∃ slots, l.PlacesIn fields slots := by
  have hbegin : placeFrom fields Slot.origin.stop 1 = some l := h
  obtain ⟨slots, hall, hoffsets, haligned, hchain, halign, hsize⟩ := exists_slots hbegin
  have hmem : l.align ∈ alignments := align_mem_alignments fields h (by decide)
  obtain ⟨⟨hdvd, hle⟩, hleast⟩ :=
    isLeast_roundUp (pos_of_mem_alignments hmem) ((Slot.origin :: slots).getLast (by simp)).stop
  rw [← hsize] at hdvd hle hleast
  refine ⟨slots, hall, hoffsets, fun s hs => (haligned s hs).1, hchain, halign, ?_, ⟨hdvd, ?_⟩, ?_⟩
  · rintro align (_ | ⟨_, halign⟩)
    · exact hmem
    · obtain ⟨s, hs, rfl⟩ := List.mem_map.mp halign
      exact (haligned s hs).2
  · intro s hs
    exact (Slot.stop_le_last hchain s (by simp [hs])).trans hle
  · rintro n ⟨hn, hstop⟩
    apply hleast
    refine ⟨hn, ?_⟩
    have hlast : (Slot.origin :: slots).getLast (by simp) ∈ Slot.origin :: slots :=
      List.getLast_mem (by simp)
    -- The last slot is that of a field, unless there are no fields.
    rcases List.mem_cons.mp hlast with heq | hmem
    · rw [heq]
      exact Nat.zero_le n
    · exact hstop _ hmem

/-- If words hold every number that is computed for a layout, then they hold its size. -/
theorem isWord_size (h : placeFrom fields used align = some l)
    (hfit : placesFit fields used align = true) : isWord l.size = true := by
  induction fields generalizing used align l with
  | nil =>
    obtain rfl := Option.some.inj h
    exact hfit
  | cons field rest ih =>
    obtain ⟨e, l', he, hl', rfl⟩ := placeFrom_cons_eq_some.mp h
    simp only [placesFit, he, Bool.and_eq_true] at hfit
    have hword : isWord l'.size = true := ih hl' hfit.2.2
    exact hword

/-- The layout of every aggregate is natural. There is none exactly if some field has no size.
Otherwise every field has a slot at a multiple of its alignment, behind the slot of the field
before it and with less padding than its alignment. The alignment of the whole is the largest one
among the fields, and its size the least multiple of that which holds all of them. Words hold the
size if they hold what is computed on the way. The size of every type is a multiple of its
alignment. -/
theorem layout_natural (fields : List MachineType) :
    (layout? fields = none ↔ ∃ field ∈ fields, field.Unsized) ∧
    (∀ l, layout? fields = some l → (∃ slots, l.PlacesIn fields slots) ∧
      (placesFit fields 0 1 = true → isWord l.size = true)) ∧
    ∀ (type : MachineType) (size : Nat), type.size? = some size →
      ∃ align, type.align? = some align ∧ align ∣ size := by
  refine ⟨placeFrom_eq_none_iff fields, fun l hl => ⟨exists_placesIn hl, isWord_size hl⟩, ?_⟩
  intro type size hsize
  obtain ⟨e, he, rfl⟩ := Option.map_eq_some_iff.mp hsize
  exact ⟨e.align, by simp [align?, he], (align_dvd_size type he).2⟩

/-- A field of each kind: a byte, a struct, an odd number of short integers, and no pointers. -/
def mixedFields : List MachineType :=
  [.i8, .struct "Pair" [.i8, .i32], .array 3 .i16, .array 0 .ptr]

theorem layout_natural_mixedFields :
    layout? mixedFields = some ⟨[0, 4, 12, 24], 24, 8⟩ ∧
    (∃ slots, AggregateLayout.PlacesIn ⟨[0, 4, 12, 24], 24, 8⟩ mixedFields slots) ∧
    (struct "Mixed" mixedFields).size? = some 24 ∧
    ∃ align, (struct "Mixed" mixedFields).align? = some align ∧ align ∣ 24 := by
  have hlayout : layout? mixedFields = some ⟨[0, 4, 12, 24], 24, 8⟩ := by decide
  have hsize : (struct "Mixed" mixedFields).size? = some 24 := by decide
  obtain ⟨-, hnatural, hmultiple⟩ := layout_natural mixedFields
  exact ⟨hlayout, (hnatural _ hlayout).1, hsize, hmultiple _ _ hsize⟩

end MachineType

end SsaLowering
