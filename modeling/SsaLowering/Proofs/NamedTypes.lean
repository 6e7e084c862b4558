import Mathlib.Data.String.Basic
import SsaLowering.Code.CodeModule
import SsaLowering.Proofs.Structs

/-!
# Named types

A struct type spells out its fields, and code names the struct only. The two agree as long as
every struct in a type is the one that is declared under its name. A struct is laid out with
the structs before it and no name is declared twice, so whatever a table gives to a source type
contains only structs of the table.
-/

namespace SsaLowering

namespace MachineType

mutual

/-- The types that occur in a type, the type itself among them. -/
def parts : MachineType → List MachineType
  | .array size element => .array size element :: element.parts
  | .function result params isVararg =>
    .function result params isVararg :: (result.parts ++ partsOf params)
  | .struct name fields => .struct name fields :: partsOf fields
  | .void => [.void]
  | .bool => [.bool]
  | .int s w => [.int s w]
  | .float w => [.float w]
  | .ptr => [.ptr]
termination_by structural t => t

def partsOf : List MachineType → List MachineType
  | [] => []
  | t :: rest => t.parts ++ partsOf rest
termination_by structural ts => ts

end

attribute [local simp] parts partsOf

theorem mem_partsOf {part : MachineType} {types : List MachineType} :
    part ∈ partsOf types ↔ ∃ t ∈ types, part ∈ t.parts := by
  induction types with
  | nil => simp
  | cons t types ih => simp [ih]

/-- Every struct in a type is the one that has its name. -/
def Named (types : String → Option MachineType) (t : MachineType) : Prop :=
  ∀ name fields, .struct name fields ∈ t.parts → types name = some (.struct name fields)

section

variable {types types' : String → Option MachineType} {t : MachineType}

@[simp] theorem named_void : Named types .void := by simp [Named]

@[simp] theorem named_bool : Named types .bool := by simp [Named]

@[simp] theorem named_int {s : Signedness} {w : IntWidth} : Named types (.int s w) := by
  simp [Named]

@[simp] theorem named_float {w : FloatWidth} : Named types (.float w) := by simp [Named]

@[simp] theorem named_ptr : Named types .ptr := by simp [Named]

@[simp] theorem named_array {size : Nat} : Named types (.array size t) ↔ Named types t := by
  simp [Named]

@[simp] theorem named_function {params : List MachineType} {isVararg : Bool} :
    Named types (.function t params isVararg) ↔
      Named types t ∧ ∀ param ∈ params, Named types param := by
  simp only [Named, parts, List.mem_cons, reduceCtorEq, List.mem_append, mem_partsOf, false_or]
  constructor
  · exact fun h => ⟨fun name fields hmem => h name fields (.inl hmem),
      fun param hparam name fields hmem => h name fields (.inr ⟨param, hparam, hmem⟩)⟩
  · rintro ⟨hresult, hparams⟩ name fields (hmem | ⟨param, hparam, hmem⟩)
    · exact hresult name fields hmem
    · exact hparams param hparam name fields hmem

theorem named_struct {name : String} {fields : List MachineType} :
    Named types (.struct name fields) ↔
      types name = some (.struct name fields) ∧ ∀ field ∈ fields, Named types field := by
  simp only [Named, parts, List.mem_cons, struct.injEq, mem_partsOf]
  constructor
  · exact fun h => ⟨h name fields (.inl ⟨rfl, rfl⟩),
      fun field hfield name' fields' hmem => h name' fields' (.inr ⟨field, hfield, hmem⟩)⟩
  · rintro ⟨hname, hfields⟩ name' fields' (⟨rfl, rfl⟩ | ⟨field, hfield, hmem⟩)
    · exact hname
    · exact hfields field hfield name' fields' hmem

/-- More names make no difference. -/
theorem Named.mono (h : Named types t)
    (htypes : ∀ name type, types name = some type → types' name = some type) :
    Named types' t :=
  fun name fields hmem => htypes name _ (h name fields hmem)

end

end MachineType

namespace CodeModule

/-- The type that a module gives to a name. -/
def type? (m : CodeModule) (name : String) : Option MachineType := m.types.lookup name

/-- The first entry of a list of names is tried first. -/
theorem lookup_cons_ite {α : Type} (name other : String) (a : α) (entries : List (String × α)) :
    ((name, a) :: entries).lookup other =
      if other = name then some a else entries.lookup other := by
  rw [List.lookup_cons]
  by_cases h : other = name
  · simp [h]
  · simp [h, beq_eq_false_iff_ne.mpr h]

/-- A named type takes the place of an earlier one, and the others stay. -/
theorem lookup_insertType (name : String) (type : MachineType) (other : String)
    (types : List (String × MachineType)) : (insertType name type types).lookup other =
      if other = name then some type else types.lookup other := by
  induction types with
  | nil => exact lookup_cons_ite ..
  | cons entry types ih =>
    obtain ⟨first, firstType⟩ := entry
    rw [insertType]
    split
    · exact lookup_cons_ite ..
    · split
      · next heq =>
        subst heq
        by_cases h : other = name <;> simp only [lookup_cons_ite, h, if_true, if_false]
      · next hne =>
        by_cases h : other = first
        · subst h
          simp only [lookup_cons_ite, if_true, if_neg (Ne.symm hne)]
        · simp only [lookup_cons_ite, if_neg h, ih]

theorem mem_insertType {name : String} {type : MachineType} {types : List (String × MachineType)}
    {entry : String × MachineType} (h : entry ∈ insertType name type types) :
    entry = (name, type) ∨ entry ∈ types := by
  induction types with
  | nil => exact .inl (List.mem_singleton.mp h)
  | cons first types ih =>
    rw [insertType] at h
    split at h
    · exact List.mem_cons.mp h
    · split at h
      · exact (List.mem_cons.mp h).imp_right fun h => List.mem_cons_of_mem _ h
      · rcases List.mem_cons.mp h with rfl | h
        · exact .inr List.mem_cons_self
        · exact (ih h).imp_right fun h => List.mem_cons_of_mem _ h

/-- A type under a new name is one more. -/
theorem perm_insertType {name : String} (type : MachineType) {types : List (String × MachineType)}
    (h : name ∉ types.map Prod.fst) : (insertType name type types).Perm ((name, type) :: types) := by
  induction types with
  | nil => exact .refl _
  | cons first types ih =>
    rw [List.map_cons, List.mem_cons, not_or] at h
    rw [insertType, if_neg h.1]
    split
    · exact .refl _
    · exact ((ih h.2).cons first).trans (.swap ..)

/-- Types stay in the order of their names. -/
theorem sorted_insertType (name : String) (type : MachineType)
    {types : List (String × MachineType)} (h : types.Pairwise fun a b => a.1 < b.1) :
    (insertType name type types).Pairwise fun a b => a.1 < b.1 := by
  induction types with
  | nil => exact List.pairwise_singleton _ _
  | cons first types ih =>
    obtain ⟨hfirst, hrest⟩ := List.pairwise_cons.mp h
    rw [insertType]
    split
    · next hlt =>
      refine List.pairwise_cons.mpr ⟨fun entry hentry => ?_, h⟩
      rcases List.mem_cons.mp hentry with rfl | hentry
      · exact hlt
      · exact lt_trans hlt (hfirst entry hentry)
    · next hnot =>
      split
      · next heq =>
        subst heq
        exact List.pairwise_cons.mpr ⟨hfirst, hrest⟩
      · next hne =>
        refine List.pairwise_cons.mpr ⟨fun entry hentry => ?_, ih hrest⟩
        rcases mem_insertType hentry with rfl | hentry
        · exact lt_of_le_of_ne (not_lt.mp hnot) (Ne.symm hne)
        · exact hfirst entry hentry

end CodeModule

namespace StructTable

open MachineType

variable {table : StructTable} {layout : StructLayout} {t : SourceType}

/-- The type of the struct with the given name. -/
def type? (table : StructTable) (name : String) : Option MachineType :=
  (table.find? name).map (·.type)

/-- No name is declared twice, and the structs of the table contain only each other. -/
structure Sealed (table : StructTable) : Prop where
  nodup : (table.layouts.map (·.name)).Nodup
  named : ∀ layout ∈ table.layouts, layout.type.Named table.type?

theorem sealed_of_layouts_eq_nil (h : table.layouts = []) : table.Sealed :=
  ⟨by simp [h], by simp [h]⟩

theorem named_builtin {types : String → Option MachineType} {name : String} {type : MachineType}
    (h : SourceType.builtin? name = some type) : type.Named types := by
  unfold SourceType.builtin? at h
  split at h <;> cases h <;> simp

/-- Whatever a source type stands for contains only structs of the table. -/
theorem Sealed.named_resolve (h : table.Sealed) (t : SourceType) :
    (table.resolve t).Named table.type? := by
  rcases table.resolve_cases t with ⟨-, heq⟩ | ⟨-, hb⟩ | ⟨-, -, layout, hf, heq⟩ | ⟨-, -, -, heq⟩
  · simp [heq]
  · exact named_builtin hb
  · exact heq ▸ h.named layout (mem_of_find? hf).1
  · simp [heq]

theorem Sealed.named_resolveReturn (h : table.Sealed) (t : SourceType) :
    (table.resolveReturn t).Named table.type? := by
  rw [resolveReturn]
  split
  · simp
  · exact h.named_resolve t

/-- So does the type of a field. -/
theorem Sealed.named_field (h : table.Sealed) (hc : table.Consistent)
    (hlayout : layout ∈ table.layouts) {field : FieldLayout} (hfield : field ∈ layout.fields) :
    field.type.Named table.type? := by
  have hnamed := h.named layout hlayout
  rw [(hc layout hlayout).type_eq, named_struct] at hnamed
  exact hnamed.2 field.type (List.mem_map_of_mem hfield)

theorem type?_append (name : String) :
    type? { table with layouts := table.layouts ++ [layout] } name =
      (table.type? name).or (if layout.name = name then some layout.type else none) := by
  rw [type?, type?, find?, find?, List.find?_append]
  cases table.layouts.find? (·.name == name) with
  | some found => rfl
  | none => by_cases h : layout.name = name <;> simp [h]

/-- A struct under a new name that contains only structs of the table. -/
theorem Sealed.append (h : table.Sealed) (hnew : table.contains layout.name = false)
    (htype : layout.type = .struct layout.name (layout.fields.map (·.type)))
    (hfields : ∀ field ∈ layout.fields, field.type.Named table.type?) :
    Sealed { table with layouts := table.layouts ++ [layout] } := by
  have hnone : table.find? layout.name = none := by simpa [contains] using hnew
  have hgrown : ∀ name type, table.type? name = some type →
      type? { table with layouts := table.layouts ++ [layout] } name = some type := by
    intro name type hname
    rw [type?_append, hname]
    rfl
  constructor
  · rw [List.map_append, List.map_singleton]
    refine List.nodup_append.mpr ⟨h.nodup, by simp, ?_⟩
    rintro name hmem _ hlast rfl
    obtain ⟨l, hl, hname⟩ := List.mem_map.mp hmem
    have hfalse := List.find?_eq_none.mp hnone l hl
    rw [hname, List.mem_singleton.mp hlast] at hfalse
    simp at hfalse
  · intro l hl
    rcases List.mem_append.mp hl with hl | hl
    · exact (h.named l hl).mono hgrown
    · obtain rfl := List.mem_singleton.mp hl
      rw [htype, named_struct, type?_append, type?, hnone]
      refine ⟨by simp [htype], fun type hmem => ?_⟩
      obtain ⟨field, hfield, rfl⟩ := List.mem_map.mp hmem
      exact (hfields field hfield).mono hgrown

end StructTable

end SsaLowering
