import SsaLowering.Proofs.FirstDeclarations

/-!
# Registering interfaces and structs

A table of structs is filled by calls, in any order and with any names. What a call adds stays as
it is, and a call that fails adds nothing. As each struct is laid out with those before it, a
layout keeps the declaration it was made for and the types that the structs before it have.
-/

namespace SsaLowering

/-- A declaration that is handed to a table. -/
inductive Registration where
  | interface (decl : InterfaceDecl)
  | struct (decl : StructDecl)

/-- A table and the log to which it reports. -/
structure Registry where
  table : StructTable
  log : DiagnosticLog

/-- What a layout keeps of its declaration, and of the structs that were laid out earlier. -/
structure StructLayout.Records (layout : StructLayout) (earlier : List StructLayout)
    (decl : StructDecl) : Prop extends layout.Draws decl where
  interface : layout.interface = decl.interface
  indices : layout.fields.map (·.index) = List.range decl.fields.length
  type_eq : layout.type = .struct layout.name (layout.fields.map (·.type))
  placed : MachineType.layout? (layout.fields.map (·.type)) =
    some ⟨layout.fields.map (·.offset), layout.size, layout.align⟩
  inner : ∀ field ∈ layout.fields, ∀ inner ∈ earlier, field.source.isPointer = false →
    field.source.name = inner.name → SourceType.builtin? inner.name = none →
    field.type = inner.type

/-- The size of a struct is the padded size of its type. -/
theorem StructLayout.Records.size_eq {layout : StructLayout} {earlier : List StructLayout}
    {decl : StructDecl} (h : layout.Records earlier decl) :
    layout.type.size? = some layout.size := by
  have hplaced := h.placed
  rw [MachineType.layout?] at hplaced
  simp [h.type_eq, MachineType.size?, MachineType.extent?, hplaced]

namespace StructTable

variable {table : StructTable} {decl : StructDecl} {layout : StructLayout} {log : DiagnosticLog}

theorem map_offset_fieldLayouts (start : Nat) {fields : List FieldDecl}
    {types : List MachineType} {offsets : List Nat} (ht : types.length = fields.length)
    (ho : offsets.length = fields.length) :
    (fieldLayouts start fields types offsets).map (·.offset) = offsets := by
  induction fields generalizing start types offsets with
  | nil =>
    obtain rfl := List.eq_nil_of_length_eq_zero ho
    simp [fieldLayouts]
  | cons field fields ih =>
    obtain ⟨type, types, rfl⟩ := List.exists_cons_of_length_eq_add_one ht
    obtain ⟨offset, offsets, rfl⟩ := List.exists_cons_of_length_eq_add_one ho
    rw [fieldLayouts, List.map_cons, ih (start + 1) (by simpa using ht) (by simpa using ho)]

/-- Where no two structs share a name, a layout keeps its declaration. -/
theorem records_of_layout? (hnames : (table.layouts.map (·.name)).Nodup)
    (h : table.layout? decl = some layout) : layout.Records table.layouts decl := by
  have hdraws := draws_of_layout? h
  obtain ⟨l, hl, rfl⟩ := Option.map_eq_some_iff.mp h
  let types := decl.fields.map fun field => table.resolve field.type
  have ht : types.length = decl.fields.length := List.length_map _
  have ho : l.offsets.length = decl.fields.length := (MachineType.length_offsets hl).trans ht
  obtain ⟨htypes, hsources, hindices⟩ := fieldLayouts_eq 0 ht ho
  have hoffsets := map_offset_fieldLayouts 0 ht ho
  refine ⟨hdraws, rfl, ?_, ?_, ?_, ?_⟩
  · rw [List.range_eq_range']
    exact hindices
  · rw [htypes]
  · rw [htypes, hoffsets]
    exact hl
  · intro field hfield inner hinner hp hname hb
    -- The types of the fields are what their source types stand for in the table.
    have hresolved : field.type = table.resolve field.source := by
      have heq : (fieldLayouts 0 decl.fields types l.offsets).map (·.type) =
          (fieldLayouts 0 decl.fields types l.offsets).map (table.resolve ∘ (·.source)) := by
        rw [htypes, ← List.map_map, hsources, List.map_map]
        rfl
      exact List.map_inj_left.mp heq field hfield
    have hfind : table.find? inner.name = some inner := find?_of_nodup _ hnames hinner
    rw [hresolved]
    simp [resolve, hp, hname, hb, hfind]

theorem define_of_contains (log : DiagnosticLog) (h : table.contains decl.name = true) :
    table.define decl log =
      (.error ⟨.redefinition .struct decl.name, decl.location⟩, log) := by
  rw [define, if_pos h]

/-- Under a new name, a struct is always laid out, as every field has a size. -/
theorem Consistent.define_of_new (hc : table.Consistent) (log : DiagnosticLog)
    (h : table.contains decl.name = false) :
    ∃ layout, table.layout? decl = some layout ∧ layout.Consistent ∧
      table.define decl log =
        (.ok (layout, { table with layouts := table.layouts ++ [layout] }),
          (table.warnings decl).foldl
            (fun log w => log.report (w.toDiagnostic decl.location)) log) := by
  obtain ⟨layout, hlayout, -, hlayoutc, -⟩ := hc.exists_layout decl
  refine ⟨layout, hlayout, hlayoutc, ?_⟩
  rw [define, if_neg (by simp [h])]
  simp only [hlayout]

end StructTable

namespace Registry

open StructTable

/-- The answer to a declaration, and the registry after it. A struct is answered with its
layout. -/
def register (r : Registry) :
    Registration → Except LoweringError (Option StructLayout) × Registry
  | .interface decl =>
    match r.table.declareInterface decl with
    | .ok table => (.ok none, { r with table })
    | .error e => (.error e, r)
  | .struct decl =>
    match r.table.define decl r.log with
    | (.ok (layout, table), log) => (.ok (some layout), ⟨table, log⟩)
    | (.error e, log) => (.error e, { r with log })

/-- The registry after some calls that start from no declarations. -/
def run (log : DiagnosticLog) (calls : List Registration) : Registry :=
  calls.foldl (fun r call => (r.register call).2) ⟨.empty, log⟩

/-- The layouts of a registry are consistent, and no two of them share a name. -/
structure Sound (r : Registry) : Prop where
  consistent : r.table.Consistent
  names_nodup : (r.table.layouts.map (·.name)).Nodup

variable {r : Registry}

/-- An interface is refused if its name is taken, and otherwise added. -/
theorem register_interface (r : Registry) (decl : InterfaceDecl) :
    (r.table.hasInterface decl.name = true ∧ r.register (.interface decl) =
      (.error ⟨.redefinition .interface decl.name, decl.location⟩, r)) ∨
    (r.table.hasInterface decl.name = false ∧ r.register (.interface decl) =
      (.ok none, { r with
        table := { r.table with interfaces := r.table.interfaces ++ [decl] } })) := by
  cases h : r.table.hasInterface decl.name with
  | true => exact .inl ⟨rfl, by simp only [register, declareInterface, h, if_true]⟩
  | false =>
    refine .inr ⟨rfl, ?_⟩
    simp only [register, declareInterface, h, Bool.false_eq_true, if_false]

/-- A struct is refused if its name is taken, and otherwise laid out and added. -/
theorem Sound.register_struct (h : r.Sound) (decl : StructDecl) :
    (r.table.contains decl.name = true ∧ r.register (.struct decl) =
      (.error ⟨.redefinition .struct decl.name, decl.location⟩, r)) ∨
    (r.table.contains decl.name = false ∧ ∃ layout log,
      layout.Consistent ∧ layout.Records r.table.layouts decl ∧ r.register (.struct decl) =
        (.ok (some layout), ⟨{ r.table with layouts := r.table.layouts ++ [layout] }, log⟩)) := by
  cases hnew : r.table.contains decl.name with
  | true => exact .inl ⟨rfl, by simp only [register, define_of_contains r.log hnew]⟩
  | false =>
    obtain ⟨layout, hlayout, hc, heq⟩ := h.consistent.define_of_new r.log hnew
    have hrecords := records_of_layout? h.names_nodup hlayout
    exact .inr ⟨rfl, layout, _, hc, hrecords, by simp only [register, heq]; rfl⟩

/-- A call that fails changes nothing. -/
theorem Sound.register_of_error (h : r.Sound) {call : Registration} {e : LoweringError}
    (he : (r.register call).1 = .error e) : (r.register call).2 = r := by
  cases call with
  | interface decl =>
    rcases r.register_interface decl with ⟨-, heq⟩ | ⟨-, heq⟩
    · rw [heq]
    · cases heq ▸ he
  | struct decl =>
    rcases h.register_struct decl with ⟨-, heq⟩ | ⟨-, layout, log, -, -, heq⟩
    · rw [heq]
    · cases heq ▸ he

/-- A call adds at most one layout, which bears a new name. -/
theorem Sound.layouts_register (h : r.Sound) (call : Registration) :
    (r.register call).2.table.layouts = r.table.layouts ∨
    ∃ decl layout, call = .struct decl ∧ layout.Consistent ∧ layout.name ∉
      r.table.layouts.map (·.name) ∧ layout.Records r.table.layouts decl ∧
      (r.register call).2.table.layouts = r.table.layouts ++ [layout] := by
  cases call with
  | interface decl =>
    rcases r.register_interface decl with ⟨-, heq⟩ | ⟨-, heq⟩ <;> exact .inl (by rw [heq])
  | struct decl =>
    rcases h.register_struct decl with ⟨-, heq⟩ | ⟨hnew, layout, log, hc, hrecords, heq⟩
    · exact .inl (by rw [heq])
    · refine .inr ⟨decl, layout, rfl, hc, ?_, hrecords, by rw [heq]⟩
      rw [hrecords.name, ← contains_iff, hnew]
      exact Bool.false_ne_true

theorem Sound.register (h : r.Sound) (call : Registration) : (r.register call).2.Sound := by
  rcases h.layouts_register call with heq | ⟨decl, layout, -, hc, hnew, -, heq⟩
  · exact ⟨fun l hl => h.consistent l (heq ▸ hl), heq ▸ h.names_nodup⟩
  · refine ⟨fun l hl => ?_, ?_⟩
    · rw [heq, List.mem_append, List.mem_singleton] at hl
      rcases hl with hl | rfl
      · exact h.consistent l hl
      · exact hc
    · rw [heq, List.map_append, List.map_singleton, List.nodup_append]
      refine ⟨h.names_nodup, List.nodup_singleton _, ?_⟩
      rintro n hn m hm rfl
      exact hnew (List.mem_singleton.mp hm ▸ hn)

/-- A call leaves what is registered in its place. -/
theorem Sound.isPrefix_register (h : r.Sound) (call : Registration) :
    r.table.layouts <+: (r.register call).2.table.layouts ∧
      r.table.interfaces <+: (r.register call).2.table.interfaces := by
  cases call with
  | interface decl =>
    rcases r.register_interface decl with ⟨-, heq⟩ | ⟨-, heq⟩ <;> simp [heq]
  | struct decl =>
    rcases h.register_struct decl with ⟨-, heq⟩ | ⟨-, layout, log, -, -, heq⟩ <;> simp [heq]

variable (log : DiagnosticLog) (calls : List Registration)

theorem run_append_singleton (call : Registration) :
    run log (calls ++ [call]) = ((run log calls).register call).2 := by
  simp [run]

theorem sound_run : (run log calls).Sound :=
  List.foldlRecOn (motive := Sound) calls _ ⟨nofun, List.nodup_nil⟩
    fun _ h call _ => h.register call

/-- What is registered stays registered, in its place, and further calls add to it. -/
theorem isPrefix_run (later : List Registration) :
    (run log calls).table.layouts <+: (run log (calls ++ later)).table.layouts ∧
      (run log calls).table.interfaces <+: (run log (calls ++ later)).table.interfaces := by
  induction later using List.reverseRecOn with
  | nil => simp
  | append_singleton later call ih =>
    obtain ⟨hlayouts, hinterfaces⟩ := (sound_run log (calls ++ later)).isPrefix_register call
    rw [← List.append_assoc, run_append_singleton]
    exact ⟨ih.1.trans hlayouts, ih.2.trans hinterfaces⟩

/-- Every layout comes from the call that declared its struct, and was made with the layouts
that stand before it. -/
theorem exists_call {earlier later : List StructLayout} {layout : StructLayout}
    (h : (run log calls).table.layouts = earlier ++ layout :: later) :
    ∃ before decl after, calls = before ++ .struct decl :: after ∧
      (run log before).table.layouts = earlier ∧ layout.Records earlier decl := by
  induction calls using List.reverseRecOn generalizing later with
  | nil => simp [run, StructTable.empty] at h
  | append_singleton calls call ih =>
    rw [run_append_singleton] at h
    rcases (sound_run log calls).layouts_register call with
      heq | ⟨decl, new, rfl, -, -, hrecords, heq⟩
    · obtain ⟨before, decl, after, rfl, hearlier, hrecords⟩ := ih (heq.symm.trans h)
      exact ⟨before, decl, after ++ [call], by simp, hearlier, hrecords⟩
    · rw [heq] at h
      rcases List.eq_nil_or_concat' later with rfl | ⟨later, last, rfl⟩
      · obtain ⟨rfl, hnew⟩ := List.append_inj' h rfl
        obtain rfl : new = layout := List.singleton_inj.mp hnew
        exact ⟨calls, decl, [], rfl, rfl, hrecords⟩
      · have hsplit : (run log calls).table.layouts ++ [new] =
            (earlier ++ layout :: later) ++ [last] := by simp [h]
        obtain ⟨before, decl, after, rfl, hearlier, hrecords⟩ := ih (List.append_inj' hsplit rfl).1
        exact ⟨before, decl, _, List.append_assoc _ _ _, hearlier, hrecords⟩

theorem Sound.find?_eq (h : r.Sound) {layout : StructLayout} (hmem : layout ∈ r.table.layouts) :
    r.table.find? layout.name = some layout :=
  find?_of_nodup _ h.names_nodup hmem

/-- However a table is filled, no call changes a layout of an earlier call or the struct that is
found under a name, a call that fails leaves the table and the log as they were, a declaration
fails if and only if its name is taken, and otherwise its struct is found under its name. Every
layout belongs to the call that declared its struct. It has the fields that were declared, numbered
from zero, it lies as its type lies in memory, and a field that holds a struct registered earlier
has the type of that struct. -/
theorem registrations_kept :
    (∀ later, (run log calls).table.layouts <+: (run log (calls ++ later)).table.layouts ∧
      (run log calls).table.interfaces <+: (run log (calls ++ later)).table.interfaces) ∧
    (∀ later name layout, (run log calls).table.find? name = some layout →
      (run log (calls ++ later)).table.find? name = some layout) ∧
    (∀ call e, ((run log calls).register call).1 = .error e →
      ((run log calls).register call).2 = run log calls) ∧
    (∀ decl, (∃ e, ((run log calls).register (.struct decl)).1 = .error e) ↔
      (run log calls).table.contains decl.name = true) ∧
    (∀ decl, (∃ e, ((run log calls).register (.interface decl)).1 = .error e) ↔
      (run log calls).table.hasInterface decl.name = true) ∧
    (∀ decl answer, ((run log calls).register (.struct decl)).1 = .ok answer →
      ∃ layout, answer = some layout ∧
        (run log (calls ++ [.struct decl])).table.find? decl.name = some layout) ∧
    ∀ earlier layout later, (run log calls).table.layouts = earlier ++ layout :: later →
      (run log calls).table.find? layout.name = some layout ∧
      (run log calls).table.sizeOf? layout.name = layout.type.size? ∧
      ∃ before decl after, calls = before ++ .struct decl :: after ∧
        (run log before).table.layouts = earlier ∧ layout.Records earlier decl := by
  have hsound := sound_run log calls
  refine ⟨isPrefix_run log calls, fun later name layout hfind => ?_, fun call e he => ?_,
    fun decl => ?_, fun decl => ?_, fun decl answer hanswer => ?_,
    fun earlier layout later hsplit => ?_⟩
  · obtain ⟨hmem, rfl⟩ := mem_of_find? hfind
    exact (sound_run log (calls ++ later)).find?_eq ((isPrefix_run log calls later).1.subset hmem)
  · exact hsound.register_of_error he
  · rcases hsound.register_struct decl with ⟨htaken, heq⟩ | ⟨hnew, layout, log', -, -, heq⟩
    · simp [heq, htaken]
    · simp [heq, hnew]
  · rcases (run log calls).register_interface decl with ⟨htaken, heq⟩ | ⟨hnew, heq⟩
    · simp [heq, htaken]
    · simp [heq, hnew]
  · rcases hsound.register_struct decl with ⟨-, heq⟩ | ⟨-, layout, log', -, hrecords, heq⟩
    · cases heq ▸ hanswer
    · obtain rfl : some layout = answer := Except.ok.inj (heq ▸ hanswer)
      have hmem : layout ∈ (run log (calls ++ [.struct decl])).table.layouts := by
        simp [run_append_singleton, heq]
      exact ⟨layout, rfl, hrecords.name ▸ (sound_run log _).find?_eq hmem⟩
  · obtain ⟨before, decl, after, hcalls, hearlier, hrecords⟩ := exists_call log calls hsplit
    have hmem : layout ∈ (run log calls).table.layouts := by simp [hsplit]
    have hfind := hsound.find?_eq hmem
    refine ⟨hfind, ?_, before, decl, after, hcalls, hearlier, hrecords⟩
    rw [sizeOf?, hfind, hrecords.size_eq]
    rfl

end Registry

end SsaLowering
