import SsaLowering.Proofs.UnitTyping
import Mathlib.Data.List.Forall2

/-!
# First declarations

Where a name is declared several times, the first declaration counts. The structs of a unit are
laid out for the first declarations of their names, field by field as they were declared.
-/

namespace SsaLowering

section FirstBy

variable {α : Type} (name : α → String)

/-- The items whose names no earlier item has, in order. -/
def firstsBy (l : List α) : List α := l.eraseDupsBy fun a b => name a == name b

@[simp] theorem firstsBy_nil : firstsBy name [] = [] := rfl

theorem firstsBy_cons (a : α) (l : List α) :
    firstsBy name (a :: l) = a :: firstsBy name (l.filter (name · ≠ name a)) := by
  simp only [firstsBy, List.eraseDupsBy_cons, beq_eq_false_iff_ne]

/-- An item that comes last is a first one if its name is new. -/
theorem firstsBy_append_singleton (l : List α) (a : α) :
    firstsBy name (l ++ [a]) =
      if name a ∈ l.map name then firstsBy name l else firstsBy name l ++ [a] := by
  induction h : l.length using Nat.strong_induction_on generalizing l with
  | _ n ih =>
    cases l with
    | nil => simp [firstsBy_cons]
    | cons b l =>
      rw [List.cons_append, firstsBy_cons, firstsBy_cons, List.filter_append]
      by_cases hname : name a = name b
      · simp [hname]
      · have hlength : (l.filter (name · ≠ name b)).length < n := by
          rw [← h, List.length_cons]
          exact Nat.lt_succ_of_le (List.length_filter_le _ _)
        have hmem : name a ∈ (l.filter (name · ≠ name b)).map name ↔
            name a ∈ (b :: l).map name := by
          simp only [List.mem_map, List.mem_filter, List.map_cons, List.mem_cons, hname, false_or,
            decide_eq_true_eq]
          exact exists_congr fun c => ⟨fun ⟨⟨hc, _⟩, heq⟩ => ⟨hc, heq⟩,
            fun ⟨hc, heq⟩ => ⟨⟨hc, heq ▸ hname⟩, heq⟩⟩
        rw [show [a].filter (name · ≠ name b) = [a] by simp [hname], ih _ hlength _ rfl]
        simp only [hmem]
        split <;> rfl

theorem mem_map_firstsBy {l : List α} {n : String} :
    n ∈ (firstsBy name l).map name ↔ n ∈ l.map name := by
  induction l using List.reverseRecOn with
  | nil => rfl
  | append_singleton l a ih =>
    rw [firstsBy_append_singleton]
    by_cases hname : name a ∈ l.map name
    · rw [if_pos hname, ih, List.map_append, List.mem_append]
      refine ⟨.inl, fun h => h.elim id fun h => ?_⟩
      rwa [List.mem_singleton.mp h]
    · rw [if_neg hname, List.map_append, List.map_append, List.mem_append, List.mem_append, ih]

/-- No two first items have the same name. -/
theorem nodup_firstsBy (l : List α) : ((firstsBy name l).map name).Nodup := by
  induction l using List.reverseRecOn with
  | nil => exact List.nodup_nil
  | append_singleton l a ih =>
    rw [firstsBy_append_singleton]
    split
    · exact ih
    · next hname =>
      rw [List.map_append, List.nodup_append]
      refine ⟨ih, List.nodup_singleton _, ?_⟩
      rintro n hn m hm rfl
      rw [List.map_singleton, List.mem_singleton] at hm
      exact hname (hm ▸ (mem_map_firstsBy name).mp hn)

/-- What is found first under a name is the first item of that name. -/
theorem find?_firstsBy (l : List α) (n : String) :
    (firstsBy name l).find? (name · == n) = l.find? (name · == n) := by
  induction l using List.reverseRecOn with
  | nil => rfl
  | append_singleton l a ih =>
    rw [firstsBy_append_singleton, List.find?_append]
    split
    · next hname =>
      rw [ih]
      by_cases ha : name a = n
      · obtain ⟨b, hb, heq⟩ := List.mem_map.mp (ha ▸ hname)
        cases hfind : l.find? (name · == n) with
        | some c => rfl
        | none => exact absurd heq (by simpa using List.find?_eq_none.mp hfind b hb)
      · simp [ha]
    · rw [List.find?_append, ih]

/-- Among items of different names, each is the one that is found under its name. -/
theorem find?_of_nodup {l : List α} (hnodup : (l.map name).Nodup) {a : α} (h : a ∈ l) :
    l.find? (name · == name a) = some a := by
  induction l with
  | nil => cases h
  | cons b l ih =>
    rw [List.map_cons, List.nodup_cons] at hnodup
    rcases List.mem_cons.mp h with rfl | h
    · simp
    · have hne : name b ≠ name a := fun heq => hnodup.1 (heq ▸ List.mem_map_of_mem h)
      rw [List.find?_cons_of_neg (by simpa using hne)]
      exact ih hnodup.2 h

/-- A first item is the one that is found under its name. -/
theorem find?_of_mem_firstsBy {l : List α} {a : α} (h : a ∈ firstsBy name l) :
    l.find? (name · == name a) = some a := by
  rw [← find?_firstsBy]
  exact find?_of_nodup name (nodup_firstsBy name l) h

/-- Items of different names are all first ones. -/
theorem firstsBy_of_nodup {l : List α} (h : (l.map name).Nodup) : firstsBy name l = l := by
  induction l using List.reverseRecOn with
  | nil => rfl
  | append_singleton l a ih =>
    rw [List.map_append, List.nodup_append] at h
    have hname : name a ∉ l.map name := fun hmem => h.2.2 _ hmem _ (by simp) rfl
    rw [firstsBy_append_singleton, if_neg hname, ih h.1]

end FirstBy

/-- What stands in one of two related lists is related to something in the other. -/
theorem exists_of_forall₂ {α β : Type} {R : α → β → Prop} {l : List α} {l' : List β}
    (h : List.Forall₂ R l l') {a : α} (ha : a ∈ l) : ∃ b ∈ l', R a b := by
  induction h with
  | nil => cases ha
  | cons hab _ ih =>
    rcases List.mem_cons.mp ha with rfl | ha
    · exact ⟨_, List.mem_cons_self, hab⟩
    · obtain ⟨b, hb, hab⟩ := ih ha
      exact ⟨b, List.mem_cons_of_mem _ hb, hab⟩

/-! ## Structs -/

/-- What a field was declared as. -/
def FieldLayout.declared (field : FieldLayout) : FieldDecl :=
  ⟨field.name, field.source, field.isPublic⟩

/-- A struct is laid out for a declaration: it has its name and its fields, in order. -/
structure StructLayout.Draws (layout : StructLayout) (decl : StructDecl) : Prop where
  name : layout.name = decl.name
  fields : layout.fields.map (·.declared) = decl.fields

namespace StructTable

variable {table : StructTable} {layout : StructLayout} {decl : StructDecl}

theorem map_declared_fieldLayouts (start : Nat) {fields : List FieldDecl}
    {types : List MachineType} {offsets : List Nat} (ht : types.length = fields.length)
    (ho : offsets.length = fields.length) :
    (fieldLayouts start fields types offsets).map (·.declared) = fields := by
  induction fields generalizing start types offsets with
  | nil => simp [fieldLayouts]
  | cons field fields ih =>
    obtain ⟨type, types, rfl⟩ := List.exists_cons_of_length_eq_add_one ht
    obtain ⟨offset, offsets, rfl⟩ := List.exists_cons_of_length_eq_add_one ho
    rw [fieldLayouts, List.map_cons, ih (start + 1) (by simpa using ht) (by simpa using ho)]
    rfl

theorem draws_of_layout? (h : table.layout? decl = some layout) : layout.Draws decl := by
  obtain ⟨l, hl, rfl⟩ := Option.map_eq_some_iff.mp h
  have htypes : (decl.fields.map fun field => table.resolve field.type).length =
      decl.fields.length := List.length_map _
  exact ⟨rfl, map_declared_fieldLayouts 0 htypes ((MachineType.length_offsets hl).trans htypes)⟩

theorem names_of_draws {layouts : List StructLayout} {decls : List StructDecl}
    (h : List.Forall₂ StructLayout.Draws layouts decls) :
    layouts.map (·.name) = decls.map (·.name) := by
  rw [← List.forall₂_eq_eq_eq, List.forall₂_map_left_iff, List.forall₂_map_right_iff]
  exact h.imp fun _ _ hdraws => hdraws.name

theorem contains_iff (table : StructTable) (name : String) :
    table.contains name = true ↔ name ∈ table.layouts.map (·.name) := by
  simp [contains, find?, List.find?_isSome]

end StructTable

open UnitState

/-- Interfaces change nothing about structs. -/
theorem UnitState.layouts_addInterface (s : UnitState) (decl : InterfaceDecl) :
    (s.addInterface decl).structs.layouts = s.structs.layouts := by
  rcases s.addInterface_cases decl with ⟨e, -, heq⟩ | ⟨interfaces, heq⟩
  · rw [heq]
    rfl
  · rw [heq]

namespace Program

variable {p : Program}

theorem layouts_interfaces (p : Program) (moduleName : String) (log : DiagnosticLog) :
    (p.interfaces.foldl addInterface (initial moduleName log)).structs.layouts = [] :=
  List.foldlRecOn (motive := fun s : UnitState => s.structs.layouts = []) p.interfaces _ rfl
    fun s hs decl _ => (s.layouts_addInterface decl).trans hs

theorem hasInterface_iff (table : StructTable) (name : String) :
    table.hasInterface name = true ↔ name ∈ table.interfaces.map (·.name) := by
  simp [StructTable.hasInterface]

/-- Interfaces are known by their first declarations. -/
theorem interfaces_foldl_addInterface (moduleName : String) (log : DiagnosticLog)
    (decls : List InterfaceDecl) :
    (decls.foldl addInterface (initial moduleName log)).structs.interfaces =
      firstsBy (·.name) decls := by
  induction decls using List.reverseRecOn with
  | nil => rfl
  | append_singleton decls decl ih =>
    rw [List.foldl_append, List.foldl_cons, List.foldl_nil, firstsBy_append_singleton]
    generalize decls.foldl addInterface (initial moduleName log) = s at ih ⊢
    have hiff := hasInterface_iff s.structs decl.name
    rw [ih, mem_map_firstsBy] at hiff
    cases hnew : s.structs.hasInterface decl.name with
    | true =>
      rw [addInterface_of_repeated hnew, if_pos (hiff.mp hnew)]
      exact ih
    | false =>
      rw [addInterface_of_new hnew, if_neg fun hmem => by simp [hiff.mpr hmem] at hnew, ← ih]

/-- Structs are laid out for their first declarations. -/
theorem draws_foldl_addStruct (p : Program) (moduleName : String) (log : DiagnosticLog)
    (decls : List StructDecl) :
    List.Forall₂ StructLayout.Draws (decls.foldl addStruct
        (p.interfaces.foldl addInterface (initial moduleName log))).structs.layouts
      (firstsBy (·.name) decls) := by
  induction decls using List.reverseRecOn with
  | nil =>
    rw [List.foldl_nil, layouts_interfaces]
    exact .nil
  | append_singleton decls decl ih =>
    have hbare : (decls.foldl addStruct
        (p.interfaces.foldl addInterface (initial moduleName log))).Bare False :=
      List.foldlRecOn decls _ (p.bare_interfaces moduleName log)
        fun _ hs _ _ => hs.addStruct False.elim
    rw [List.foldl_append, List.foldl_cons, List.foldl_nil, firstsBy_append_singleton]
    generalize decls.foldl addStruct _ = s at ih hbare ⊢
    have hcontains : s.structs.contains decl.name = true ↔ decl.name ∈ decls.map (·.name) := by
      rw [StructTable.contains_iff, StructTable.names_of_draws ih, mem_map_firstsBy]
    cases hnew : s.structs.contains decl.name with
    | true =>
      rw [addStruct_of_repeated hnew, if_pos (hcontains.mp hnew)]
      exact ih
    | false =>
      obtain ⟨layout, log, hlayout, -, heq⟩ := addStruct_of_new hbare.consistent hnew
      rw [heq, if_neg fun hmem => by simp [hcontains.mpr hmem] at hnew]
      exact List.rel_append ih (.cons (StructTable.draws_of_layout? hlayout) .nil)

/-- The structs of a unit are laid out for the first struct declarations of its program. -/
theorem draws_laidOut (p : Program) (moduleName : String) (log : DiagnosticLog) :
    List.Forall₂ StructLayout.Draws (p.laidOut moduleName log).structs.layouts
      (firstsBy (·.name) p.structs) :=
  p.draws_foldl_addStruct moduleName log p.structs

/-- Functions are declared by their first declarations. -/
theorem decls_foldl_addFunction (s : UnitState) (decls : List (FunctionDecl Statement)) :
    (decls.foldl addFunction (s, [])).2.map (·.decl) = firstsBy (·.name) decls := by
  induction decls using List.reverseRecOn with
  | nil => rfl
  | append_singleton decls decl ih =>
    rw [List.foldl_append, List.foldl_cons, List.foldl_nil, firstsBy_append_singleton]
    generalize decls.foldl UnitState.addFunction (s, []) = acc at ih ⊢
    obtain ⟨s', declared⟩ := acc
    have hnames : declared.map (·.decl.name) = (firstsBy (·.name) decls).map (·.name) := by
      rw [← ih, List.map_map]
      rfl
    rcases s'.addFunction_cases declared decl with
      ⟨hmem, e, -, heq⟩ | ⟨hmem, d, log, -, hd, -, heq⟩
    · rw [hnames, mem_map_firstsBy] at hmem
      rw [heq, if_pos hmem]
      exact ih
    · rw [hnames, mem_map_firstsBy] at hmem
      rw [heq, if_neg hmem, ← hd, ← ih, List.map_append]
      rfl

theorem decls_declare (p : Program) (moduleName : String) (log : DiagnosticLog) :
    (p.declare moduleName log).2.map (·.decl) = firstsBy (·.name) p.functions :=
  decls_foldl_addFunction _ p.functions

end Program

end SsaLowering
