import SsaLowering.Proofs.FirstDeclarations
import Mathlib.Data.List.Pairwise

/-!
# Accesses to structs

The type of a field is fixed when its struct is declared, but the struct behind a member is
looked up by its name when the member is accessed. The two agree if no struct has a built-in
name and every struct is declared before the structs that contain it. Then a field is only
ever addressed in storage for its struct, and an allocation requests enough bytes.
-/

namespace SsaLowering

/-- The struct has a field of the given type that is no pointer. -/
def StructDecl.Contains (decl : StructDecl) (name : String) : Prop :=
  ∃ field ∈ decl.fields, field.type.isPointer = false ∧ field.type.name = name

instance (decl : StructDecl) (name : String) : Decidable (decl.Contains name) :=
  inferInstanceAs (Decidable (∃ field ∈ decl.fields, field.type.isPointer = false ∧
    field.type.name = name))

/-- No struct has a built-in name, and every struct is declared before the structs that contain
it. -/
structure Program.Ordered (p : Program) : Prop where
  names : ∀ decl ∈ p.structs, SourceType.builtin? decl.name = none
  acyclic : ∀ decl ∈ p.structs, ¬ decl.Contains decl.name
  order : p.structs.Pairwise fun earlier later => ¬ earlier.Contains later.name

/-! ## Settled tables -/

namespace StructTable

variable {table : StructTable} {layout : StructLayout} {t : SourceType}

/-- A new struct makes a difference only for its own name. -/
theorem resolve_append (h : t.isPointer = false → t.name ≠ layout.name) :
    StructTable.resolve { table with layouts := table.layouts ++ [layout] } t =
      table.resolve t := by
  cases hp : t.isPointer with
  | true => rw [resolve_of_pointer hp, resolve_of_pointer hp]
  | false =>
    have hfind : StructTable.find? { table with layouts := table.layouts ++ [layout] } t.name =
        table.find? t.name := by
      have hname : (layout.name == t.name) = false :=
        beq_eq_false_iff_ne.mpr (h hp).symm
      simp [find?, List.find?_append, hname]
    rw [resolve, resolve, hfind]

/-- A struct that contains neither itself nor is contained in a struct before it. -/
theorem Settled.append (h : table.Settled) (hname : SourceType.builtin? layout.name = none)
    (hfields : ∀ field ∈ layout.fields, field.type = table.resolve field.source)
    (hfree : ∀ l ∈ layout :: table.layouts, ∀ field ∈ l.fields, field.source.isPointer = false →
      field.source.name ≠ layout.name) :
    StructTable.Settled { table with layouts := table.layouts ++ [layout] } where
  names := by
    intro l hl
    rcases List.mem_append.mp hl with hl | hl
    · exact h.names l hl
    · rwa [List.mem_singleton.mp hl]
  fields := by
    intro l hl field hfield
    rcases List.mem_append.mp hl with hl | hl
    · rw [resolve_append (hfree l (by simp [hl]) field hfield)]
      exact h.fields l hl field hfield
    · obtain rfl := List.mem_singleton.mp hl
      rw [resolve_append (hfree l (by simp) field hfield)]
      exact hfields field hfield

end StructTable

namespace UnitState

variable {s : UnitState} {exact : Prop}

/-- The structs so far are settled, and the structs to come are not contained in them. -/
structure Prepared (s : UnitState) (decls : List StructDecl) : Prop where
  bare : s.Bare False
  settled : s.structs.Settled
  free : ∀ l ∈ s.structs.layouts, ∀ field ∈ l.fields, field.source.isPointer = false →
    ∀ decl ∈ decls, field.source.name ≠ decl.name

theorem Prepared.addStruct {decl : StructDecl} {decls : List StructDecl}
    (h : s.Prepared (decl :: decls)) (hname : SourceType.builtin? decl.name = none)
    (hself : ¬ decl.Contains decl.name) (hlaters : ∀ later ∈ decls, ¬ decl.Contains later.name) :
    (s.addStruct decl).Prepared decls := by
  have hbare : (s.addStruct decl).Bare False := h.bare.addStruct False.elim
  have hfree : ∀ l ∈ s.structs.layouts, ∀ field ∈ l.fields, field.source.isPointer = false →
      ∀ later ∈ decls, field.source.name ≠ later.name :=
    fun l hl field hfield hp later hlater => h.free l hl field hfield hp later (by simp [hlater])
  rcases addStruct_cases h.bare.consistent decl with
    ⟨e, -, heq⟩ | ⟨layout, log, -, hlayout, -, heq⟩
  · refine ⟨hbare, ?_, ?_⟩
    all_goals rw [heq]
    · exact h.settled
    · exact hfree
  · obtain ⟨layout', hlayout', hlname, -, hsources, hresolved⟩ :=
      h.bare.consistent.exists_layout decl
    obtain rfl := Option.some.inj (hlayout.symm.trans hlayout')
    have hcontains {field : FieldLayout} (hfield : field ∈ layout.fields)
        (hpointer : field.source.isPointer = false) : decl.Contains field.source.name := by
      have hmem : field.source ∈ decl.fields.map (·.type) := hsources ▸ List.mem_map_of_mem hfield
      obtain ⟨declared, hdeclared, heq⟩ := List.mem_map.mp hmem
      exact ⟨declared, hdeclared, heq ▸ hpointer, heq ▸ rfl⟩
    refine ⟨hbare, ?_, ?_⟩
    all_goals rw [heq]
    · refine h.settled.append (hlname ▸ hname) hresolved fun l hl field hfield hp => ?_
      rw [hlname]
      rcases List.mem_cons.mp hl with rfl | hl
      · exact fun hself' => hself (hself' ▸ hcontains hfield hp)
      · exact h.free l hl field hfield hp decl (by simp)
    · intro l hl field hfield hp later hlater
      rcases List.mem_append.mp hl with hl | hl
      · exact hfree l hl field hfield hp later hlater
      · obtain rfl := List.mem_singleton.mp hl
        exact fun heq => hlaters later hlater (heq ▸ hcontains hfield hp)

end UnitState

open UnitState in
/-- An ordered program has a settled table. -/
theorem Program.settled_laidOut {p : Program} (h : p.Ordered) (moduleName : String)
    (log : DiagnosticLog) : (p.laidOut moduleName log).structs.Settled := by
  have hfold : ∀ (decls : List StructDecl) (s : UnitState), s.Prepared decls →
      (∀ decl ∈ decls, SourceType.builtin? decl.name = none ∧ ¬ decl.Contains decl.name) →
      (decls.Pairwise fun earlier later => ¬ earlier.Contains later.name) →
      (decls.foldl UnitState.addStruct s).structs.Settled := by
    intro decls
    induction decls with
    | nil => exact fun s hs _ _ => hs.settled
    | cons decl decls ih =>
      intro s hs hnames horder
      obtain ⟨hlater, horder⟩ := List.pairwise_cons.mp horder
      obtain ⟨hname, hself⟩ := hnames decl (by simp)
      exact ih _ (hs.addStruct hname hself hlater) (fun d hd => hnames d (by simp [hd])) horder
  refine hfold p.structs _ ⟨p.bare_interfaces moduleName log, ⟨?_, ?_⟩, ?_⟩
    (fun decl hdecl => ⟨h.names decl hdecl, h.acyclic decl hdecl⟩) h.order
  all_goals simp [p.layouts_interfaces moduleName log]

/-! ## Origins of pointers -/

namespace FunctionDef

variable {f : FunctionDef} {globals : List GlobalVariable} {exact : Prop} {table : StructTable}

/-- A pointer that an instruction computes leads to the slot that the instruction makes, or to
the field that it addresses, or it was read from memory. -/
theorem origin_of_pointsTo (h : f.definitions.Nodup) {t : Nat} {type : MachineType} {i : Instr}
    (ht : (f.ledger globals).PointsTo (.temp t) type) (hi : i ∈ f.instrs)
    (hresult : i.result? = some t) :
    i = .alloca t type ∨
    (∃ name fields ptr index, fields[index]? = some type ∧
      i = .address t (.struct name fields) ptr [.int 0, .int (Int64.ofNat index)]) ∨
    (∃ ptr, i = .load t ptr .ptr) ∨
    ∃ aggregate base index, i = .extract t aggregate base index .ptr := by
  have hinstr {j : Instr} (hj : .instr j ∈ f.ledger globals) (hjt : j.result? = some t) :
      i = j := by
    rcases hj with hj | ⟨g, -, hg⟩
    · exact instr_eq_of_result? h hi hj hresult hjt
    · cases hg
  cases ht with
  | slot hslot => exact .inl (hinstr hslot rfl)
  | field haddress hfield => exact .inr (.inl ⟨_, _, _, _, hfield, hinstr haddress rfl⟩)
  | param hparam =>
    rcases hparam with hparam | ⟨g, -, hg⟩
    · exact absurd hresult (result?_ne_of_param h hparam hi)
    · cases hg
  | loaded hload => exact .inr (.inr (.inl ⟨_, hinstr hload rfl⟩))
  | extracted hextract => exact .inr (.inr (.inr ⟨_, _, _, hinstr hextract rfl⟩))

/-- A field is only ever addressed in storage for its struct, and only taken out of a value of
its struct. -/
structure AccessesInside (f : FunctionDef) (globals : List GlobalVariable) : Prop where
  index : ∀ result base ptr indices, .address result base ptr indices ∈ f.instrs →
    ∃ name fields index, base = .struct name fields ∧ index < fields.length ∧
      indices = [.int 0, .int (Int64.ofNat index)]
  slot : ∀ result base t indices type, .address result base (.temp t) indices ∈ f.instrs →
    .alloca t type ∈ f.instrs → type = base
  global : ∀ result base name indices, .address result base (.global name) indices ∈ f.instrs →
    ∃ g ∈ globals, g.name = name ∧ g.type = base
  field : ∀ result base t indices outer ptr outerIndices,
    .address result base (.temp t) indices ∈ f.instrs →
    .address t outer ptr outerIndices ∈ f.instrs →
    ∃ name fields index, outer = .struct name fields ∧ fields[index]? = some base ∧
      outerIndices = [.int 0, .int (Int64.ofNat index)]
  aggregate : ∀ result value base index type, .extract result value base index type ∈ f.instrs →
    ∃ t name fields, value = .temp t ∧ f.typeOf? t = some base ∧ base = .struct name fields ∧
      fields[index]? = some type

/-- An admitted address is one of a field of a struct, and of storage for it. -/
theorem Admitted.address (h : f.Admitted exact table globals) (hs : table.Settled) {result : Nat}
    {base : MachineType} {ptr : Value} {indices : List Value}
    (hi : .address result base ptr indices ∈ f.instrs) :
    (∃ name fields index, base = .struct name fields ∧ index < fields.length ∧
      indices = [.int 0, .int (Int64.ofNat index)]) ∧
    (f.ledger globals).PointsTo ptr base := by
  obtain ⟨c, -, rfl, -, hadmits⟩ := h.code _ hi
  cases hadmits with
  | @address _ _ layout field _ hplace hfield =>
    cases hplace with
    | memory hlayout hptr hpoints =>
      have hconsistent := c.structs layout hlayout
      have hindex := hconsistent.getElem? hfield.1
      refine ⟨⟨_, _, field.index, hconsistent.type_eq, ?_, rfl⟩, hpoints hs⟩
      exact (List.getElem?_eq_some_iff.mp hindex).1

/-- In a unit with a settled table, admitted instructions access what is inside a struct. -/
theorem Admitted.accessesInside (h : f.Admitted exact table globals) (hs : table.Settled) :
    f.AccessesInside globals where
  index := fun result base ptr indices hi => (h.address hs hi).1
  slot := by
    intro result base t indices type hi hslot
    rcases origin_of_pointsTo h.definitions (h.address hs hi).2 hslot rfl with
      heq | ⟨_, _, _, _, -, heq⟩ | ⟨_, heq⟩ | ⟨_, _, _, heq⟩
    all_goals cases heq
    rfl
  global := by
    intro result base name indices hi
    cases (h.address hs hi).2 with
    | global hg =>
      rcases hg with hg | ⟨g, hg, heq⟩
      · cases hg
      · cases heq
        exact ⟨_, hg, rfl, rfl⟩
  field := by
    intro result base t indices outer ptr outerIndices hi houter
    rcases origin_of_pointsTo h.definitions (h.address hs hi).2 houter rfl with
      heq | ⟨name, fields, _, index, hfield, heq⟩ | ⟨_, heq⟩ | ⟨_, _, _, heq⟩
    all_goals cases heq
    exact ⟨name, fields, index, rfl, hfield, rfl⟩
  aggregate := by
    intro result value base index type hi
    obtain ⟨c, -, rfl, -, hadmits⟩ := h.code _ hi
    cases hadmits with
    | @extract _ _ layout field hplace hfield =>
      cases hplace with
      | aggregate hlayout hvalue htype =>
        have hconsistent := c.structs layout hlayout
        have hbase := hconsistent.type_eq
        have hindex := hconsistent.getElem? hfield.1
        have hvalue := htype hs
        rw [hbase] at hvalue
        cases hvalue with
        | @temp t own _ hdefines halike =>
          obtain rfl : own = _ := halike.eq rfl
          rw [hbase]
          exact ⟨t, _, _, rfl, typeOf?_of_defines h.definitions hdefines, rfl, hindex⟩

end FunctionDef

/-! ## Allocations -/

namespace Lower

variable {s s' : BodyState}

/-- An instruction with a result that was added. -/
theorem mem_ledger_of_define {instr : Nat → Instr} {v : Value}
    (h : exec (build (Build.define instr)) s = (.ok v, s')) :
    s.ledger ⊆ s'.ledger ∧ ∃ t, v = .temp t ∧ .instr (instr t) ∈ s'.ledger := by
  rw [exec_build] at h
  rcases Build.entries_define instr s.builder with ⟨e, b, hexec, -⟩ | ⟨t, b, hexec, hb⟩
  · rw [hexec] at h
    cases h
  · rw [hexec] at h
    cases h
    rw [BodyState.ledger_insert hb]
    exact ⟨Set.subset_insert _ _, t, rfl, Set.mem_insert _ _⟩

/-- A pointer is what a call of the allocator returned that requested the given bytes, at most
viewed at another type. -/
def Requests (L : Ledger) (ptr : Value) (bytes : Int64) : Prop :=
  ∃ t type, .instr (.call (some t) (.function allocator) type [(.i64, .int bytes)]) ∈ L ∧
    (ptr = .temp t ∨ ∃ t' source, ptr = .temp t' ∧
      .instr (.convert t' .bitcast (.temp t) source .ptr) ∈ L)

/-- An allocation that succeeds calls the allocator with the bytes to request. -/
theorem requests_of_lowerAlloc {env : Environment} {location : Option Location}
    {target : SourceType} {v : TypedValue}
    (h : exec (lowerAlloc env location target) s = (.ok v, s')) :
    Requests s'.ledger v.value (Int64.ofNat (allocSize env.structs target)) := by
  unfold lowerAlloc at h
  obtain ⟨-, s₁, -, h⟩ := exec_bind_eq_ok.mp h
  obtain ⟨signature, s₂, -, h⟩ := exec_bind_eq_ok.mp h
  obtain ⟨result, s₃, hcall, h⟩ := exec_bind_eq_ok.mp h
  obtain ⟨raw, s₄, hraw, h⟩ := exec_bind_eq_ok.mp h
  have hrequest : ∃ t type, raw = .temp t ∧ .instr (.call (some t) (.function allocator) type
      [(.i64, .int (Int64.ofNat (allocSize env.structs target)))]) ∈ s₄.ledger := by
    cases hvoid : signature.type.returnsVoid with
    | true =>
      simp only [Build.call, hvoid, if_true, build_bind, build_pure] at hcall
      obtain ⟨-, s₆, -, hnone⟩ := exec_bind_eq_ok.mp hcall
      cases hnone
      cases hraw
    | false =>
      simp only [Build.call, hvoid, Bool.false_eq_true, if_false, build_bind, build_pure] at hcall
      obtain ⟨w, s₆, hdefine, hsome⟩ := exec_bind_eq_ok.mp hcall
      cases hsome
      cases hraw
      obtain ⟨-, t, rfl, ht⟩ := mem_ledger_of_define hdefine
      exact ⟨t, signature.type, rfl, ht⟩
  obtain ⟨t, type, rfl, ht⟩ := hrequest
  -- A pointer of another type is converted, which only adds an instruction.
  split at h
  · cases h
    exact ⟨t, type, ht, .inl rfl⟩
  · obtain ⟨pointer, s₅, hconvert, h⟩ := exec_bind_eq_ok.mp h
    cases h
    obtain ⟨hgrown, t', rfl, ht'⟩ := mem_ledger_of_define hconvert
    exact ⟨t, type, hgrown ht, .inr ⟨t', _, rfl, ht'⟩⟩

/-- If a word holds the size of a value, the request covers it, read without a sign. -/
theorem size_le_request {table : StructTable} (h : table.Settled) (hc : table.Consistent)
    (target : SourceType) : ∃ size, (table.resolve target).size? = some size ∧
      (MachineType.isWord size = true →
        size ≤ (Int64.ofNat (allocSize table target)).toUInt64.toNat) := by
  obtain ⟨size, hsize, hcases⟩ := h.allocSize_cases hc target
  refine ⟨size, hsize, fun hword => ?_⟩
  have hword : size < UInt64.size := by simpa [MachineType.isWord] using hword
  rw [Int64.toUInt64_ofNat']
  rcases hcases with heq | ⟨hle, heq⟩
  · rw [heq, UInt64.toNat_ofNat_of_lt' hword]
  · rw [heq]
    exact hle

end Lower

/-! ## Programs -/

namespace Program

variable {p : Program}

/-- In an ordered program, no access reaches outside the variable, the field or the heap block
from which it starts: a field is addressed in storage for its struct, and taken out of a value
of its struct, and the pointer that an allocation gives is that of a request for the bytes that
a value of its type takes. -/
theorem accesses_inside (h : p.Ordered) (options : LoweringOptions) (log : DiagnosticLog) :
    (∀ f ∈ (p.generate options log).1.functions,
      f.AccessesInside (p.generate options log).1.globals) ∧
    ∀ s d body, p.Turn options log s d body → ∀ location target state v state',
      exec (Lower.lowerAlloc (s.environment d) location target) state = (.ok v, state') →
      ∃ size bytes, (s.structs.resolve target).size? = some size ∧
        (MachineType.isWord size = true → size ≤ bytes.toUInt64.toNat) ∧
        Lower.Requests state'.ledger v.value bytes := by
  have hsettled := settled_laidOut h options.moduleName log
  constructor
  · obtain ⟨s, hs, hregular⟩ := p.regular_generate options log fun hfalse : False => hfalse.elim
    rw [hs]
    exact fun f hf => (hregular.code f hf).accessesInside hsettled
  · intro s d body hturn location target state v state' hexec
    obtain ⟨hregular, -⟩ := hturn.regular fun hfalse : False => hfalse.elim
    rw [← hregular.structs] at hsettled
    obtain ⟨size, hsize, hle⟩ := Lower.size_le_request hsettled
      (hregular.structs ▸ hregular.consistent) target
    exact ⟨size, _, hsize, hle, Lower.requests_of_lowerAlloc hexec⟩

/-- A struct, and a function that returns its second field. -/
def secondOfPair (name : String) : Program where
  items := [.struct ⟨name, none, [⟨"a", .named "i64", true⟩, ⟨"b", .named "i64", true⟩], none⟩,
    .function ⟨"second", [], .named "i64", some (.block none
      [.variable none ⟨"pair", .named name, true, none, none⟩,
        .ret none (some (.member none (.variable none "pair") "b"))]), none, none⟩]

theorem accesses_inside_secondOfPair : ∃ f : FunctionDef, f.name = "second" ∧
    .address 1 (.struct "Pair" [.i64, .i64]) (.temp 0) [.int 0, .int 1] ∈ f.instrs ∧
    ∃ globals, f.AccessesInside globals := by
  have hordered : (secondOfPair "Pair").Ordered := ⟨by decide, by decide, by decide⟩
  obtain ⟨f, hf, hname, hmem⟩ : ∃ f : FunctionDef,
      f ∈ (generate .standard (secondOfPair "Pair") .empty).1.functions ∧ f.name = "second" ∧
      .address 1 (.struct "Pair" [.i64, .i64]) (.temp 0) [.int 0, .int 1] ∈ f.instrs := by
    decide +kernel
  exact ⟨f, hname, hmem, _, (accesses_inside hordered .standard .empty).1 f hf⟩

/-- A unit that is accepted, although the variable is as large as the built-in type of that
name and not as the struct. -/
theorem field_outside_variable :
    (generate .standard (secondOfPair "i32") .empty).2.count .error = 0 ∧
    ∃ f ∈ (generate .standard (secondOfPair "i32") .empty).1.functions,
      .alloca 0 .i32 ∈ f.instrs ∧
      .address 1 (.struct "i32" [.i64, .i64]) (.temp 0) [.int 0, .int 1] ∈ f.instrs ∧
      ∀ globals, ¬ f.AccessesInside globals := by
  obtain ⟨hclean, f, hf, hslot, haddress⟩ :
      (generate .standard (secondOfPair "i32") .empty).2.count .error = 0 ∧
      ∃ f : FunctionDef, f ∈ (generate .standard (secondOfPair "i32") .empty).1.functions ∧
      .alloca 0 .i32 ∈ f.instrs ∧
      .address 1 (.struct "i32" [.i64, .i64]) (.temp 0) [.int 0, .int 1] ∈ f.instrs := by
    decide +kernel
  refine ⟨hclean, f, hf, hslot, haddress, fun globals hinside => ?_⟩
  have htype := hinside.slot _ _ _ _ _ haddress hslot
  cases htype

end Program

end SsaLowering
