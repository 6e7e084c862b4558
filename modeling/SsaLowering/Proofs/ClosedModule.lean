import SsaLowering.Proofs.StatementReferences
import SsaLowering.Proofs.UnitTyping

/-!
# Modules are closed

A unit keeps its signatures, its functions, its global variables and its structs in separate
places. They stay in step while it is declared and lowered: each signature is that of a function
of the module, each name is bound to a global variable of the module, and the named types of the
module are the types of the structs. So whatever a module refers to is in the module, whatever
failed in the program.
-/

namespace SsaLowering

/-- All that a function refers to is in the module. -/
structure FunctionDef.ClosedIn (m : CodeModule) (f : FunctionDef) : Prop where
  signature : f.signature.Named m.type?
  calls : ∀ result callee type args, .call result callee type args ∈ f.instrs →
    ∃ name g, callee = .function name ∧ m.function? name = some g ∧ g.signature = type
  symbols : ∀ i ∈ f.instrs, ∀ name, .global name ∈ i.operands → ∃ g ∈ m.globals, g.name = name
  types : ∀ i ∈ f.instrs, ∀ type ∈ i.types, type.Named m.type?

/-- All that a module refers to is in the module: the functions that are called have the types
at which they are called, symbols are those of global variables, and every struct type is the
one that is named. -/
structure CodeModule.Closed (m : CodeModule) : Prop where
  functions : ∀ f ∈ m.functions, f.ClosedIn m
  globals : ∀ g ∈ m.globals, g.type.Named m.type?
  initializers : ∀ g ∈ m.globals, ∀ name, g.initializer = some (.global name) →
    ∃ g' ∈ m.globals, g'.name = name
  types : ∀ entry ∈ m.types, entry.2.Named m.type?

namespace FunctionDef

variable {m m' : CodeModule} {f : FunctionDef}

/-- More global variables, and functions with the same types, make no difference. -/
theorem ClosedIn.mono (h : f.ClosedIn m) (htypes : m'.type? = m.type?)
    (hglobals : m.globals ⊆ m'.globals)
    (hfunctions : ∀ name g, m.function? name = some g →
      ∃ g', m'.function? name = some g' ∧ g'.signature = g.signature) : f.ClosedIn m' where
  signature := htypes ▸ h.signature
  calls := by
    intro result callee type args hi
    obtain ⟨name, g, hcallee, hg, htype⟩ := h.calls result callee type args hi
    obtain ⟨g', hg', hsignature⟩ := hfunctions name g hg
    exact ⟨name, g', hcallee, hg', hsignature.trans htype⟩
  symbols := by
    intro i hi name hname
    obtain ⟨g, hg, heq⟩ := h.symbols i hi name hname
    exact ⟨g, hglobals hg, heq⟩
  types := htypes ▸ h.types

/-- A function without a body refers to types only. -/
theorem closedIn_of_blocks_eq_nil (hblocks : f.blocks = [])
    (hsignature : f.signature.Named m.type?) : f.ClosedIn m := by
  have hinstrs : f.instrs = [] := by simp [instrs, hblocks]
  exact ⟨hsignature, by simp [hinstrs], by simp [hinstrs], by simp [hinstrs]⟩

end FunctionDef

theorem Signature.signature_declaration (sig : Signature) (name : String)
    (location : Option Location) : (sig.declaration name location).signature = sig.type := by
  have hparams := List.zipIdx_map_fst 0 sig.paramTypes
  rw [declaration, FunctionDef.declaration, FunctionDef.signature, List.map_map, type]
  exact congrArg (MachineType.function sig.returnType · sig.isVararg) hparams

/-- A signature that was resolved with the structs of a table contains only these. -/
theorem StructTable.Sealed.named_signature {table : StructTable} (h : table.Sealed)
    {sig : Signature} (hsig : sig.Resolves table) : sig.type.Named table.type? := by
  refine MachineType.named_function.mpr ⟨hsig.result ▸ h.named_resolveReturn _, ?_⟩
  rw [hsig.params]
  exact List.forall_mem_map.mpr fun source _ => h.named_resolve source

namespace UnitState

variable {s s' : UnitState} {d : DeclaredFunction} {body : Statement}

/-- Signatures, names and structs of a unit are in step with its module. -/
structure Linked (s : UnitState) : Prop where
  consistent : s.structs.Consistent
  closed : s.structs.Sealed
  types : ∀ name, s.code.type? name = s.structs.type? name
  definitions : ∀ entry ∈ s.code.types, entry.2.Named s.structs.type?
  functions : ∀ name sig, s.functions.lookup name = some sig → sig.Resolves s.structs ∧
    ∃ g, s.code.function? name = some g ∧ g.signature = sig.type
  bindings : ∀ entry ∈ s.globals, (∃ name, entry.2.storage = .global name ∧
    ∃ g ∈ s.code.globals, g.name = name) ∧ entry.2.type.Named s.structs.type?
  signatures : ∀ f ∈ s.code.functions, f.signature.Named s.structs.type?
  pool : StringPool.Numbered s.code.globals
  globals : ∀ g ∈ s.code.globals, g.type.Named s.structs.type?
  initializers : ∀ g ∈ s.code.globals, ∀ name, g.initializer = some (.global name) →
    ∃ g' ∈ s.code.globals, g'.name = name

namespace Linked

theorem type?_eq (h : s.Linked) : s.code.type? = s.structs.type? := funext h.types

/-- A unit whose functions are closed makes a closed module. -/
theorem code_closed (h : s.Linked) (hcode : ∀ f ∈ s.code.functions, f.ClosedIn s.code) :
    s.code.Closed where
  functions := hcode
  globals := h.type?_eq ▸ h.globals
  initializers := h.initializers
  types := h.type?_eq ▸ h.definitions

/-- What a unit reports makes no difference. -/
theorem of_log (h : s.Linked) (log : DiagnosticLog) : { s with log }.Linked :=
  ⟨h.consistent, h.closed, h.types, h.definitions, h.functions, h.bindings, h.signatures, h.pool,
    h.globals, h.initializers⟩

/-- Global variables of named types were added to the module, with names that keep the string
literals in order. -/
theorem withGlobals (h : s.Linked) {globals : List GlobalVariable}
    (hsub : s.code.globals ⊆ globals) (hpool : StringPool.Numbered globals)
    (hglobals : ∀ g ∈ globals, g ∈ s.code.globals ∨ g.type.Named s.structs.type? ∧
      ∀ name, g.initializer = some (.global name) → ∃ g' ∈ globals, g'.name = name) :
    { s with code := { s.code with globals } }.Linked where
  consistent := h.consistent
  closed := h.closed
  types := h.types
  definitions := h.definitions
  functions := h.functions
  bindings := by
    intro entry he
    obtain ⟨⟨name, hstorage, g, hg, hname⟩, hnamed⟩ := h.bindings entry he
    exact ⟨⟨name, hstorage, g, hsub hg, hname⟩, hnamed⟩
  signatures := h.signatures
  pool := hpool
  globals := fun g hg => (hglobals g hg).elim (h.globals g) (·.1)
  initializers := by
    intro g hg name hname
    rcases hglobals g hg with hg | ⟨-, hg⟩
    · obtain ⟨g', hg', heq⟩ := h.initializers g hg name hname
      exact ⟨g', hsub hg', heq⟩
    · exact hg name hname

/-- String literals were added. -/
theorem intern (h : s.Linked) {globals : List GlobalVariable}
    (hinterned : StringPool.Interned s.code.globals globals) :
    { s with code := { s.code with globals } }.Linked := by
  refine h.withGlobals hinterned.subset (hinterned.numbered h.pool) fun g hg => ?_
  rcases hinterned.mem_cases hg with hg | ⟨number, text, rfl⟩
  · exact .inl hg
  · refine .inr ⟨by simp [StringPool.constant], fun name hname => ?_⟩
    simp [StringPool.constant] at hname

/-- A function takes the place of one of the same type. -/
theorem replaceFunction (h : s.Linked) {f g : FunctionDef} (hg : s.code.function? f.name = some g)
    (hsignature : f.signature = g.signature) :
    { s with code := s.code.replaceFunction f }.Linked where
  consistent := h.consistent
  closed := h.closed
  types := h.types
  definitions := h.definitions
  functions := by
    intro name sig hsig
    obtain ⟨hresolves, g', hg', htype⟩ := h.functions name sig hsig
    refine ⟨hresolves, ?_⟩
    rw [CodeModule.function?_replaceFunction]
    split
    · next hname =>
      rw [← hname, hg] at hg'
      obtain rfl := Option.some.inj hg'
      exact ⟨f, rfl, hsignature.trans htype⟩
    · exact ⟨g', hg', htype⟩
  bindings := h.bindings
  signatures := by
    intro f' hf'
    rcases CodeModule.eq_or_mem_of_mem_replaceIn hf' with rfl | hf'
    · exact hsignature ▸ h.signatures g (List.mem_of_find?_eq_some hg)
    · exact h.signatures f' hf'
  pool := h.pool
  globals := h.globals
  initializers := h.initializers

/-! ## Declarations -/

theorem addInterface (h : s.Linked) (decl : InterfaceDecl) : (s.addInterface decl).Linked := by
  rcases s.addInterface_cases decl with ⟨e, -, heq⟩ | ⟨interfaces, heq⟩
  all_goals rw [heq]
  · exact h.of_log _
  · refine ⟨h.consistent, ⟨h.closed.nodup, h.closed.named⟩, h.types, h.definitions,
      fun name sig hsig => ?_, h.bindings, h.signatures, h.pool, h.globals, h.initializers⟩
    obtain ⟨⟨hparams, hresult⟩, hfound⟩ := h.functions name sig hsig
    exact ⟨⟨hparams, hresult⟩, hfound⟩

/-- A struct is named in the module as it is laid out. Signatures that are known already do not
mention it. -/
theorem addStruct (h : s.Linked) (hfunctions : s.functions = predeclared) (decl : StructDecl) :
    (s.addStruct decl).Linked := by
  rcases addStruct_cases h.consistent decl with ⟨e, -, heq⟩ | ⟨layout, log, hnew, hlayout, -, heq⟩
  all_goals rw [heq]
  · exact h.of_log _
  · obtain ⟨layout', hlayout', hname, hlconsistent, -, hresolved⟩ :=
      h.consistent.exists_layout decl
    obtain rfl := Option.some.inj (hlayout.symm.trans hlayout')
    rw [← hname] at hnew
    have hsealed := h.closed.append hnew hlconsistent.type_eq fun field hfield =>
      hresolved field hfield ▸ h.closed.named_resolve field.source
    have hgrown : ∀ name type, s.structs.type? name = some type → StructTable.type?
        { s.structs with layouts := s.structs.layouts ++ [layout] } name = some type := by
      intro name type htype
      rw [StructTable.type?_append, htype]
      rfl
    have hnone : s.structs.type? layout.name = none := by
      simpa [StructTable.type?, StructTable.contains] using hnew
    refine ⟨fun l hl => ?_, hsealed, fun name => ?_, fun entry he => ?_, fun name sig hsig => ?_,
      fun entry he => ?_, fun f hf => (h.signatures f hf).mono hgrown, h.pool,
      fun g hg => (h.globals g hg).mono hgrown, h.initializers⟩
    · rcases List.mem_append.mp hl with hl | hl
      · exact h.consistent l hl
      · exact List.mem_singleton.mp hl ▸ hlconsistent
    · rw [CodeModule.addType, CodeModule.type?, CodeModule.lookup_insertType,
        StructTable.type?_append]
      by_cases heq : name = layout.name
      · simp [heq, hnone]
      · have htypes : List.lookup name s.code.types = s.structs.type? name := h.types name
        simp [heq, Ne.symm heq, htypes]
    · rcases CodeModule.mem_insertType he with rfl | he
      · exact hsealed.named layout (by simp)
      · exact (h.definitions entry he).mono hgrown
    · have hmem : (name, sig) ∈ predeclared := by
        obtain ⟨front, rest, hsplit, -⟩ := List.lookup_eq_some_iff.mp (hfunctions ▸ hsig)
        simp [hsplit]
      exact ⟨(resolves_predeclared _ _ hmem).1, (h.functions name sig hsig).2⟩
    · obtain ⟨hstorage, hnamed⟩ := h.bindings entry he
      exact ⟨hstorage, hnamed.mono hgrown⟩

/-- A global variable is bound to its name. -/
theorem addGlobal (h : s.Linked) (decl : VariableDecl Term) : (s.addGlobal decl).Linked := by
  obtain ⟨globals, log, hinterned, -, ⟨e, -, heq⟩ | ⟨-, source, value, hvalue, heq⟩⟩ :=
    s.addGlobal_cases decl
  all_goals rw [heq]
  · exact ((h.intern hinterned).of_log log).of_log _
  · let g : GlobalVariable :=
      ⟨decl.name, s.structs.resolve source, !decl.isMutable, value, .external⟩
    have hnamed := h.closed.named_resolve source
    have hpool := hinterned.numbered h.pool
    have hplain : StringPool.text? g = none := StringPool.text?_eq_none fun text htext =>
      (hvalue _ htext).plain text rfl
    have hlinked : Linked { s with code := { s.code with globals := globals ++ [g] } } := by
      refine h.withGlobals (List.subset_append_of_subset_left _ hinterned.subset)
        (hpool.append hplain) fun g' hg' => ?_
      rcases List.mem_append.mp hg' with hg' | hg'
      · rcases hinterned.mem_cases hg' with hg' | ⟨number, text, rfl⟩
        · exact .inl hg'
        · refine .inr ⟨by simp [StringPool.constant], fun name hname => ?_⟩
          simp [StringPool.constant] at hname
      · obtain rfl := List.mem_singleton.mp hg'
        refine .inr ⟨hnamed, fun name hname => ?_⟩
        obtain ⟨g', hg', heq⟩ := (hvalue _ hname).address hpool name rfl
        exact ⟨g', List.mem_append_left _ hg', heq⟩
    refine ⟨hlinked.consistent, hlinked.closed, hlinked.types, hlinked.definitions,
      hlinked.functions, ?_, hlinked.signatures, hlinked.pool, hlinked.globals,
      hlinked.initializers⟩
    rintro entry (_ | ⟨_, he⟩)
    · exact ⟨⟨decl.name, rfl, g, List.mem_append_right _ (List.mem_singleton.mpr rfl), rfl⟩, hnamed⟩
    · exact hlinked.bindings entry he

/-- A function is declared with its signature, in the module and for the bodies. -/
theorem addFunction (h : s.Linked) (declared : List DeclaredFunction)
    (decl : FunctionDecl Statement) : (UnitState.addFunction (s, declared) decl).1.Linked := by
  rcases s.addFunction_cases declared decl with
    ⟨-, e, -, heq⟩ | ⟨-, d, log, -, rfl, hsignature, heq⟩
  all_goals rw [heq]
  · exact h.of_log _
  · have hresolves : d.signature.Resolves s.structs := hsignature ▸ Signature.resolves_ofSource ..
    have htype : d.declaration.signature = d.signature.type := Signature.signature_declaration ..
    refine ⟨h.consistent, h.closed, h.types, h.definitions, fun name sig hsig => ?_, h.bindings,
      fun f hf => ?_, h.pool, h.globals, h.initializers⟩
    · rw [CodeModule.function?_replaceFunction]
      rw [CodeModule.lookup_cons_ite] at hsig
      by_cases hname : name = d.decl.name
      · rw [if_pos hname] at hsig
        obtain rfl := Option.some.inj hsig
        exact ⟨hresolves, d.declaration, if_pos hname.symm, htype⟩
      · rw [if_neg hname] at hsig
        rw [if_neg (by exact fun heq => hname heq.symm)]
        exact h.functions name sig hsig
    · rcases CodeModule.eq_or_mem_of_mem_replaceIn hf with rfl | hf
      · rw [htype]
        exact h.closed.named_signature hresolves
      · exact h.signatures f hf

/-! ## Bodies -/

/-- What the body of a function can refer to. -/
def realm (h : s.Linked) (d : DeclaredFunction) : Realm where
  env := s.environment d
  structs := h.consistent
  closed := h.closed
  signatures := fun name sig hsig => (h.functions name sig hsig).1
  globals := s.code.globals
  numbered := h.pool

theorem rooted (h : s.Linked) : s.Rooted := by
  intro entry he
  obtain ⟨⟨name, hstorage, -⟩, -⟩ := h.bindings entry he
  simp [hstorage, Storage.temps]

/-- At the start of a body there are only its parameters and the names of its unit. -/
theorem holds_start (h : s.Linked) (hd : d.signature.Resolves s.structs) :
    (h.realm d).Holds (s.start d) where
  code := by
    intro i hi
    rcases mem_ledger_start.mp hi with ⟨t, type, -, hi⟩ | ⟨g, -, hi⟩ <;> cases hi
  locals := by
    intro entry he
    obtain ⟨param, type, index, -, htype, -, heq⟩ := mem_parameterScope he
    rw [heq]
    refine ⟨by rintro a ⟨⟩, by rintro v ⟨rfl⟩; trivial, ?_⟩
    have hmem := List.mem_of_getElem? htype
    rw [hd.params] at hmem
    obtain ⟨source, -, rfl⟩ := List.mem_map.mp hmem
    exact (h.realm d).names_resolve source
  globals := by
    intro entry he
    obtain ⟨⟨name, hstorage, g, hg, hname⟩, hnamed⟩ := h.bindings entry he
    refine ⟨fun a ha => ?_, fun v hv => ?_, hnamed⟩
    · rw [hstorage] at ha
      obtain rfl := Option.some.inj ha
      exact ⟨g, mem_ledger_start.mpr (.inr ⟨g, hg, rfl⟩), hname⟩
    · rw [hstorage] at hv
      cases hv
  pool := .refl

/-- Whatever fails in a body, its function has the declared signature, its instructions are those
of the realm, and it adds only string literals to the global variables. -/
theorem exists_lowerBody (h : s.Linked) (hd : d.signature.Resolves s.structs) (body : Statement) :
    ∃ f, (s.lowerBody d body).builder.function = some f ∧
      f.finalize.name = d.decl.name ∧ f.finalize.signature = d.signature.type ∧
      (∀ i ∈ f.finalize.instrs, (h.realm d).Admits (s.lowerBody d body).ledger i) ∧
      StringPool.Interned s.code.globals (s.lowerBody d body).globals := by
  obtain ⟨f, avail, sources, hf, ⟨blocks, hsignature⟩, hdraft⟩ :=
    exists_draft_lowerBody (h.rooted.environment d) body
  have hreturn : (h.realm d).Names (context d).returnType := by
    show d.signature.returnType.Named s.structs.type?
    rw [hd.result]
    exact h.closed.named_resolveReturn _
  have hkeeps : (h.realm d).invariant.Keeps ∅ (Lower.recovering
      (Lower.functionBody (h.realm d).env (context d) body)) fun _ _ => True :=
    .recovering (Realm.keeps_functionBody hreturn body)
  have hholds : (h.realm d).Holds (s.lowerBody d body) :=
    (hkeeps (s.start d) (h.holds_start hd) (Set.empty_subset _)).1
  have htype : f.finalize.signature = d.signature.type := by
    rw [← d.signature.signature_declaration d.decl.name d.decl.location, hsignature]
    rfl
  refine ⟨f, hf, by rw [hsignature]; rfl, htype, fun i hi => ?_, hholds.pool⟩
  rcases hdraft.mem_instrs_finalize hi with hi | rfl | rfl
  · exact hholds.code i (.inl ⟨f, hf, hi⟩)
  · exact Realm.admits_of_ne_call (by simp [Instr.operands]) (by simp [Instr.types]) (by simp)
  · exact Realm.admits_of_ne_call (by simp [Instr.operands]) (by simp [Instr.types]) (by simp)

/-- A function made of instructions of the realm is closed in any module that has the functions,
the struct types and the global variables of the realm. -/
theorem closedIn_of_admits (h : s.Linked) {m : CodeModule} {f : FunctionDef} {L : Ledger}
    (hsignature : f.signature.Named m.type?) (hadmits : ∀ i ∈ f.instrs, (h.realm d).Admits L i)
    (hglobals : ∀ g, .global g ∈ L → g ∈ m.globals) (htypes : m.type? = s.structs.type?)
    (hfunctions : ∀ name g, s.code.function? name = some g →
      ∃ g', m.function? name = some g' ∧ g'.signature = g.signature) : f.ClosedIn m where
  signature := hsignature
  calls := by
    intro result callee type args hi
    obtain ⟨name, sig, rfl, hsig, rfl⟩ :=
      ((hadmits _ hi).calls result callee type args rfl).exists_signature
    obtain ⟨-, g, hg, htype⟩ := h.functions name sig hsig
    obtain ⟨g', hg', hsame⟩ := hfunctions name g hg
    exact ⟨name, g', rfl, hg', hsame.trans htype⟩
  symbols := by
    intro i hi name hname
    obtain ⟨g, hg, heq⟩ := (hadmits i hi).operands _ hname
    exact ⟨g, hglobals g hg, heq⟩
  types := htypes ▸ fun i hi => (hadmits i hi).types

end Linked

/-- A function of the program is in step with its unit: its signature stands for types of the
unit, and the module has a function of this type under its name. -/
structure Announces (s : UnitState) (d : DeclaredFunction) : Prop where
  resolves : d.signature.Resolves s.structs
  found : ∃ g, s.code.function? d.decl.name = some g ∧ g.signature = d.signature.type

/-- One more function is announced if it is declared, and the others stay so. -/
theorem announces_addFunction (h : s.Linked) {declared : List DeclaredFunction}
    (hannounced : ∀ d ∈ declared, s.Announces d) (decl : FunctionDecl Statement) :
    ∀ d ∈ (addFunction (s, declared) decl).2,
      (addFunction (s, declared) decl).1.Announces d := by
  have hlinked := h.addFunction declared decl
  rcases s.addFunction_cases declared decl with
    ⟨-, e, -, heq⟩ | ⟨hname, d, log, -, rfl, hsignature, heq⟩
  all_goals rw [heq] at hlinked ⊢
  · exact fun d hd => ⟨(hannounced d hd).resolves, (hannounced d hd).found⟩
  · intro d' hd'
    rcases List.mem_append.mp hd' with hd' | hd'
    · obtain ⟨hresolves, g, hg, htype⟩ := hannounced d' hd'
      have hne : d.decl.name ≠ d'.decl.name := fun heq => hname (heq ▸ List.mem_map_of_mem hd')
      refine ⟨hresolves, g, ?_, htype⟩
      rw [CodeModule.function?_replaceFunction, if_neg (by exact hne)]
      exact hg
    · obtain rfl := List.mem_singleton.mp hd'
      refine ⟨(hlinked.functions d'.decl.name d'.signature (by simp)).1, d'.declaration, ?_,
        Signature.signature_declaration ..⟩
      rw [CodeModule.function?_replaceFunction]
      exact if_pos rfl

/-- A unit in which bodies are lowered: all that its functions refer to is there. -/
structure Complete (s : UnitState) : Prop where
  linked : s.Linked
  code : ∀ f ∈ s.code.functions, f.ClosedIn s.code

/-- Between the two units the structs are the same, and functions keep their types. -/
structure SameTypes (s s' : UnitState) : Prop where
  structs : s'.structs = s.structs
  functions : ∀ name g, s.code.function? name = some g →
    ∃ g', s'.code.function? name = some g' ∧ g'.signature = g.signature

theorem Announces.of_sameTypes (hd : s.Announces d) (h : s.SameTypes s') : s'.Announces d := by
  obtain ⟨hresolves, g, hg, htype⟩ := hd
  obtain ⟨g', hg', hsame⟩ := h.functions _ g hg
  exact ⟨h.structs ▸ hresolves, g', hg', hsame.trans htype⟩

/-- Whether the function of a body is kept or not, nothing is missing behind it. -/
theorem Complete.addBody (h : s.Complete) (hd : s.Announces d) (options : LoweringOptions)
    (body : Statement) :
    (s.addBody options d body).Complete ∧ s.SameTypes (s.addBody options d body) := by
  obtain ⟨f, hf, hname, hsignature, hadmits, hinterned⟩ :=
    h.linked.exists_lowerBody hd.resolves body
  let globals := (s.lowerBody d body).globals
  have hlinked : Linked { s with code := { s.code with globals } } := h.linked.intern hinterned
  have hcode : ∀ g ∈ s.code.functions, g.ClosedIn { s.code with globals } := fun g hg =>
    (h.code g hg).mono rfl hinterned.subset fun name g' hg' => ⟨g', hg', rfl⟩
  -- The string literals of the body stay in the unit, even if its function is dropped.
  cases hfault : f.finalize.fault? with
  | some fault =>
    simp only [addBody_of_fault hf hfault]
    exact ⟨⟨hlinked.of_log _, hcode⟩, rfl, fun name g hg => ⟨g, hg, rfl⟩⟩
  | none =>
    simp only [addBody_of_sound hf hfault]
    obtain ⟨g, hg, htype⟩ := hd.found
    rw [← hname] at hg
    have hsame : f.finalize.signature = g.signature := hsignature.trans htype.symm
    let m := { s.code with globals }.replaceFunction f.finalize
    have hfunctions : ∀ name g', s.code.function? name = some g' →
        ∃ g'', m.function? name = some g'' ∧ g''.signature = g'.signature := by
      intro name g' hg'
      rw [CodeModule.function?_replaceFunction]
      split
      · next heq =>
        rw [← heq, hg] at hg'
        obtain rfl := Option.some.inj hg'
        exact ⟨f.finalize, rfl, hsame⟩
      · exact ⟨g', hg', rfl⟩
    have hreplaced : Linked { s with code := m } := hlinked.replaceFunction hg hsame
    refine ⟨⟨hreplaced.of_log _, fun g' hg' => ?_⟩, rfl, hfunctions⟩
    rcases CodeModule.eq_or_mem_of_mem_replaceIn hg' with rfl | hg'
    · refine h.linked.closedIn_of_admits (hreplaced.type?_eq ▸ hreplaced.signatures _ hg') hadmits
        (fun g hg => BodyState.global_mem_ledger.mp hg) hreplaced.type?_eq hfunctions
    · exact (hcode g' hg').mono rfl (List.Subset.refl _) hfunctions

end UnitState

namespace Program

open UnitState

variable {p : Program} {options : LoweringOptions} {log : DiagnosticLog} {s : UnitState}
  {d : DeclaredFunction} {body : Statement}

/-- At first, the module declares the predeclared functions. -/
theorem functions_initial (moduleName : String) (log : DiagnosticLog) :
    (initial moduleName log).code.functions =
      predeclared.map fun (name, sig) => sig.declaration name none := rfl

/-- Under the name of a signature, there is its declaration. -/
theorem find?_declarations (entries : List (String × Signature)) (name : String) :
    (entries.map fun (name, sig) => sig.declaration name none).find? (·.name == name) =
      (entries.lookup name).map (·.declaration name none) := by
  induction entries with
  | nil => rfl
  | cons entry entries ih =>
    obtain ⟨first, sig⟩ := entry
    rw [List.map_cons, List.find?_cons, CodeModule.lookup_cons_ite]
    by_cases h : name = first
    · subst h
      simp [Signature.declaration, FunctionDef.declaration]
    · have hne : (first == name) = false := beq_eq_false_iff_ne.mpr (Ne.symm h)
      have hfirst : ((sig.declaration first none).name == name) = false := hne
      rw [if_neg h, hfirst]
      exact ih

theorem linked_initial (moduleName : String) (log : DiagnosticLog) :
    (initial moduleName log).Linked where
  consistent := by simp [initial, StructTable.empty, StructTable.Consistent]
  closed := StructTable.sealed_of_layouts_eq_nil rfl
  types := fun _ => rfl
  definitions := fun _ he => nomatch he
  functions := by
    intro name sig hsig
    have hmem : (name, sig) ∈ predeclared := by
      obtain ⟨front, rest, hsplit, -⟩ :=
        List.lookup_eq_some_iff.mp (show predeclared.lookup name = some sig from hsig)
      rw [hsplit]
      exact List.mem_append_right _ (List.mem_cons_self ..)
    refine ⟨(resolves_predeclared _ _ hmem).1, sig.declaration name none, ?_,
      sig.signature_declaration name none⟩
    rw [CodeModule.function?, functions_initial, find?_declarations,
      show predeclared.lookup name = some sig from hsig]
    rfl
  bindings := by simp [initial]
  signatures := by
    rw [functions_initial]
    refine List.forall_mem_map.mpr fun entry hentry => ?_
    rw [Signature.signature_declaration]
    exact (StructTable.sealed_of_layouts_eq_nil rfl).named_signature
      (resolves_predeclared _ entry hentry).1
  pool := StringPool.numbered_nil
  globals := by simp [initial, predeclared, CodeModule.addFunction, CodeModule.empty]
  initializers := by simp [initial, predeclared, CodeModule.addFunction, CodeModule.empty]

/-- Behind the declarations of a program, nothing is missing, and all its functions are
announced. -/
theorem complete_declare (p : Program) (moduleName : String) (log : DiagnosticLog) :
    (p.declare moduleName log).1.Complete ∧
      ∀ d ∈ (p.declare moduleName log).2, (p.declare moduleName log).1.Announces d := by
  have hinterfaces := List.foldlRecOn
    (motive := fun s : UnitState => s.Linked ∧ s.Bare False) p.interfaces _
    ⟨linked_initial moduleName log, bare_initial moduleName log⟩
    fun s hs decl _ => ⟨hs.1.addInterface decl, hs.2.addInterface decl⟩
  have hstructs := List.foldlRecOn
    (motive := fun s : UnitState => s.Linked ∧ s.Bare False) p.structs _ hinterfaces
    fun s hs decl _ => ⟨hs.1.addStruct hs.2.functions decl, hs.2.addStruct False.elim⟩
  have hglobals := List.foldlRecOn (motive := Linked) p.globals _ hstructs.1
    fun s hs decl _ => hs.addGlobal decl
  have hfunctions := List.foldlRecOn (motive := fun acc : UnitState × List DeclaredFunction =>
    acc.1.Linked ∧ ∀ d ∈ acc.2, acc.1.Announces d) p.functions UnitState.addFunction
    (b := (p.globals.foldl UnitState.addGlobal (p.laidOut moduleName log), []))
    ⟨hglobals, by simp⟩ fun acc hacc decl _ =>
      ⟨hacc.1.addFunction acc.2 decl, announces_addFunction hacc.1 hacc.2 decl⟩
  refine ⟨⟨hfunctions.1, fun f hf => ?_⟩, hfunctions.2⟩
  refine FunctionDef.closedIn_of_blocks_eq_nil (blocks_eq_nil_of_mem_declare hf) ?_
  exact hfunctions.1.type?_eq ▸ hfunctions.1.signatures f hf

/-- At every turn and in the end, nothing is missing, and all functions are announced. -/
theorem complete_turns (p : Program) (options : LoweringOptions) (log : DiagnosticLog) :
    (∀ s d body, p.Turn options log s d body → s.Complete ∧ s.Announces d) ∧
      ∃ s : UnitState, s.Complete ∧ p.generate options log = (s.code, s.log) := by
  obtain ⟨hturns, s, hlast, heq⟩ := p.induction_turns options log
    (motive := fun s => s.Complete ∧
      ∀ d ∈ (p.declare options.moduleName log).2, s.Announces d)
    (p.complete_declare options.moduleName log) fun s d body hturn hs => by
      obtain ⟨hcomplete, hsame⟩ := hs.1.addBody (hs.2 d hturn.mem) options body
      exact ⟨hcomplete, fun d' hd' => (hs.2 d' hd').of_sameTypes hsame⟩
  refine ⟨fun s d body hturn => ?_, s, hlast.1, heq⟩
  exact ⟨(hturns s d body hturn).1, (hturns s d body hturn).2 d hturn.mem⟩

/-- The module of a program is closed, whatever is reported about the program: all functions that
it calls are in it, with the types at which they are called, even if they were declared again or
their bodies were dropped; all symbols are those of global variables in it; and every struct
type, wherever it occurs, is the one that the module gives to its name. -/
theorem closed_generate (p : Program) (options : LoweringOptions) (log : DiagnosticLog) :
    (p.generate options log).1.Closed := by
  obtain ⟨-, s, hcomplete, heq⟩ := p.complete_turns options log
  rw [heq]
  exact hcomplete.linked.code_closed hcomplete.code

end Program

end SsaLowering
