import SsaLowering.Proofs.Declaration
import SsaLowering.Proofs.DeclarationTyping
import SsaLowering.Proofs.Dominance

/-!
# Units keep to a setting

The structs of a unit are laid out before anything else has a type, so every body is lowered
in a setting that its unit keeps to, whatever failed before. The functions of a module are
made of admitted instructions, and all their operands are well typed.
-/

namespace SsaLowering

/-- There are no unsigned integers in the declarations of a program, and what it evaluates is
tame. -/
structure Program.Tame (p : Program) : Prop where
  fields : ∀ decl ∈ p.structs, ∀ field ∈ decl.fields, field.type.isUnsigned = false
  globals : ∀ decl ∈ p.globals, decl.type.isUnsigned = false ∧
    ∀ term, decl.initializer = some term → term.isTame = true
  signatures : ∀ decl ∈ p.functions,
    ∀ type ∈ decl.returnType :: decl.params.map (·.type), type.isUnsigned = false
  bodies : ∀ decl ∈ p.functions, ∀ body, decl.body = some body → body.isTame = true

namespace FunctionDef.Draft

variable {f : FunctionDef} {avail sources : Nat → Set Nat} {done : List Block} {last : Block}
  {i : Instr}

theorem instrs_pushLast (hf : f.blocks = done ++ [last]) (i : Instr) :
    (f.pushLast done last i).instrs = f.instrs ++ [i] := by
  simp [FunctionDef.pushLast, instrs, hf]

/-- Finishing a draft adds at most one instruction at its end, which has no operands. -/
theorem instrs_finalize (h : f.Draft avail sources) : f.finalize.instrs = f.instrs ∨
    f.finalize.instrs = f.instrs ++ [.ret none] ∨
    f.finalize.instrs = f.instrs ++ [.unreachable] := by
  obtain ⟨done, last, hf⟩ := h.exists_last
  rcases h.finalize_cases hf with ⟨heq, -⟩ | ⟨-, -, heq⟩ | ⟨-, -, -, -, heq⟩
  · exact .inl (by rw [heq])
  · exact .inr (.inl (by rw [heq, instrs_pushLast hf]))
  · exact .inr (.inr (by rw [heq, instrs_pushLast hf]))

theorem mem_instrs_finalize (h : f.Draft avail sources) (hi : i ∈ f.finalize.instrs) :
    i ∈ f.instrs ∨ i = .ret none ∨ i = .unreachable := by
  rcases h.instrs_finalize with heq | heq | heq
  · exact .inl (heq ▸ hi)
  · rw [heq, List.mem_append, List.mem_singleton] at hi
    exact hi.imp_right .inl
  · rw [heq, List.mem_append, List.mem_singleton] at hi
    exact hi.imp_right .inr

/-- What is written down about a draft is still there when it is finished. -/
theorem lists_finalize (h : f.Draft avail sources) {e : LedgerEntry} (he : f.Lists e) :
    f.finalize.Lists e := by
  cases e with
  | param t type => exact he
  | instr i =>
    show i ∈ f.finalize.instrs
    rcases h.instrs_finalize with heq | heq | heq
    all_goals
      rw [heq]
      simp [show i ∈ f.instrs from he]
  | global g => exact he

end FunctionDef.Draft

namespace UnitState

variable {exact : Prop} {table : StructTable} {s : UnitState}

/-! ## Passes -/

theorem Regular.reportError (h : s.Regular exact table) (e : LoweringError) :
    (s.reportError e).Regular exact table := h.of_log _

theorem Regular.addGlobal (h : s.Regular exact table) {decl : VariableDecl Term}
    (hsigned : exact → decl.type.isUnsigned = false)
    (htame : exact → ∀ term, decl.initializer = some term → term.isTame = true) :
    (s.addGlobal decl).Regular exact table := by
  obtain ⟨hregular, -⟩ := Declare.Upholds.globalVariable hsigned htame s h
  rcases hexec : exec (Declare.globalVariable decl) s with ⟨e | ⟨⟩, s'⟩
  all_goals rw [hexec] at hregular
  · rw [addGlobal_of_error hexec]
    exact hregular.reportError _
  · rw [addGlobal_of_ok hexec]
    exact hregular

/-- The signature of a declared function is that for which its declaration stands. In an exact
unit, there are no unsigned integers in it, and its body is tame. -/
structure Knows (exact : Prop) (table : StructTable) (d : DeclaredFunction) : Prop where
  signature : d.signature =
    .ofSource table (d.decl.params.map (·.type)) d.decl.returnType false d.decl.owner
  signed : exact → ∀ type ∈ d.decl.returnType :: d.decl.params.map (·.type),
    type.isUnsigned = false
  tame : exact → ∀ body, d.decl.body = some body → body.isTame = true

theorem Regular.addFunction {declared : List DeclaredFunction} (h : s.Regular exact table)
    (hknows : ∀ d ∈ declared, Knows exact table d)
    {decl : FunctionDecl Statement}
    (hsigned : exact → ∀ type ∈ decl.returnType :: decl.params.map (·.type),
      type.isUnsigned = false)
    (htame : exact → ∀ body, decl.body = some body → body.isTame = true) :
    (UnitState.addFunction (s, declared) decl).1.Regular exact table ∧
      ∀ d ∈ (UnitState.addFunction (s, declared) decl).2, Knows exact table d := by
  obtain ⟨hregular, hpost⟩ :=
    Declare.Upholds.function (declared.map (·.decl.name)) hsigned s h
  rcases hexec : exec (Declare.function (declared.map (·.decl.name)) decl) s with ⟨e | d, s'⟩
  all_goals rw [hexec] at hregular hpost
  · rw [addFunction_of_error hexec]
    exact ⟨hregular.reportError e, hknows⟩
  · rw [addFunction_of_ok hexec]
    refine ⟨hregular, fun d' hd' => ?_⟩
    rcases List.mem_append.mp hd' with hd' | hd'
    · exact hknows d' hd'
    · obtain rfl := List.mem_singleton.mp hd'
      obtain ⟨rfl, hsignature⟩ := hpost d' rfl
      exact ⟨hsignature, hsigned, htame⟩

/-- No name is declared yet, only structs. In an exact unit, they have no unsigned fields. -/
structure Bare (exact : Prop) (s : UnitState) : Prop where
  consistent : s.structs.Consistent
  signed : exact → s.structs.IsSigned
  functions : s.functions = predeclared
  globals : s.globals = []
  constants : s.code.globals = []
  code : ∀ table, ∀ f ∈ s.code.functions, f.Admitted exact table s.code.globals

theorem bare_initial (moduleName : String) (log : DiagnosticLog) :
    (initial moduleName log).Bare exact where
  consistent := by simp [initial, StructTable.empty, StructTable.Consistent]
  signed := by simp [initial, StructTable.empty, StructTable.IsSigned]
  functions := rfl
  globals := rfl
  constants := rfl
  code := by
    intro table f hf
    simp only [initial, predeclared, List.foldl_cons, List.foldl_nil, CodeModule.addFunction,
      CodeModule.empty, List.nil_append, List.cons_append, List.mem_cons, List.not_mem_nil,
      or_false] at hf
    rcases hf with rfl | rfl | rfl | rfl | rfl | rfl
    all_goals exact FunctionDef.admitted_declaration ..

theorem Bare.addInterface (h : s.Bare exact) (decl : InterfaceDecl) :
    (s.addInterface decl).Bare exact := by
  rw [UnitState.addInterface, StructTable.declareInterface]
  split
  · next structs heq =>
    split at heq
    · cases heq
    · cases heq
      exact ⟨h.consistent, h.signed, h.functions, h.globals, h.constants, h.code⟩
  · exact ⟨h.consistent, h.signed, h.functions, h.globals, h.constants, h.code⟩

/-- A struct is laid out with the structs before it. -/
theorem Bare.addStruct (h : s.Bare exact) {decl : StructDecl}
    (hsigned : exact → ∀ field ∈ decl.fields, field.type.isUnsigned = false) :
    (s.addStruct decl).Bare exact := by
  rcases addStruct_cases h.consistent decl with
    ⟨e, -, heq⟩ | ⟨layout, log, -, hlayout, -, heq⟩
  all_goals rw [heq]
  · exact ⟨h.consistent, h.signed, h.functions, h.globals, h.constants, h.code⟩
  · obtain ⟨layout', hlayout', -, hconsistent, hsources, hresolved⟩ :=
      h.consistent.exists_layout decl
    obtain rfl := Option.some.inj (hlayout.symm.trans hlayout')
    refine ⟨fun l hl => ?_, fun hexact l hl field hfield => ?_, h.functions, h.globals,
      h.constants, h.code⟩
    · rcases List.mem_append.mp hl with hl | hl
      · exact h.consistent l hl
      · exact List.mem_singleton.mp hl ▸ hconsistent
    · rcases List.mem_append.mp hl with hl | hl
      · exact h.signed hexact l hl field hfield
      · obtain rfl := List.mem_singleton.mp hl
        rw [hresolved field hfield, h.consistent.isUnsigned_resolve]
        have hsource : field.source ∈ decl.fields.map (·.type) :=
          hsources ▸ List.mem_map_of_mem hfield
        obtain ⟨field', hfield', heq⟩ := List.mem_map.mp hsource
        exact heq ▸ hsigned hexact field' hfield'

/-- The predeclared functions have the same signatures whatever structs there are. -/
theorem resolves_predeclared (table : StructTable) : ∀ entry ∈ predeclared,
    entry.2.Resolves table ∧ entry.2.IsSigned := by
  intro entry he
  have hempty : StructTable.empty.Consistent := by
    simp [StructTable.empty, StructTable.Consistent]
  simp only [predeclared, List.mem_cons, List.not_mem_nil, or_false] at he
  rcases he with rfl | rfl | rfl | rfl | rfl | rfl
  all_goals exact ⟨⟨rfl, rfl⟩, Signature.isSigned_ofSource hempty (by decide)⟩

theorem Bare.regular (h : s.Bare exact) : s.Regular exact s.structs where
  structs := rfl
  consistent := h.consistent
  signed := h.signed
  functions := by
    rw [h.functions]
    intro entry he
    obtain ⟨hresolves, hsigned⟩ := resolves_predeclared s.structs entry he
    exact ⟨hresolves, fun _ => hsigned⟩
  globals := by simp [h.globals]
  initializers := by simp [h.constants]
  code := h.code s.structs

/-! ## Bodies -/

variable {d : DeclaredFunction}

/-- The setting in which the body of a function is lowered. -/
def Regular.setting (h : s.Regular exact table) (hd : Knows exact table d) : Setting where
  env := s.environment d
  returnType := d.signature.returnType
  exact := exact
  structs := by
    show s.structs.Consistent
    exact h.structs.symm ▸ h.consistent
  fields := by
    show exact → s.structs.IsSigned
    exact h.structs.symm ▸ h.signed
  signatures := by
    show ∀ entry ∈ s.functions, entry.2.Resolves s.structs ∧ _
    exact h.structs.symm ▸ h.functions
  result := by
    intro hexact
    have hsigned : d.signature.IsSigned := by
      rw [hd.signature]
      exact Signature.isSigned_ofSource h.consistent (hd.signed hexact)
    exact hsigned _ List.mem_cons_self

/-- Binding parameters to temporaries. -/
theorem mem_foldl_declare {params : List ((Parameter × MachineType) × Nat)}
    {location : Option Location} {scope : Scope} {entry : String × Binding}
    (h : entry ∈ (params.foldl (fun scope ((param, type), index) => scope.declare param.name
      ⟨.direct (.temp index), param.type, type, false, true, location⟩) scope).entries) :
    entry ∈ scope.entries ∨ ∃ param type index, ((param, type), index) ∈ params ∧
      entry.2 = ⟨.direct (.temp index), param.type, type, false, true, location⟩ := by
  induction params generalizing scope with
  | nil => exact .inl h
  | cons p params ih =>
    rcases ih h with h | ⟨param, type, index, hmem, heq⟩
    · rcases List.mem_append.mp h with h | h
      · exact .inl (List.mem_filter.mp h).1
      · obtain rfl := List.mem_singleton.mp h
        exact .inr ⟨p.1.1, p.1.2, p.2, by simp, rfl⟩
    · exact .inr ⟨param, type, index, by simp [hmem], heq⟩

/-- A parameter is bound to the temporary that holds it. -/
theorem mem_parameterScope {entry : String × Binding} (h : entry ∈ d.parameterScope.entries) :
    ∃ param type index, d.decl.params[index]? = some param ∧
      d.signature.paramTypes[index]? = some type ∧ (index, type) ∈ d.declaration.params ∧
      entry.2 = ⟨.direct (.temp index), param.type, type, false, true, d.decl.location⟩ := by
  rcases mem_foldl_declare h with h | ⟨param, type, index, hmem, heq⟩
  · cases h
  · obtain ⟨hparam, htype⟩ :=
      List.getElem?_zip_eq_some.mp (List.mk_mem_zipIdx_iff_getElem?.mp hmem)
    refine ⟨param, type, index, hparam, htype, ?_, heq⟩
    exact List.mem_map.mpr ⟨(type, index), List.mk_mem_zipIdx_iff_getElem?.mpr htype, rfl⟩

theorem mem_ledger_start {e : LedgerEntry} : e ∈ (s.start d).ledger ↔
    (∃ t type, (t, type) ∈ d.declaration.params ∧ e = .param t type) ∨ e ∈ s.ledger := by
  have hentries : e ∈ (s.start d).builder.entries ↔
      ∃ t type, (t, type) ∈ d.declaration.params ∧ e = .param t type := by
    cases e <;> simp [start, FunctionBuilder.start, FunctionBuilder.entries, FunctionDef.Lists,
      FunctionDef.instrs]
  exact or_congr hentries Iff.rfl

/-- At the start of a body there are only its parameters and the names of its unit. -/
theorem Regular.holds_start (h : s.Regular exact table) (hd : Knows exact table d) :
    (h.setting hd).Holds (s.start d) where
  code := by
    rintro i hi
    rcases mem_ledger_start.mp hi with ⟨t, type, -, hi⟩ | ⟨g, -, hi⟩ <;> cases hi
  locals := by
    intro entry he
    obtain ⟨param, type, index, hparam, htype, hmem, heq⟩ := mem_parameterScope he
    -- The signature was resolved with the table of the unit, so both types agree.
    have hresolve : type = s.structs.resolve param.type := by
      rw [hd.signature, h.structs] at *
      simpa [Signature.ofSource, hparam, eq_comm] using htype
    rw [heq, hresolve]
    refine ⟨.direct ?_, Setting.allows_resolve (c := h.setting hd) fun hexact => ?_,
      (h.setting hd).matches_resolve param.type⟩
    · exact mem_ledger_start.mpr (.inl ⟨index, _, hresolve ▸ hmem, rfl⟩)
    · apply hd.signed hexact
      exact List.mem_cons_of_mem _ (List.mem_map_of_mem (List.mem_of_getElem? hparam))
  globals := by
    intro entry he
    obtain ⟨hhouses, htype, hsigned⟩ := h.globals entry he
    rw [← h.structs] at htype
    refine ⟨hhouses.mono fun e he => mem_ledger_start.mpr (.inr he), ?_, ?_⟩
    · rw [htype]
      exact Setting.allows_resolve (c := h.setting hd) hsigned
    · rw [htype]
      exact (h.setting hd).matches_resolve entry.2.source
  initializers := h.initializers

/-- Whatever fails in a body, it keeps to its setting. -/
theorem Regular.holds_lowerBody (h : s.Regular exact table) (hd : Knows exact table d)
    {body : Statement} (hbody : d.decl.body = some body) :
    (h.setting hd).Holds (s.lowerBody d body) ∧
      (s.start d).ledger ⊆ (s.lowerBody d body).ledger := by
  have hobeys : (h.setting hd).Obeys ∅ (Lower.recovering
      (Lower.functionBody (s.environment d) (context d) body)) fun _ _ => True :=
    .recovering (.functionBody rfl fun hexact => hd.tame hexact body hbody)
  obtain ⟨hholds, hledger, -⟩ := hobeys (s.start d) (h.holds_start hd) (Set.empty_subset _)
  exact ⟨hholds, hledger⟩

/-- The global variables of a regular unit live at names. -/
theorem Regular.rooted (h : s.Regular exact table) : s.Rooted := by
  intro entry he
  obtain ⟨hhouses, -⟩ := h.globals entry he
  generalize entry.2.storage = storage, entry.2.type = type at hhouses
  cases hhouses with
  | stack hslot =>
    obtain ⟨g, -, hg⟩ := hslot
    cases hg
  | global hglobal => simp [Storage.temps]
  | direct hparam =>
    obtain ⟨g, -, hg⟩ := hparam
    cases hg

/-- The function that the lowering of a body leaves is made of admitted instructions. -/
theorem Regular.admitted_lowerBody (h : s.Regular exact table) (hd : Knows exact table d)
    {body : Statement} (hbody : d.decl.body = some body) :
    ∃ f, (s.lowerBody d body).builder.function = some f ∧
      f.returnType = d.signature.returnType ∧
      f.finalize.Admitted exact table (s.lowerBody d body).globals := by
  obtain ⟨f, avail, sources, hf, ⟨blocks, hsignature⟩, hdraft⟩ :=
    exists_draft_lowerBody (h.rooted.environment d) body
  have hreturn : f.returnType = d.signature.returnType := by rw [hsignature]; rfl
  have hholds := (h.holds_lowerBody hd hbody).1
  have hledger : (s.lowerBody d body).ledger ⊆
      f.finalize.ledger (s.lowerBody d body).globals := by
    rintro e (⟨f', hf', he⟩ | he)
    · obtain rfl := Option.some.inj (hf.symm.trans hf')
      exact .inl (hdraft.lists_finalize he)
    · exact .inr he
  refine ⟨f, hf, hreturn, hdraft.finalize.definitions_nodup, fun i hi => ?_⟩
  refine ⟨h.setting hd, rfl, h.structs, hreturn.symm, ?_⟩
  rcases hdraft.mem_instrs_finalize hi with hi | rfl | rfl
  · exact (hholds.code i (.inl ⟨f, hf, hi⟩)).mono hledger
  · exact .leave
  · exact .unreachable

/-- Whether the function of a body is kept or not, the unit stays regular. -/
theorem Regular.addBodyOf (h : s.Regular exact table) (hd : Knows exact table d)
    (options : LoweringOptions) : (s.addBodyOf options d).Regular exact table := by
  rw [UnitState.addBodyOf]
  cases hbody : d.decl.body with
  | none => exact h
  | some body =>
    obtain ⟨hholds, hledger⟩ := h.holds_lowerBody hd hbody
    obtain ⟨f, hf, -, hadmitted⟩ := h.admitted_lowerBody hd hbody
    have hgrown : s.code.globals ⊆ (s.lowerBody d body).globals := by
      intro g hg
      have hstart : .global g ∈ (s.start d).ledger := mem_ledger_start.mpr (.inr ⟨g, hg, rfl⟩)
      exact BodyState.global_mem_ledger.mp (hledger hstart)
    have hregular (log : DiagnosticLog) : UnitState.Regular exact table { s with
        code := { s.code with globals := (s.lowerBody d body).globals }, log } :=
      h.of_grown rfl rfl rfl hgrown rfl hholds.initializers
    -- The string literals of the body stay in the unit, even if its function is dropped.
    cases hfault : f.finalize.fault? with
    | none =>
      simp only [addBody_of_sound hf hfault]
      exact (hregular _).replaceFunction hadmitted
    | some fault =>
      simp only [addBody_of_fault hf hfault]
      exact hregular _

end UnitState

namespace Program

open UnitState

/-- The unit behind the structs of a program. -/
def laidOut (p : Program) (moduleName : String) (log : DiagnosticLog) : UnitState :=
  p.structs.foldl UnitState.addStruct
    (p.interfaces.foldl UnitState.addInterface (initial moduleName log))

variable {p : Program} {options : LoweringOptions} {log : DiagnosticLog} {s : UnitState}
  {d : DeclaredFunction} {body : Statement} {exact : Prop}

theorem bare_interfaces (p : Program) (moduleName : String) (log : DiagnosticLog) :
    (p.interfaces.foldl UnitState.addInterface (initial moduleName log)).Bare exact :=
  List.foldlRecOn p.interfaces _ (bare_initial moduleName log)
    fun _ hs decl _ => hs.addInterface decl

theorem bare_laidOut (p : Program) (hexact : exact → p.Tame) (moduleName : String)
    (log : DiagnosticLog) : (p.laidOut moduleName log).Bare exact :=
  List.foldlRecOn p.structs _ (p.bare_interfaces moduleName log)
    fun _ hs decl hdecl => hs.addStruct fun h => (hexact h).fields decl hdecl

/-- Laying out structs declares no functions. -/
theorem functions_laidOut (p : Program) (moduleName : String) (log : DiagnosticLog) :
    (p.laidOut moduleName log).functions = predeclared :=
  have hbare : (p.laidOut moduleName log).Bare False := p.bare_laidOut False.elim moduleName log
  hbare.functions

theorem consistent_laidOut (p : Program) (moduleName : String) (log : DiagnosticLog) :
    (p.laidOut moduleName log).structs.Consistent :=
  have hbare : (p.laidOut moduleName log).Bare False := p.bare_laidOut False.elim moduleName log
  hbare.consistent

/-- The declarations of interfaces and structs report findings about the program only. -/
theorem judges_laidOut (p : Program) (moduleName : String) (log : DiagnosticLog) :
    log.Judges (p.laidOut moduleName log).log := by
  have hinterfaces := List.foldlRecOn
    (motive := fun s : UnitState => s.Bare False ∧ log.Judges s.log) p.interfaces _
    ⟨bare_initial moduleName log, .refl log⟩
    fun s hs decl _ => ⟨hs.1.addInterface decl, hs.2.trans (s.judges_addInterface decl)⟩
  exact (List.foldlRecOn
    (motive := fun s : UnitState => s.Bare False ∧ log.Judges s.log) p.structs _ hinterfaces
    fun s hs decl _ => ⟨hs.1.addStruct False.elim,
      hs.2.trans (judges_addStruct hs.1.consistent decl)⟩).2

/-- So do all declarations. -/
theorem judges_declare (p : Program) (moduleName : String) (log : DiagnosticLog) :
    log.Judges (p.declare moduleName log).1.log :=
  ((p.judges_laidOut moduleName log).trans (judges_foldl_addGlobal _ p.globals)).trans
    (judges_foldl_addFunction (_, []) p.functions)

/-- Behind the declarations of a program, the unit is regular. -/
theorem regular_declare (p : Program) (hexact : exact → p.Tame) (moduleName : String)
    (log : DiagnosticLog) :
    (p.declare moduleName log).1.Regular exact (p.laidOut moduleName log).structs ∧
      ∀ d ∈ (p.declare moduleName log).2, Knows exact (p.laidOut moduleName log).structs d := by
  have hglobals := List.foldlRecOn
    (motive := UnitState.Regular exact (p.laidOut moduleName log).structs) p.globals _
    (p.bare_laidOut hexact moduleName log).regular fun s hs decl hdecl => hs.addGlobal
      (fun h => ((hexact h).globals decl hdecl).1) fun h => ((hexact h).globals decl hdecl).2
  refine List.foldlRecOn (motive := fun acc =>
    UnitState.Regular exact (p.laidOut moduleName log).structs acc.1 ∧
    ∀ d ∈ acc.2, Knows exact (p.laidOut moduleName log).structs d)
    p.functions UnitState.addFunction ?_ ?_
  · exact ⟨hglobals, fun d hd => by cases hd⟩
  · exact fun acc hacc decl hdecl => hacc.1.addFunction hacc.2
      (fun h => (hexact h).signatures decl hdecl) fun h => (hexact h).bodies decl hdecl

/-- A body is lowered in a regular unit, from the declarations of the program on. -/
theorem Turn.regular (h : p.Turn options log s d body) (hexact : exact → p.Tame) :
    s.Regular exact (p.laidOut options.moduleName log).structs ∧
      Knows exact (p.laidOut options.moduleName log).structs d := by
  obtain ⟨hregular, hknows⟩ := p.regular_declare hexact options.moduleName log
  obtain ⟨-, before, after, heq, rfl⟩ := h
  rw [heq] at hknows
  refine ⟨?_, hknows d (by simp)⟩
  exact List.foldlRecOn (motive := UnitState.Regular exact _) before _ hregular
    fun s hs d hd => hs.addBodyOf (hknows d (by simp [hd])) options

/-- The function that is left of a body, whether it is kept or not. -/
theorem Turn.admitted (h : p.Turn options log s d body) (hexact : exact → p.Tame) :
    ∃ f, (s.lowerBody d body).builder.function = some f ∧
      f.returnType = d.signature.returnType ∧
      f.finalize.Admitted exact (p.laidOut options.moduleName log).structs
        (s.lowerBody d body).globals := by
  obtain ⟨hregular, hknows⟩ := h.regular hexact
  exact hregular.admitted_lowerBody hknows h.body_eq

/-- The unit from which a module is taken is regular. -/
theorem regular_generate (p : Program) (options : LoweringOptions) (log : DiagnosticLog)
    (hexact : exact → p.Tame) : ∃ s : UnitState, (p.generate options log).1 = s.code ∧
      s.Regular exact (p.laidOut options.moduleName log).structs := by
  obtain ⟨hregular, hknows⟩ := p.regular_declare hexact options.moduleName log
  refine ⟨_, rfl, ?_⟩
  exact List.foldlRecOn (motive := UnitState.Regular exact _) _ _ hregular
    fun s hs d hd => hs.addBodyOf (hknows d hd) options

/-! ## Operands -/

/-- Every operand is used at the type with which it was defined: in the function that is left
of a body, whatever failed in it and whether it is kept or not, and in every function of the
module. -/
theorem operands_wellTyped (p : Program) (options : LoweringOptions) (log : DiagnosticLog) :
    (∀ s d body, p.Turn options log s d body →
      ∃ f, (s.lowerBody d body).builder.function = some f ∧
        f.finalize.returnType = d.signature.returnType ∧ f.finalize.WellTyped) ∧
    ∀ f ∈ (p.generate options log).1.functions, f.WellTyped := by
  constructor
  · intro s d body h
    obtain ⟨f, hf, hreturn, hadmitted⟩ := h.admitted (fun hfalse : False => hfalse.elim)
    exact ⟨f, hf, hreturn, hadmitted.wellTyped⟩
  · obtain ⟨s, hs, hregular⟩ := p.regular_generate options log fun hfalse : False => hfalse.elim
    rw [hs]
    exact fun f hf => (hregular.code f hf).wellTyped

/-- A function that returns its parameter as a wider integer. -/
def widened : FunctionDecl Statement where
  name := "widened"
  params := [⟨"byte", .named "u8"⟩]
  returnType := .named "i32"
  body := some (.ret none (some (.variable none "byte")))
  owner := none
  location := none

theorem operands_wellTyped_widened : ∃ f : FunctionDef, f.name = "widened" ∧
    .convert 1 .zext (.temp 0) .u8 .i32 ∈ f.instrs ∧ f.WellTyped := by
  obtain ⟨f, hf, hname, hmem⟩ : ∃ f : FunctionDef,
      f ∈ (generate .standard ⟨[.function widened]⟩ .empty).1.functions ∧
      f.name = "widened" ∧ .convert 1 .zext (.temp 0) .u8 .i32 ∈ f.instrs := by
    decide +kernel
  exact ⟨f, hname, hmem, (operands_wellTyped ⟨[.function widened]⟩ .standard .empty).2 f hf⟩

end Program

end SsaLowering
