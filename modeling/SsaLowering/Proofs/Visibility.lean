import SsaLowering.Proofs.FirstDeclarations

/-!
# Private fields

Every level of a member access checks whether its field may be touched, before an instruction is
added for it. So whatever is selected in a function, at any depth and whatever fails later, is a
public field or a field of the struct that owns the function.
-/

namespace SsaLowering

namespace Instr

/-- An address is computed, or a field is taken out of a value. -/
def isSelection : Instr → Bool
  | .address .. | .extract .. => true
  | _ => false

/-- A field of a struct is selected by its number, which is a word in an address. -/
inductive Selects (name : String) (index : Nat) : Instr → Prop
  | address {result : Nat} {types : List MachineType} {ptr : Value} :
    Selects name index
      (.address result (.struct name types) ptr [.int 0, .int (Int64.ofNat index)])
  | extract {result : Nat} {value : Value} {types : List MachineType} {type : MachineType} :
    Selects name index (.extract result value (.struct name types) index type)

end Instr

/-- Whatever the function selects is a field of a declared struct, and if the field is private,
the struct is the owner. -/
def FunctionDef.RespectsPrivacy (f : FunctionDef) (structs : List StructDecl)
    (owner : Option String) : Prop :=
  ∀ i ∈ f.instrs, i.isSelection = true → ∃ decl index field,
    structs.find? (·.name == decl.name) = some decl ∧ decl.fields[index]? = some field ∧
    i.Selects decl.name index ∧ (field.isPublic = false → owner = some decl.name)

/-- An admitted selection is one of a field that was opened. -/
theorem Setting.Admits.exists_selects {c : Setting} {L : Ledger} {i : Instr} (h : c.Admits L i)
    (hi : i.isSelection = true) : ∃ layout ∈ c.env.structs.layouts, ∃ field,
      c.Opens layout field ∧ i.Selects layout.name field.index := by
  cases h with
  | @address _ _ layout field _ hplace hopens =>
    cases hplace with
    | memory hlayout hptr hpoints =>
      refine ⟨layout, hlayout, field, hopens, ?_⟩
      rw [(c.structs layout hlayout).type_eq]
      exact .address
  | @extract _ _ layout field hplace hopens =>
    cases hplace with
    | aggregate hlayout hvalue htype =>
      refine ⟨layout, hlayout, field, hopens, ?_⟩
      rw [(c.structs layout hlayout).type_eq]
      exact .extract
  | _ => cases hi

namespace Program

open UnitState

variable {p : Program} {options : LoweringOptions} {log : DiagnosticLog} {s : UnitState}
  {d : DeclaredFunction} {body : Statement}

/-- A field of a struct that is laid out is declared, at its number. -/
theorem exists_declared_of_mem_laidOut {moduleName : String} {layout : StructLayout}
    (hlayout : layout ∈ (p.laidOut moduleName log).structs.layouts) {field : FieldLayout}
    (hfield : field ∈ layout.fields) :
    ∃ decl, p.structs.find? (·.name == decl.name) = some decl ∧ layout.name = decl.name ∧
      decl.fields[field.index]? = some field.declared := by
  obtain ⟨decl, hdecl, hdraws⟩ :=
    exists_of_forall₂ (p.draws_laidOut moduleName log) hlayout
  refine ⟨decl, find?_of_mem_firstsBy _ hdecl, hdraws.name, ?_⟩
  have hindex := (p.consistent_laidOut moduleName log _ hlayout).field_eq field hfield
  rw [← hdraws.fields, List.getElem?_map, hindex, Option.map_some]

/-- What is admitted in the body of a function selects no private fields but those of the
owner. -/
theorem Turn.respectsPrivacy (h : p.Turn options log s d body) :
    ∃ f, (s.lowerBody d body).builder.function = some f ∧ f.name = d.decl.name ∧
      f.finalize.RespectsPrivacy p.structs d.decl.owner := by
  obtain ⟨hregular, hknows⟩ := h.regular fun hfalse : False => hfalse.elim
  obtain ⟨f, avail, sources, hf, ⟨blocks, hsignature⟩, hdraft⟩ :=
    exists_draft_lowerBody (hregular.rooted.environment d) body
  refine ⟨f, hf, by rw [hsignature]; rfl, fun i hi hselection => ?_⟩
  -- What ends the last block of a function selects nothing.
  have hi : i ∈ f.instrs := by
    rcases hdraft.mem_instrs_finalize hi with hi | rfl | rfl
    · exact hi
    · cases hselection
    · cases hselection
  have hadmits := (hregular.holds_lowerBody hknows h.body_eq).1.code i (.inl ⟨f, hf, hi⟩)
  obtain ⟨layout, hlayout, field, ⟨hfield, hopen⟩, hselects⟩ := hadmits.exists_selects hselection
  replace hlayout : layout ∈ s.structs.layouts := hlayout
  rw [hregular.structs] at hlayout
  obtain ⟨decl, hfirst, hname, hdeclared⟩ := exists_declared_of_mem_laidOut hlayout hfield
  rw [hname] at hselects hopen
  refine ⟨decl, field.index, field.declared, hfirst, hdeclared, hselects, fun hprivate => ?_⟩
  exact hopen.resolve_left (Bool.eq_false_iff.mp hprivate)

/-- A private field is selected only in a function that its struct owns: in the function that is
left of a body, whatever failed in it and whether it is kept or not, and in every function that a
module defines. -/
theorem private_fields_owned (p : Program) (options : LoweringOptions) (log : DiagnosticLog) :
    (∀ s d body, p.Turn options log s d body →
      ∃ f, (s.lowerBody d body).builder.function = some f ∧
        f.finalize.RespectsPrivacy p.structs d.decl.owner) ∧
    ∀ f ∈ (p.generate options log).1.functions, f.isExternal = false →
      ∃ decl, p.functions.find? (·.name == f.name) = some decl ∧
        f.RespectsPrivacy p.structs decl.owner := by
  constructor
  · intro s d body h
    obtain ⟨f, hf, -, hprivacy⟩ := h.respectsPrivacy
    exact ⟨f, hf, hprivacy⟩
  · intro f hf hext
    obtain ⟨⟨avail, sources, hdraft⟩, -⟩ := exists_draft_generate hf hext
    obtain ⟨done, last, hblocks⟩ := hdraft.exists_last
    rcases eq_finalize_of_mem_generate hf with hnone | ⟨s, d, body, g, hturn, hg, rfl⟩
    · simp [hnone] at hblocks
    · obtain ⟨g', hg', hname, hprivacy⟩ := hturn.respectsPrivacy
      obtain rfl := Option.some.inj (hg.symm.trans hg')
      have hmem : d.decl ∈ firstsBy (·.name) p.functions := by
        rw [← p.decls_declare options.moduleName log]
        exact List.mem_map_of_mem hturn.mem
      refine ⟨d.decl, ?_, hprivacy⟩
      rw [show g.finalize.name = d.decl.name from hname]
      exact find?_of_mem_firstsBy _ hmem

/-- A struct with a private field, a function of its own that writes the field, and a function
that tries to read it without being an owner. -/
def account : Program where
  items := [.struct ⟨"Account", none, [⟨"balance", .named "i64", false⟩], none⟩,
    .function ⟨"deposit", [⟨"self", .pointerTo "Account"⟩, ⟨"amount", .named "i64"⟩],
      .named "void", some (.expression none (.assign none
        (.member none (.variable none "self") "balance") (.variable none "amount"))),
      some "Account", none⟩,
    .function ⟨"peek", [⟨"account", .pointerTo "Account"⟩], .named "i64", some (.ret none
      (some (.member none (.variable none "account") "balance"))), none, none⟩]

theorem private_fields_owned_account : ∃ f : FunctionDef, f.name = "deposit" ∧
    (∃ i ∈ f.instrs, i.Selects "Account" 0) ∧
    ∃ decl, account.functions.find? (·.name == "deposit") = some decl ∧
      f.RespectsPrivacy account.structs decl.owner := by
  obtain ⟨f, hf, hname, hext, hmem⟩ : ∃ f : FunctionDef,
      f ∈ (generate .standard account .empty).1.functions ∧ f.name = "deposit" ∧
      f.isExternal = false ∧
      .address 2 (.struct "Account" [.i64]) (.temp 0) [.int 0, .int (Int64.ofNat 0)] ∈
        f.instrs := by
    decide +kernel
  have hprivacy := (private_fields_owned account .standard .empty).2 f hf hext
  rw [hname] at hprivacy
  exact ⟨f, hname, ⟨_, hmem, .address⟩, hprivacy⟩

end Program

end SsaLowering
