import SsaLowering.Proofs.ClosedModule

/-!
# Calls agree with their callees

A call that is written in the program is checked against the signature of its callee. An
allocation is not: it hands one number of bytes to whatever function has the name of the
allocator, and a program can declare that function with parameters of its own.
-/

namespace SsaLowering

namespace Instr

/-- What is called has the type of a function that can be called with these arguments. -/
def Agrees : Instr → Prop
  | .call _ _ type args => type.Accepts (args.map Prod.fst)
  | _ => True

/-- The call that an allocation makes. -/
def IsAllocation (i : Instr) : Prop :=
  ∃ result type bytes, i = .call result (.function Lower.allocator) type [(.i64, .int bytes)]

end Instr

/-- Only one source type stands for the sizes of allocations. -/
theorem StructTable.Consistent.resolve_eq_i64 {table : StructTable} (h : table.Consistent)
    {t : SourceType} : table.resolve t = .i64 ↔ t = .named "i64" := by
  constructor
  · intro htype
    rcases table.resolve_cases t with ⟨-, heq⟩ | ⟨hp, hb⟩ | ⟨-, -, layout, hf, heq⟩ | ⟨-, -, -, heq⟩
    · simp [heq] at htype
    · obtain ⟨name, isPointer⟩ := t
      obtain rfl : isPointer = false := hp
      rw [htype] at hb
      unfold SourceType.builtin? at hb
      split at hb <;> cases hb
      next hname => exact congrArg SourceType.named hname
    · rw [heq, (h layout (mem_of_find? hf).1).type_eq] at htype
      cases htype
    · simp [heq] at htype
  · rintro rfl
    rfl

/-- With parameters in a fixed number, a signature accepts a size if that is all it takes. -/
theorem Signature.accepts_size {sig : Signature} {table : StructTable} (hc : table.Consistent)
    (h : sig.Resolves table) (hfixed : sig.isVararg = false) :
    sig.type.Accepts [.i64] ↔ sig.params = [.named "i64"] := by
  rw [Signature.type, MachineType.Accepts, h.params]
  constructor
  · rintro ⟨htypes, hlength⟩
    have heq := htypes.eq_of_length (hlength hfixed).symm
    obtain ⟨t, hparams, htype⟩ := List.map_eq_singleton_iff.mp heq
    rw [hparams, hc.resolve_eq_i64.mp htype]
  · intro hparams
    rw [hparams, List.map_singleton, hc.resolve_eq_i64.mpr rfl]
    exact ⟨List.prefix_rfl, fun _ => rfl⟩

namespace UnitState

/-- Of the functions of one name, the first one is declared. It hides the predeclared one. -/
theorem lookup_foldl_addFunction (s : UnitState) (declared : List DeclaredFunction)
    (decls : List (FunctionDecl Statement)) (name : String) :
    (decls.foldl addFunction (s, declared)).1.functions.lookup name =
      if name ∈ declared.map (·.decl.name) then s.functions.lookup name
      else ((decls.find? (·.name == name)).map fun decl => .ofSource s.structs
        (decl.params.map (·.type)) decl.returnType false decl.owner).or
          (s.functions.lookup name) := by
  induction decls generalizing s declared with
  | nil => simp
  | cons decl decls ih =>
    rcases s.addFunction_cases declared decl with
      ⟨hname, e, -, heq⟩ | ⟨hname, d, log, -, rfl, hsignature, heq⟩
    all_goals rw [List.foldl_cons, heq, ih, List.find?_cons]
    · by_cases hdeclared : name ∈ declared.map (·.decl.name)
      · rw [if_pos hdeclared, if_pos hdeclared]
        rfl
      · have hne : (decl.name == name) = false :=
          beq_eq_false_iff_ne.mpr fun h => hdeclared (h ▸ hname)
        rw [if_neg hdeclared, if_neg hdeclared, hne]
        rfl
    · dsimp only
      rw [List.map_append, List.map_singleton, CodeModule.lookup_cons_ite]
      by_cases hfirst : name = d.decl.name
      · subst hfirst
        rw [if_neg hname, if_pos (by simp), if_pos rfl, beq_self_eq_true, hsignature]
        rfl
      · have hne : (d.decl.name == name) = false := beq_eq_false_iff_ne.mpr (Ne.symm hfirst)
        simp only [List.mem_append, List.mem_singleton, hfirst, or_false, if_false, hne]

end UnitState

namespace Program

open UnitState

variable {p : Program} {options : LoweringOptions} {log : DiagnosticLog} {s : UnitState}
  {d : DeclaredFunction} {body : Statement}

/-- If the program declares the allocator, it takes one size. -/
def AllocatesBySize (p : Program) : Prop :=
  ∀ decl, p.functions.find? (·.name == Lower.allocator) = some decl →
    decl.params.map (·.type) = [.named "i64"]

/-- Behind the declarations, the first function of each name is declared. -/
theorem lookup_declare (p : Program) (moduleName : String) (log : DiagnosticLog) (name : String) :
    (p.declare moduleName log).1.functions.lookup name =
      ((p.functions.find? (·.name == name)).map fun decl => .ofSource
        (p.laidOut moduleName log).structs (decl.params.map (·.type)) decl.returnType false
        decl.owner).or (predeclared.lookup name) := by
  obtain ⟨hstructs, hfunctions⟩ := List.foldlRecOn
    (motive := fun s : UnitState =>
      s.structs = (p.laidOut moduleName log).structs ∧ s.functions = predeclared)
    p.globals UnitState.addGlobal (b := p.laidOut moduleName log)
    ⟨rfl, p.functions_laidOut moduleName log⟩ fun s hs decl _ => by
      obtain ⟨globals, log, -, -, ⟨e, -, heq⟩ | ⟨-, source, value, -, heq⟩⟩ :=
        s.addGlobal_cases decl
      all_goals
        rw [heq]
        exact hs
  have hlookup := lookup_foldl_addFunction
    (p.globals.foldl UnitState.addGlobal (p.laidOut moduleName log)) [] p.functions name
  rw [hstructs, hfunctions] at hlookup
  exact hlookup

/-- Bodies declare no functions. -/
theorem Turn.functions_eq (h : p.Turn options log s d body) :
    s.functions = (p.declare options.moduleName log).1.functions :=
  (p.induction_turns options log
    (motive := fun s => s.functions = (p.declare options.moduleName log).1.functions) rfl
    fun s d body _ hs => (functions_addBody options s d body).trans hs).1 s d body h

/-- Where a body is lowered, a name has the signature of a function of the program, or else that
of a predeclared one. -/
theorem Turn.lookup_cases (h : p.Turn options log s d body) {name : String} {sig : Signature}
    (hsig : s.functions.lookup name = some sig) :
    (∃ decl, p.functions.find? (·.name == name) = some decl ∧
      sig = .ofSource (p.laidOut options.moduleName log).structs (decl.params.map (·.type))
        decl.returnType false decl.owner) ∨
    p.functions.find? (·.name == name) = none ∧ predeclared.lookup name = some sig := by
  rw [h.functions_eq, p.lookup_declare] at hsig
  cases hdecl : p.functions.find? (·.name == name) with
  | none =>
    simp only [hdecl, Option.map_none, Option.none_or] at hsig
    exact .inr ⟨rfl, hsig⟩
  | some decl =>
    simp only [hdecl, Option.map_some, Option.some_or] at hsig
    exact .inl ⟨decl, rfl, (Option.some.inj hsig).symm⟩

/-- What an allocation calls accepts a size if the allocator of the program does. -/
theorem Turn.accepts_size (h : p.Turn options log s d body) {sig : Signature}
    (hsig : s.functions.lookup Lower.allocator = some sig) :
    sig.type.Accepts [.i64] ↔ p.AllocatesBySize := by
  rcases h.lookup_cases hsig with ⟨decl, hdecl, rfl⟩ | ⟨hnone, hpredeclared⟩
  · have hconsistent := p.consistent_laidOut options.moduleName log
    rw [Signature.accepts_size hconsistent (Signature.resolves_ofSource ..) rfl]
    simp [AllocatesBySize, hdecl, Signature.ofSource]
  · obtain rfl := Option.some.inj hpredeclared
    refine ⟨fun _ decl hdecl => ?_, fun _ => ⟨List.prefix_rfl, fun _ => rfl⟩⟩
    cases hnone.symm.trans hdecl

/-- Every call agrees with its callee, up to the allocations of a program that declares the
allocator with other parameters. This holds for what is left of a body, whatever failed in it and
whether it is kept or not, and for every function of the module. -/
theorem call_agrees (p : Program) (options : LoweringOptions) (log : DiagnosticLog) :
    (∀ s d body, p.Turn options log s d body →
      ∃ f, (s.lowerBody d body).builder.function = some f ∧
        ∀ i ∈ f.finalize.instrs, i.Agrees ↔ (i.IsAllocation → p.AllocatesBySize)) ∧
    ∀ f ∈ (p.generate options log).1.functions,
      ∀ i ∈ f.instrs, i.Agrees ↔ (i.IsAllocation → p.AllocatesBySize) := by
  have hturns : ∀ s d body, p.Turn options log s d body →
      ∃ f, (s.lowerBody d body).builder.function = some f ∧
        ∀ i ∈ f.finalize.instrs, i.Agrees ↔ (i.IsAllocation → p.AllocatesBySize) := by
    intro s d body h
    obtain ⟨hcomplete, hannounced⟩ := (p.complete_turns options log).1 s d body h
    obtain ⟨f, hf, -, -, hadmits, -⟩ := hcomplete.linked.exists_lowerBody hannounced.resolves body
    refine ⟨f, hf, fun i hi => ?_⟩
    by_cases halloc : i.IsAllocation
    -- The type of the call is that of the first function with the name of the allocator.
    · obtain ⟨result, type, bytes, rfl⟩ := halloc
      obtain ⟨name, sig, hname, hsig, rfl⟩ := ((hadmits _ hi).calls _ _ _ _ rfl).exists_signature
      cases hname
      have hiff := h.accepts_size hsig
      exact ⟨fun hagrees _ => hiff.mp hagrees, fun hall => hiff.mpr (hall ⟨_, _, _, rfl⟩)⟩
    · refine ⟨fun _ h => absurd h halloc, fun _ => ?_⟩
      cases i with
      | call result callee type args =>
        cases (hadmits _ hi).calls _ _ _ _ rfl with
        | checked _ haccepts => exact haccepts
        | allocation bytes _ => exact absurd ⟨_, _, _, rfl⟩ halloc
      | _ => trivial
  refine ⟨hturns, fun f hf i hi => ?_⟩
  rcases eq_finalize_of_mem_generate hf with hblocks | ⟨s, d, body, g, hturn, hg, rfl⟩
  · simp [FunctionDef.instrs, hblocks] at hi
  · obtain ⟨g', hg', hall⟩ := hturns s d body hturn
    obtain rfl := Option.some.inj (hg.symm.trans hg')
    exact hall i hi

/-- An allocator that takes narrower integers than sizes are. -/
def narrowMalloc : FunctionDecl Statement where
  name := "malloc"
  params := [⟨"x", .named "i32"⟩]
  returnType := .pointerTo "void"
  body := none
  owner := none
  location := none

/-- A function that allocates one integer. -/
def newInteger : FunctionDecl Statement where
  name := "fresh"
  params := []
  returnType := .pointerTo "i64"
  body := some (.ret none (some (.alloc none (.named "i64"))))
  owner := none
  location := none

/-- An allocation hands a size to an allocator that does not take it, and nothing is reported. -/
theorem call_disagrees_narrowMalloc : ∃ f : FunctionDef,
    f ∈ (generate .standard ⟨[.function narrowMalloc, .function newInteger]⟩ .empty).1.functions ∧
    .call (some 0) (.function "malloc") (.function .ptr [.i32] false) [(.i64, .int 8)] ∈ f.instrs ∧
    ¬ (Instr.call (some 0) (.function "malloc") (.function .ptr [.i32] false)
      [(.i64, .int 8)]).Agrees ∧
    (generate .standard ⟨[.function narrowMalloc, .function newInteger]⟩ .empty).2 = .empty := by
  obtain ⟨f, hf, hmem, hlog⟩ : ∃ f : FunctionDef,
      f ∈ (generate .standard ⟨[.function narrowMalloc, .function newInteger]⟩ .empty).1.functions ∧
      .call (some 0) (.function "malloc") (.function .ptr [.i32] false) [(.i64, .int 8)]
        ∈ f.instrs ∧
      (generate .standard ⟨[.function narrowMalloc, .function newInteger]⟩ .empty).2 = .empty := by
    decide +kernel
  refine ⟨f, hf, hmem, fun hagrees => ?_, hlog⟩
  have htypes : [MachineType.i32] <+: [.i64] := hagrees.1
  exact absurd htypes (by decide)

end Program

end SsaLowering
