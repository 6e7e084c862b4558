import SsaLowering.Proofs.Calls
import SsaLowering.Proofs.StatementFindings

/-!
# What the lowering of a program finds

Whatever is reported about a program is a finding about the program, with two exceptions: a loop
whose part that runs once leaves, and an allocation in a program that declares the allocator
without a value. There the lowering breaks its own assumptions and reports that.
-/

namespace SsaLowering

open Lower BodyState

/-- The parts of a body have the same loops as the body. -/
theorem Statement.allInitsStay_parts (body : Statement) :
    allInitsStay body.parts = body.initsStay := by
  cases body with
  | block => rfl
  | _ => exact Bool.and_true _

/-- A body finds faults of the program only, up to those that are given. -/
theorem UnitState.judges_lowerBody {s : UnitState} {d : DeclaredFunction} {body : Statement}
    {faults : String → Prop} (henv : (s.environment d).Rooted)
    (halloc : (s.environment d).Excuses faults)
    (h : body.initsStay = false → ∀ l, faults (BuildFault.terminatedBlock l).message) :
    s.log.JudgesUpTo faults (s.lowerBody d body).log := by
  obtain ⟨hexec, -⟩ := exists_laid_lowerBody henv body
  have hlog := (concludes_block henv halloc (context d) body.parts
    (body.allInitsStay_parts ▸ h) (s.opened d) steady_opened).log
  rw [hexec] at hlog
  exact hlog

namespace Program

open UnitState

variable {p : Program} {options : LoweringOptions} {log : DiagnosticLog} {s : UnitState}
  {d : DeclaredFunction} {body : Statement}

/-- What the lowering of a program may report although it is no finding about the program: that
the allocator of the program returns nothing, or that a loop goes on behind a return. -/
inductive Fault (p : Program) : String → Prop
  | allocation {decl : FunctionDecl Statement} :
    p.functions.find? (·.name == Lower.allocator) = some decl → decl.returnType.isVoid = true →
      p.Fault "'malloc' returned no value"
  | loop {decl : FunctionDecl Statement} {body : Statement} (label : Nat) :
    decl ∈ p.functions → decl.body = some body → body.initsStay = false →
      p.Fault ("Block L" ++ toString label ++ " is already terminated")

/-- Functions are declared as they are in the program. -/
theorem mem_functions_of_mem_declare {moduleName : String}
    (hd : d ∈ (p.declare moduleName log).2) : d.decl ∈ p.functions := by
  refine List.foldlRecOn (motive := fun acc : UnitState × List DeclaredFunction =>
    ∀ d ∈ acc.2, d.decl ∈ p.functions) p.functions UnitState.addFunction (by simp) ?_ d hd
  rintro ⟨s, declared⟩ hs decl hdecl
  rcases s.addFunction_cases declared decl with
    ⟨-, e, -, heq⟩ | ⟨-, d, log, -, rfl, -, heq⟩
  all_goals rw [heq]
  · exact hs
  · exact List.forall_mem_append.mpr ⟨hs, by simpa using hdecl⟩

/-- Where a body is lowered, the allocator returns a value, or that of the program returns
nothing. -/
theorem Turn.excuses (h : p.Turn options log s d body) : (s.environment d).Excuses p.Fault := by
  intro sig hsig hvoid
  rcases h.lookup_cases hsig with ⟨decl, hdecl, rfl⟩ | ⟨-, hpredeclared⟩
  · refine .allocation hdecl ?_
    by_contra hvalue
    have hresolve : (p.laidOut options.moduleName log).structs.resolve decl.returnType = .void := by
      rwa [Signature.ofSource, StructTable.resolveReturn, if_neg hvalue] at hvoid
    have hextent := (p.consistent_laidOut options.moduleName log).exists_extent decl.returnType
    exact hextent.1 hresolve
  · obtain rfl := Option.some.inj hpredeclared
    cases hvoid

/-- Whatever is reported about a program is a finding about the program, or one of the two faults
that the program gives rise to. -/
theorem judges_generate (p : Program) (options : LoweringOptions) (log : DiagnosticLog) :
    log.JudgesUpTo p.Fault (p.generate options log).2 := by
  obtain ⟨-, s, hs, heq⟩ := p.induction_turns options log
    (motive := fun s => log.JudgesUpTo p.Fault s.log)
    (p.judges_declare options.moduleName log).upTo fun s d body hturn hs => by
      have hrooted := hturn.sound.rooted.environment d
      have hloop (hinits : body.initsStay = false) (l : Nat) :
          p.Fault (BuildFault.terminatedBlock l).message :=
        .loop l (mem_functions_of_mem_declare hturn.mem) hturn.body_eq hinits
      obtain ⟨f, -, -, hf, -⟩ := exists_draft_lowerBody hrooted body
      exact (hs.trans (judges_lowerBody hrooted hturn.excuses hloop)).trans
        (judges_addBody hf options).upTo
  rw [heq]
  exact hs

/-- A function with a body that takes no parameters and returns nothing. -/
def procedure (name : String) (body : Statement) : FunctionDecl Statement where
  name
  params := []
  returnType := .named "void"
  body := some body
  owner := none
  location := none

/-- A loop that returns before it starts. -/
def returningLoop : Statement :=
  .forLoop none (some (.ret none none)) none none (.block none [])

/-- An allocator without a value. -/
def voidMalloc : FunctionDecl Statement where
  name := "malloc"
  params := [⟨"size", .named "i64"⟩]
  returnType := .named "void"
  body := none
  owner := none
  location := none

/-- A variable that is initialized with an allocation. -/
def allocation : Statement :=
  .variable none ⟨"_cell", .pointerTo "i64", true, some (.alloc none (.named "i64")), none⟩

/-- Both faults are reported. -/
theorem internal_reported :
    (∃ d ∈ (generate .standard ⟨[.function (procedure "leave" returningLoop)]⟩ .empty).2.entries,
      d.IsInternal) ∧
    ∃ d ∈ (generate .standard
      ⟨[.function voidMalloc, .function (procedure "fresh" allocation)]⟩ .empty).2.entries,
      d.IsInternal := by
  have hloop : (generate .standard ⟨[.function (procedure "leave" returningLoop)]⟩
      .empty).2.entries = [LoweringError.toDiagnostic
        ⟨.internal "Block L0 is already terminated", none⟩] := by
    decide +kernel
  have halloc : (generate .standard
      ⟨[.function voidMalloc, .function (procedure "fresh" allocation)]⟩ .empty).2.entries =
        [LoweringError.toDiagnostic ⟨.internal "'malloc' returned no value", none⟩] := by
    decide +kernel
  rw [hloop, halloc]
  exact ⟨⟨_, List.mem_singleton_self _, _, ⟨_, rfl⟩, rfl⟩,
    ⟨_, List.mem_singleton_self _, _, ⟨_, rfl⟩, rfl⟩⟩

end Program

end SsaLowering
