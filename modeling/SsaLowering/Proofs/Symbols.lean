import SsaLowering.Proofs.Inventory

/-!
# Symbols of a module

Functions, global variables and string literals get their names without a look at each other.
Each of the three keeps its own names apart. So the symbols of an accepted module are unique
unless two of the three share a name.
-/

namespace SsaLowering

/-- The names of all functions and of all global variables, string literals among them. -/
def CodeModule.symbols (m : CodeModule) : List String :=
  m.functions.map (·.name) ++ m.globals.map (·.name)

/-- The names of the functions that a program can call. -/
def Program.functionNames (p : Program) : List String :=
  UnitState.predeclared.map Prod.fst ++ p.functions.map (·.name)

namespace UnitState

open StringPool

variable {s : UnitState} {names : List String}

/-- The global variables of a unit have the given names, its string literals apart. -/
structure Registers (s : UnitState) (names : List String) : Prop where
  nodup : names.Nodup
  names_eq : (s.code.globals.filter fun g => (text? g).isNone).map (·.name) = names
  numbered : Numbered s.code.globals

theorem Lists.registers {decls : List (VariableDecl Term)} {reached : String → Prop}
    (h : s.Lists decls reached) (hnodup : (decls.map (·.name)).Nodup) :
    s.Registers (decls.map (·.name)) where
  nodup := hnodup
  names_eq := by
    rw [← List.forall₂_eq_eq_eq, List.forall₂_map_left_iff, List.forall₂_map_right_iff]
    exact h.entries.imp fun _ _ henters => henters.name
  numbered := h.pooled.numbered

end UnitState

namespace Program

open UnitState StringPool

variable {p : Program} {options : LoweringOptions} {log : DiagnosticLog} {s : UnitState}
  {d : DeclaredFunction} {body : Statement}

/-- The functions of a unit have different names, which are those of the functions that the
program can call. -/
structure Names (p : Program) (s : UnitState) : Prop where
  nodup : (s.code.functions.map (·.name)).Nodup
  mem_iff : ∀ name, name ∈ s.code.functions.map (·.name) ↔ name ∈ p.functionNames

/-- They are those of the function table. -/
theorem names_of_eq_functionTable (h : s.code.functions.map (·.name) = p.functionTable) :
    p.Names s where
  nodup := h ▸ p.nodup_functionTable
  mem_iff := by
    intro name
    rw [h, functionTable, functionNames, List.mem_append, List.mem_append, List.mem_filter,
      mem_map_firstsBy]
    by_cases hname : name ∈ predeclared.map Prod.fst <;> simp [hname]

/-- Errors only add up from the declarations of a program to the end. -/
theorem count_le_generate (p : Program) (options : LoweringOptions) (log : DiagnosticLog) :
    (p.declare options.moduleName log).1.log.count .error ≤
      (p.generate options log).2.count .error := by
  obtain ⟨-, s, hle, heq⟩ := p.induction_turns options log
    (motive := fun s => (p.declare options.moduleName log).1.log.count .error ≤
      s.log.count .error) (Nat.le_refl _) fun s d body hturn hle => by
      have henv := hturn.sound.rooted.environment d
      obtain ⟨f, -, -, hf, -, -⟩ := exists_draft_lowerBody henv body
      obtain ⟨-, _, _, hlaid, -⟩ := exists_laid_lowerBody henv body
      exact hle.trans (hlaid.writes.errors.trans ((judges_addBody hf options).count_le .error))
  rw [heq]
  exact hle

/-- If no error was reported, then all global variables were accepted. -/
theorem acceptedGlobals_of_clean (p : Program) (options : LoweringOptions) (log : DiagnosticLog)
    (hclean : (p.generate options log).2.count .error ≤ log.count .error) :
    p.acceptedGlobals options.moduleName log = p.globals := by
  have hlaid := (p.judges_laidOut options.moduleName log).count_le .error
  have hfunctions := (judges_foldl_addFunction (p.globals.foldl UnitState.addGlobal
    (p.laidOut options.moduleName log), []) p.functions).count_le .error
  exact accepted_of_clean _ p.globals
    ((hfunctions.trans ((p.count_le_generate options log).trans hclean)).trans hlaid)

/-- The functions of a module have different names, and the names of its global variables, string
literals apart, are those of the program if no error was reported. -/
theorem names_generate (p : Program) (options : LoweringOptions) (log : DiagnosticLog) :
    ∃ s names, p.generate options log = (s.code, s.log) ∧ p.Names s ∧ s.Registers names ∧
      (s.log.count .error ≤ log.count .error → names = p.globals.map (·.name)) := by
  obtain ⟨s, heq, -, -, hlists⟩ := p.lists_generate options log
  have hnames := p.names_generate_functions options log
  have hclean := p.acceptedGlobals_of_clean options log
  rw [heq] at hnames hclean
  refine ⟨s, _, heq, names_of_eq_functionTable hnames,
    hlists.registers (p.nodup_acceptedGlobals _ log), fun h => ?_⟩
  rw [hclean h]

/-- The symbols of a module are unique unless a global variable or a string literal has the name
of a function, or a string literal that of a global variable. -/
theorem symbols_nodup_iff {arena : Arena} {m : CodeModule} {after : DiagnosticLog}
    (hp : arena.expand = .ok p) (hm : arena.lower options log = (.ok m, after)) :
    m.symbols.Nodup ↔ (∀ name ∈ p.globals.map (·.name), name ∉ p.functionNames) ∧
      ∀ number < (texts m.globals).length, nameOf number ∉ p.functionNames ∧
        nameOf number ∉ p.globals.map (·.name) := by
  obtain ⟨s, names, heq, hnames, hregisters, hall⟩ := p.names_generate options log
  obtain ⟨rfl, hclean⟩ : s.code = m ∧ s.log.count .error ≤ log.count .error := by
    simp only [Arena.lower, hp, heq] at hm
    split at hm <;> cases hm
    next hcount =>
      rw [DiagnosticLog.count_error, DiagnosticLog.count_error]
      exact ⟨rfl, Nat.sub_eq_zero_iff_le.mp hcount⟩
  obtain rfl := hall hclean
  -- Up to their order, the symbols are the functions, the literals and the variables.
  have hperm : s.code.symbols.Perm (s.code.functions.map (·.name) ++
      ((List.range (texts s.code.globals).length).map nameOf ++ p.globals.map (·.name))) := by
    rw [← hregisters.numbered, ← hregisters.names_eq, ← List.map_append]
    refine List.Perm.append_left _ (List.Perm.map _ ?_)
    simpa [literals] using
      (List.filter_append_perm (fun g => (text? g).isSome) s.code.globals).symm
  have hliterals : ((List.range (texts s.code.globals).length).map nameOf).Nodup :=
    hregisters.numbered ▸ hregisters.numbered.nodup
  rw [hperm.nodup_iff, List.nodup_append, List.nodup_append]
  constructor
  · rintro ⟨-, ⟨-, -, hglobals⟩, hfunctions⟩
    refine ⟨fun name hname hmem => ?_, fun number hnumber => ?_⟩
    · exact hfunctions name ((hnames.mem_iff name).mpr hmem) name
        (List.mem_append_right _ hname) rfl
    · have hliteral := List.mem_map_of_mem (f := nameOf) (List.mem_range.mpr hnumber)
      exact ⟨fun hmem => hfunctions _ ((hnames.mem_iff _).mpr hmem) _
        (List.mem_append_left _ hliteral) rfl, fun hmem => hglobals _ hliteral _ hmem rfl⟩
  · rintro ⟨hglobals, hnumbers⟩
    refine ⟨hnames.nodup, ⟨hliterals, hregisters.nodup, ?_⟩, ?_⟩
    · rintro name hname _ hmem rfl
      obtain ⟨number, hnumber, rfl⟩ := List.mem_map.mp hname
      exact (hnumbers number (List.mem_range.mp hnumber)).2 hmem
    · rintro name hname _ hmem rfl
      have hfunction := (hnames.mem_iff name).mp hname
      rcases List.mem_append.mp hmem with hmem | hmem
      · obtain ⟨number, hnumber, rfl⟩ := List.mem_map.mp hmem
        exact (hnumbers number (List.mem_range.mp hnumber)).1 hfunction
      · exact hglobals name hmem hfunction

/-- A global variable that starts with a string literal. -/
def greeting : Arena where
  exprs := #[⟨.literal (.string "hello"), none⟩]
  stmts := #[]
  items := [.variable ⟨"greeting", .pointerTo "char", false, some ⟨0⟩, none⟩]

theorem symbols_nodup_greeting : ∃ m after, greeting.lower .standard .empty = (.ok m, after) ∧
    m.globals.map (·.name) = [".str.0", "greeting"] ∧ m.symbols.Nodup := by
  have hexpand : greeting.expand = .ok ⟨[.variable ⟨"greeting", .pointerTo "char", false,
    some (.literal none (.string "hello")), none⟩]⟩ := rfl
  obtain ⟨m, after, hlower, hglobals, htexts⟩ : ∃ m after,
      greeting.lower .standard .empty = (.ok m, after) ∧
      m.globals.map (·.name) = [".str.0", "greeting"] ∧ (texts m.globals).length = 1 :=
    ⟨_, _, rfl, by decide +kernel, by decide +kernel⟩
  refine ⟨m, after, hlower, hglobals, (symbols_nodup_iff hexpand hlower).mpr ?_⟩
  rw [htexts]
  decide +kernel

/-- A global variable with the name of a function. -/
def ambiguous : Arena where
  exprs := #[]
  stmts := #[]
  items := [.variable ⟨"limit", .named "i32", true, none, none⟩,
    .function ⟨"limit", [], .named "i32", none, none, none⟩]

/-- Both are in the module, and nothing is reported. -/
theorem symbols_shared_ambiguous : ∃ m, ambiguous.lower .standard .empty = (.ok m, .empty) ∧
    "limit" ∈ m.functions.map (·.name) ∧ "limit" ∈ m.globals.map (·.name) ∧
    ¬ m.symbols.Nodup :=
  ⟨_, rfl, by decide +kernel, by decide +kernel, by decide +kernel⟩

end Program

end SsaLowering
