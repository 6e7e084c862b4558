import SsaLowering.Lowering.Unit
import SsaLowering.Proofs.Draft

/-!
# Bodies of functions

The body of a function is lowered from an entry block of its own. Whatever is in the body,
what the builder holds in the end is a draft with the declared signature.
-/

namespace SsaLowering

namespace FunctionBuilder

theorem lt_foldl_max {params : List (Nat × MachineType)} {t : Nat} :
    (n : Nat) → t < n ∨ t ∈ params.map Prod.fst →
      t < params.foldl (fun next (id, _) => max next (id + 1)) n := by
  induction params with
  | nil => simp
  | cons param params ih =>
    intro n ht
    apply ih
    simp only [List.map_cons, List.mem_cons] at ht ⊢
    rcases ht with ht | rfl | ht
    · exact .inl (by omega)
    · exact .inl (by omega)
    · exact .inr ht

theorem lt_firstTemp {f : FunctionDef} {t : Nat} (ht : t ∈ f.parameters) : t < firstTemp f :=
  lt_foldl_max 0 (.inr ht)

/-- A function with distinct parameters whose entry block was opened. -/
theorem front_start {f : FunctionDef} (hf : f.parameters.Nodup) (l : Nat) (hint : String) :
    Front { start f with
        function := some { f with blocks := [.fresh l hint], isExternal := false }
        current := some l
        nextLabel := l + 1 }
      { f with blocks := [.fresh l hint], isExternal := false } [] (.fresh l hint) where
  function := rfl
  blocks := rfl
  current := rfl
  labels_nodup := by simp [FunctionDef.labels]
  labels_lt := by simp [FunctionDef.labels]
  slots_first := by simp [Block.slots, Block.code]
  slots_entry := by simp
  definitions_nodup := by
    simpa [FunctionDef.definitions, FunctionDef.results, FunctionDef.parameters] using hf
  definitions_lt := by
    intro t ht
    apply lt_firstTemp
    simpa [FunctionDef.definitions, FunctionDef.results, FunctionDef.parameters] using ht

end FunctionBuilder

/-- The statements of a body. -/
def Statement.parts : Statement → List Statement
  | .block _ body => body
  | statement => [statement]

namespace DeclaredFunction

variable (d : DeclaredFunction)

theorem parameters_declaration :
    d.declaration.parameters = List.range d.signature.paramTypes.length := by
  simp [declaration, Signature.declaration, FunctionDef.declaration, FunctionDef.parameters,
    Function.comp_def, List.range_eq_range']

/-- Binding parameters to temporaries below some bound. -/
theorem temps_foldl_declare {params : List ((Parameter × MachineType) × Nat)} {n : Nat}
    (location : Option Location) {scope : Scope} (hparams : ∀ p ∈ params, p.2 < n)
    (hscope : ∀ e ∈ scope.entries, e.2.storage.temps ⊆ {t | t < n}) :
    ∀ e ∈ (params.foldl (fun scope ((param, type), index) => scope.declare param.name
      ⟨.direct (.temp index), param.type, type, false, true, location⟩) scope).entries,
      e.2.storage.temps ⊆ {t | t < n} := by
  induction params generalizing scope with
  | nil => exact hscope
  | cons p params ih =>
    apply ih (fun q hq => hparams q (by simp [hq]))
    intro e he
    simp only [Scope.declare, List.mem_append, List.mem_filter, List.mem_singleton] at he
    rcases he with ⟨he, -⟩ | rfl
    · exact hscope e he
    · simpa [Storage.temps] using hparams p (by simp)

/-- The parameters are bound to themselves. -/
theorem temps_parameterScope {entry : String × Binding} (h : entry ∈ d.parameterScope.entries) :
    entry.2.storage.temps ⊆ {t | t ∈ d.declaration.parameters} := by
  rw [parameters_declaration]
  simp only [List.mem_range]
  refine temps_foldl_declare d.decl.location ?_ (by simp [Scope.empty]) entry h
  rintro ⟨p, index⟩ hp
  obtain ⟨-, hlt, -⟩ := List.mem_zipIdx hp
  simp only [List.length_zip, Nat.zero_add] at hlt
  exact Nat.lt_of_lt_of_le hlt (Nat.min_le_right _ _)

end DeclaredFunction

namespace UnitState

open Lower BodyState

variable {s : UnitState} {d : DeclaredFunction}

/-- The state in which the body of a function is lowered. -/
def start (s : UnitState) (d : DeclaredFunction) : BodyState :=
  ⟨.start d.declaration, s.code.globals, d.parameterScope, s.log⟩

/-- What the body of a function is lowered for. -/
def context (d : DeclaredFunction) : FunctionContext :=
  ⟨d.decl.name, d.signature.source, d.signature.returnType⟩

theorem lowerBody_eq (body : Statement) : s.lowerBody d body =
    (exec (recovering (functionBody (s.environment d) (context d) body)) (s.start d)).2 := rfl

/-- The state behind the entry block. -/
def opened (s : UnitState) (d : DeclaredFunction) : BodyState :=
  { s.start d with
    builder := { FunctionBuilder.start d.declaration with
      function := some { d.declaration with blocks := [.fresh 0 "entry"], isExternal := false }
      current := some 0
      nextLabel := 1 } }

theorem exec_entry : exec (build (Build.appendBlock "entry")) (s.start d) =
    (.ok 0, s.opened d) := rfl

theorem steady_opened : (s.opened d).Steady := by
  have hnodup : d.declaration.parameters.Nodup := by
    rw [DeclaredFunction.parameters_declaration]
    exact List.nodup_range
  have hfront := FunctionBuilder.front_start hnodup 0 "entry"
  refine ⟨⟨_, _, _, hfront⟩, fun entry he t ht => ?_⟩
  exact hfront.mem_base.mpr (.inl (d.temps_parameterScope he ht))

theorem stands_opened : (s.opened d).Stands (some (atEntry 0)) := ⟨rfl, rfl⟩

/-- The body is lowered like a block behind the entry block. -/
theorem exec_functionBody (env : Environment) (context : FunctionContext) (body : Statement) :
    exec (functionBody env context body) (s.start d) =
      exec (lowerBlock env context body.parts) (s.opened d) := by
  have hopen : (s.opened d).builder.isTerminated = false := rfl
  have hone : exec (recovering (lowerStatement env context body)) (s.opened d) =
      exec (lowerBlock env context [body]) (s.opened d) := by
    simp only [lowerBlock, exec_bind, exec_tryCatch, openIfTerminated, exec_isTerminated, hopen,
      Bool.false_eq_true, if_false, exec_pure, if_true]
    rcases exec (recovering (lowerStatement env context body)) (s.opened d) with ⟨e | a, s'⟩ <;> rfl
  cases body with
  | block => exact exec_bind_of_ok exec_entry
  | _ => exact (exec_bind_of_ok exec_entry).trans hone

/-- Whatever is in a body, it is laid out behind the entry block, and charted if nothing
fails. -/
theorem exists_laid_lowerBody (henv : (s.environment d).Rooted) (body : Statement) :
    exec (lowerBlock (s.environment d) (context d) body.parts) (s.opened d) =
        (.ok (), s.lowerBody d body) ∧
      ∃ x q, Laid d.signature.returnType [] 1 (s.opened d) (s.lowerBody d body)
        (some (atEntry 0)) x q ∧
      ((s.lowerBody d body).log.count .error = s.log.count .error →
        ∃ w : Chart, w.items = x.map Spot.item ∧ Statement.chartsOf (s.environment d) (context d)
          body.parts (s.opened d) w (s.lowerBody d body)) := by
  obtain ⟨s', x, q, hexec, hx, hchart⟩ := Lays.block henv (context d) body.parts (s.opened d)
    (some (atEntry 0)) steady_opened stands_opened
  have heq : s.lowerBody d body = s' := by
    rw [lowerBody_eq, exec_recovering, exec_functionBody, hexec]
  rw [heq]
  exact ⟨hexec, x, q, hx, hchart⟩

/-- What the builder holds behind a body is a draft with the declared signature. -/
theorem exists_draft_lowerBody (henv : (s.environment d).Rooted) (body : Statement) :
    ∃ f avail sources, (s.lowerBody d body).builder.function = some f ∧
      (∃ blocks, f = { d.declaration with blocks, isExternal := false }) ∧
      f.Draft avail sources := by
  obtain ⟨-, x, q, hx, -⟩ := exists_laid_lowerBody henv body
  obtain ⟨f, done, last, hfront⟩ := hx.writes.steady.front
  obtain ⟨blocks, hblocks⟩ := hx.writes.builder.signature _ rfl
  rw [hfront.function] at hblocks
  have hf : f = { d.declaration with blocks, isExternal := false } := Option.some.inj hblocks
  have hitems : (Spot.entry 0 :: x).map Spot.item = (s.lowerBody d body).builder.listing :=
    hx.writes.builder.listing.symm
  rw [hfront.listing_eq] at hitems
  have hbase : (s.lowerBody d body).builder.base = f.base := by
    ext t
    exact hfront.mem_base
  have hsupported := hx.supported (Spot.entry 0 :: x) (by simp) (by simp)
  have hgrounded : Spot.Grounded none [Spot.entry 0] :=
    .of_empty (by simp +contextual [Spot.entry])
  have htype : d.signature.returnType = f.returnType := by rw [hf]; rfl
  rw [hbase, htype] at hsupported
  obtain ⟨avail, sources, hdraft⟩ := FunctionDef.exists_draft ⟨_, done, last, hfront⟩
    (show Spot.Threads none (Spot.entry 0 :: x) q from hx.threads) hitems ⟨0, x, rfl⟩
    (hgrounded.append (x := [Spot.entry 0]) rfl hx.grounded) (Spot.allSupported_head.mpr hsupported)
  exact ⟨f, avail, sources, hfront.function, ⟨blocks, hf⟩, hdraft⟩

end UnitState

end SsaLowering
