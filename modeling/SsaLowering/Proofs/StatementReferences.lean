import SsaLowering.Lowering.Function
import SsaLowering.Proofs.ExpressionReferences

/-!
# Statements refer to what is declared

Statements that fail leave what they have added, so a whole body adds only instructions of the
realm, whatever fails in it.
-/

namespace SsaLowering

namespace Realm

open Lower

variable {r : Realm} {L : Ledger} {context : FunctionContext} {decl : VariableDecl Term}

/-- The type of a new variable, and its first value, if it has one. -/
structure Starts (r : Realm) (start : SourceType × MachineType × Option Value) (L : Ledger) :
    Prop where
  names : r.Names start.2.1
  declares : ∀ value, start.2.2 = some value → L.Declares value

theorem keeps_lowerCondition (condition : Term) :
    r.invariant.Keeps L (Lower.lowerCondition r.env condition) r.invariant.Decides :=
  (keeps_truthOf (keeps_lowerTerm condition L)).imp fun _ _ _ hvalue => decides hvalue

theorem keeps_lowerEffect (value : Term) :
    r.invariant.Keeps L (Lower.lowerEffect r.env value) fun _ _ => True :=
  (keeps_lowerTerm value L).bind fun _ _ _ _ => .pure fun _ _ => trivial

/-! ## Variables -/

theorem keeps_inferVariable :
    r.invariant.Keeps L (Lower.inferVariable r.env decl) r.Starts := by
  unfold Lower.inferVariable
  cases decl.initializer with
  | none => exact .throw _
  | some initializer =>
    refine (keeps_lowerTerm initializer L).bind fun v L₁ _ hv => .guarded' fun _ => ?_
    refine .pure fun L₂ hL => ⟨hv.names, fun value hvalue => ?_⟩
    obtain rfl := Option.some.inj hvalue
    exact hv.declares.mono hL

theorem keeps_declaredVariable :
    r.invariant.Keeps L (Lower.declaredVariable r.env decl) r.Starts := by
  unfold Lower.declaredVariable
  extract_lets type start
  have hnames : r.Names type := r.names_resolve decl.type
  have hstart : ∀ L, r.invariant.Keeps L (start ()) r.Starts := by
    intro L
    dsimp only [start]
    cases decl.initializer with
    | none => exact .pure fun L₁ _ => ⟨hnames, fun value hvalue => by cases hvalue⟩
    | some initializer =>
      refine (keeps_lowerTerm initializer L).bind fun v L₁ _ hv => ?_
      refine (keeps_coerce hv hnames decl.type _).bind fun stored L₂ _ hstored => ?_
      refine .pure fun L₃ hL => ⟨hnames, fun value hvalue => ?_⟩
      obtain rfl := Option.some.inj hvalue
      exact hstored.mono hL
  split
  · exact hstart L
  · exact (Invariant.Keeps.warn _ decl.location).bind fun _ L₁ _ _ => hstart L₁

theorem keeps_bindVariable {source : SourceType} {type : MachineType} {initial : Option Value}
    (h : r.Starts (source, type, initial) L) :
    r.invariant.Keeps L (Lower.bindVariable decl source type initial) fun _ _ => True := by
  obtain ⟨hnames, hinitial⟩ := h
  have halloca (t : Nat) : r.Admits L (.alloca t type) :=
    admits_of_ne_call (by simp [Instr.operands]) (by simpa [Instr.types] using hnames) (by simp)
  have hslot : r.invariant.Keeps L (build (Build.entryAlloca type))
      fun v L' => ∃ t, v = .temp t ∧ .instr (.alloca t type) ∈ L' := .entryAlloca halloca
  unfold Lower.bindVariable
  refine hslot.bind fun slot L₁ hL₁ hslot => ?_
  obtain ⟨n, rfl, -⟩ := hslot
  have hstore : r.invariant.Keeps L₁ (storeInitial (.temp n) type initial) fun _ _ => True := by
    cases initial with
    | none => exact .pure fun _ _ => trivial
    | some value => exact keeps_store ((hinitial value rfl).mono hL₁) trivial hnames
  refine hstore.bind fun _ L₂ _ _ => .declareLocal fun L' _ => ⟨?_, ?_, hnames⟩
  · rintro a ⟨rfl⟩
    trivial
  · rintro v ⟨⟩

theorem keeps_lowerVariableDecl :
    r.invariant.Keeps L (Lower.lowerVariableDecl r.env decl) fun _ _ => True := by
  have hvalue : r.invariant.Keeps L (variableValue r.env decl) r.Starts := by
    rw [variableValue]
    split
    · exact keeps_inferVariable
    · exact keeps_declaredVariable
  exact hvalue.bind fun _ _ _ h => keeps_bindVariable h

/-! ## Control -/

theorem keeps_lowerReturn (hreturn : r.Names context.returnType) (value : Option Term) :
    r.invariant.Keeps L (Lower.lowerReturn r.env context value) fun _ _ => True := by
  cases value with
  | none =>
    rw [Lower.lowerReturn]
    split
    · exact .emit (admits_of_ne_call (by simp [Instr.operands]) (by simp [Instr.types]) (by simp))
    · exact .fail _
  | some value =>
    rw [Lower.lowerReturn]
    split
    · exact .fail _
    · have hvalue : r.invariant.Keeps L (returnedValue r.env context value)
          fun value L' => L'.Declares value :=
        (keeps_lowerTerm value L).bind fun v L₁ _ hv => keeps_coerce hv hreturn _ _
      refine hvalue.bind fun v L₁ _ hv => .emit ?_
      exact admits_of_ne_call (by simpa [Instr.operands] using hv)
        (by simpa [Instr.types] using hreturn) (by simp)

/-- The condition of a loop may be absent. -/
theorem keeps_conditionOf {condition : Option Term} : ∀ L, ∀ test,
    condition.map (Lower.lowerCondition r.env) = some test →
      r.invariant.Keeps L test r.invariant.Decides := by
  intro L test htest
  obtain ⟨term, -, rfl⟩ := Option.map_eq_some_iff.mp htest
  exact keeps_lowerCondition term

/-- So may the part that runs after every round. -/
theorem keeps_updateOf : (update : Option Term) → ∀ L,
    r.invariant.Keeps L (match update with
      | some value => Lower.recovering (Lower.lowerEffect r.env value)
      | none => Pure.pure ()) fun _ _ => True
  | none => fun _ => .pure fun _ _ => trivial
  | some value => fun _ => .recovering (keeps_lowerEffect value)

/-! ## The recursion -/

mutual

/-- The lowering of a statement adds only instructions of the realm, by recursion on the
statement. -/
theorem keeps_lowerStatement (hreturn : r.Names context.returnType) :
    (body : Statement) → (L : Ledger) →
    r.invariant.Keeps L (Lower.lowerStatement r.env context body) fun _ _ => True
  | .block _ body, L => .located (keeps_lowerBlock hreturn body L)
  | .expression _ value, _ => .located (keeps_lowerEffect value)
  | .variable _ _, _ => .located keeps_lowerVariableDecl
  | .branch _ condition thenBranch none, _ =>
    .located (.lowerBranch (keeps_lowerCondition condition)
      (fun L => .recovering (keeps_lowerStatement hreturn thenBranch L))
      fun _ => .pure fun _ _ => trivial)
  | .branch _ condition thenBranch (some elseBranch), _ =>
    .located (.lowerBranch (keeps_lowerCondition condition)
      (fun L => .recovering (keeps_lowerStatement hreturn thenBranch L))
      fun L => .recovering (keeps_lowerStatement hreturn elseBranch L))
  | .whileLoop _ condition body, _ =>
    .located (.lowerWhile (fun _ => keeps_lowerCondition condition)
      fun L => .recovering (keeps_lowerStatement hreturn body L))
  | .forLoop _ none _ update body, _ =>
    .located (.lowerFor (fun _ => .pure fun _ _ => trivial) keeps_conditionOf
      (keeps_updateOf update) fun L => .recovering (keeps_lowerStatement hreturn body L))
  | .forLoop _ (some init) _ update body, _ =>
    .located (.lowerFor (keeps_lowerStatement hreturn init) keeps_conditionOf
      (keeps_updateOf update) fun L => .recovering (keeps_lowerStatement hreturn body L))
  | .ret _ value, _ => .located (keeps_lowerReturn hreturn value)

theorem keeps_lowerBlock (hreturn : r.Names context.returnType) :
    (body : List Statement) → (L : Ledger) →
    r.invariant.Keeps L (Lower.lowerBlock r.env context body) fun _ _ => True
  | [], _ => .pure fun _ _ => trivial
  | first :: rest, _ =>
    .blockStep (keeps_lowerStatement hreturn first) (keeps_lowerBlock hreturn rest)

end

theorem keeps_functionBody (hreturn : r.Names context.returnType) (body : Statement) :
    r.invariant.Keeps L (Lower.functionBody r.env context body) fun _ _ => True := by
  unfold Lower.functionBody
  refine (Invariant.Keeps.appendBlock "entry").bind fun _ L₁ _ _ => ?_
  split
  · exact keeps_lowerBlock hreturn _ L₁
  · exact .recovering (keeps_lowerStatement hreturn body L₁)

end Realm

end SsaLowering
