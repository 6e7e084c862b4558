import SsaLowering.Lowering.Function
import SsaLowering.Proofs.ExpressionTyping
import SsaLowering.Proofs.StatementCode

/-!
# Statements keep to a setting

A local variable gets a slot of its own type, a returned value is one of the return type, and a
condition is a truth value. Statements that fail leave what they have added, so a whole body
obeys the setting whatever fails in it.
-/

namespace SsaLowering

mutual

/-- The expressions of a statement are tame, and no variable is declared as unsigned. -/
def Statement.isTame : Statement → Bool
  | .block _ body => Statement.areTame body
  | .expression _ value => value.isTame
  | .variable _ decl => !decl.type.isUnsigned && decl.initializer.all (·.isTame)
  | .branch _ condition thenBranch none => condition.isTame && thenBranch.isTame
  | .branch _ condition thenBranch (some elseBranch) =>
    condition.isTame && thenBranch.isTame && elseBranch.isTame
  | .whileLoop _ condition body => condition.isTame && body.isTame
  | .forLoop _ none condition update body =>
    condition.all (·.isTame) && update.all (·.isTame) && body.isTame
  | .forLoop _ (some init) condition update body =>
    condition.all (·.isTame) && update.all (·.isTame) && body.isTame && init.isTame
  | .ret _ value => value.all (·.isTame)
termination_by structural statement => statement

def Statement.areTame : List Statement → Bool
  | [] => true
  | statement :: rest => statement.isTame && Statement.areTame rest
termination_by structural body => body

end

namespace Setting

/-- The type of a new variable, and its first value, if it has one. -/
def Starts (c : Setting) (start : SourceType × MachineType × Option Value) (L : Ledger) : Prop :=
  c.Allows start.2.1 ∧ c.Matches start.2.1 start.1 ∧
    ∀ value, start.2.2 = some value → c.Operand L value start.2.1

namespace Obeys

open Lower

variable {c : Setting} {L : Ledger} {context : FunctionContext}

/-- The value of a tame expression. -/
theorem lowerValue {term : Term} (htame : c.exact → term.isTame = true) :
    c.Obeys L (Lower.lowerTerm c.env term) fun v L' => c.Yields L' v :=
  yields_of_values (Obeys.lowerTerm term htame L)

theorem lowerCondition {condition : Term} (htame : c.exact → condition.isTame = true) :
    c.Obeys L (Lower.lowerCondition c.env condition)
      fun value L' => c.Operand L' value .bool :=
  truthOf (lowerValue htame)

theorem lowerEffect {value : Term} (htame : c.exact → value.isTame = true) :
    c.Obeys L (Lower.lowerEffect c.env value) fun _ _ => True :=
  (lowerValue htame).bind fun _ _ _ _ => pure fun _ _ => trivial

/-! ## Variables -/

section

variable {decl : VariableDecl Term}

theorem inferVariable
    (htame : c.exact → ∀ term, decl.initializer = some term → term.isTame = true) :
    c.Obeys L (Lower.inferVariable c.env decl) (Starts c) := by
  unfold Lower.inferVariable
  cases hinitial : decl.initializer with
  | none => exact throw _
  | some initializer =>
    refine (lowerValue fun hexact => htame hexact initializer hinitial).bind
      fun v L₁ _ hv => guarded' fun hne => pure fun L₂ hL => ?_
    obtain ⟨hoperand, hallows, hmatches⟩ := hv.gives hne
    refine ⟨hallows, hmatches, fun value hvalue => ?_⟩
    obtain rfl := Option.some.inj hvalue
    exact hoperand.mono hL

theorem declaredVariable (hsigned : c.exact → decl.type.isUnsigned = false)
    (htame : c.exact → ∀ term, decl.initializer = some term → term.isTame = true) :
    c.Obeys L (Lower.declaredVariable c.env decl) (Starts c) := by
  have hallows : c.Allows (c.env.structs.resolve decl.type) := allows_resolve hsigned
  have hmatches := c.matches_resolve decl.type
  unfold Lower.declaredVariable
  extract_lets type start
  have hstart : ∀ L, c.Obeys L (start ()) c.Starts := by
    intro L
    dsimp only [start]
    cases hinitial : decl.initializer with
    | none => exact pure fun L₁ _ => ⟨hallows, hmatches, fun value hvalue => by cases hvalue⟩
    | some initializer =>
      refine (lowerValue fun hexact => htame hexact initializer hinitial).bind fun v L₁ _ hv => ?_
      refine (coerce hv hallows decl.type _).bind fun stored L₂ _ hstored => pure fun L₃ hL => ?_
      refine ⟨hallows, hmatches, fun value hvalue => ?_⟩
      obtain rfl := Option.some.inj hvalue
      exact hstored.mono hL
  split
  · exact hstart L
  · exact (warn _ decl.location).bind fun _ L₁ _ _ => hstart L₁

/-- A new binding of a name to a slot of its own. -/
theorem declareLocal {source : SourceType} {type : MachineType} {n : Nat}
    (hslot : .instr (.alloca n type) ∈ L) (hallows : c.Allows type)
    (hmatches : c.Matches type source) :
    c.Obeys L (Lower.declareLocal decl source type (.temp n)) fun _ _ => True :=
  Invariant.Keeps.declareLocal (I := c.invariant)
    fun _ hL => ⟨.stack (hL hslot), hallows, hmatches⟩

theorem bindVariable {source : SourceType} {type : MachineType} {initial : Option Value}
    (h : Starts c (source, type, initial) L) :
    c.Obeys L (Lower.bindVariable decl source type initial) fun _ _ => True := by
  obtain ⟨hallows, hmatches, hinitial⟩ := h
  unfold Lower.bindVariable
  refine (entryAlloca hallows).bind fun slot L₁ hL₁ hslot => ?_
  obtain ⟨n, rfl, hmem⟩ := hslot
  have hptr := (Ledger.computes_result hmem rfl rfl).hasType
  have hstore : c.Obeys L₁ (storeInitial (.temp n) type initial) fun _ _ => True := by
    cases initial with
    | none => exact pure fun _ _ => trivial
    | some value => exact store ((hinitial value rfl).mono hL₁) hptr
  exact hstore.bind fun _ L₂ hL₂ _ => declareLocal (hL₂ hmem) hallows hmatches

theorem lowerVariableDecl (hsigned : c.exact → decl.type.isUnsigned = false)
    (htame : c.exact → ∀ term, decl.initializer = some term → term.isTame = true) :
    c.Obeys L (Lower.lowerVariableDecl c.env decl) fun _ _ => True := by
  have hvalue : c.Obeys L (variableValue c.env decl) (Starts c) := by
    rw [variableValue]
    split
    · exact inferVariable htame
    · exact declaredVariable hsigned htame
  exact hvalue.bind fun _ _ _ h => bindVariable h

end

/-! ## Control -/

theorem lowerReturn (hreturn : context.returnType = c.returnType) {value : Option Term}
    (htame : c.exact → ∀ term, value = some term → term.isTame = true) :
    c.Obeys L (Lower.lowerReturn c.env context value) fun _ _ => True := by
  cases value with
  | none =>
    rw [Lower.lowerReturn]
    split
    · exact emit .leave
    · exact fail _
  | some value =>
    rw [Lower.lowerReturn]
    split
    · exact fail _
    · next hne =>
      have hallows : c.Allows c.returnType := ⟨hreturn ▸ hne, c.result⟩
      have hvalue : c.Obeys L (returnedValue c.env context value)
          fun value L' => c.Operand L' value c.returnType := by
        refine (lowerValue fun hexact => htame hexact value rfl).bind fun v L₁ _ hv => ?_
        rw [hreturn]
        exact coerce hv hallows _ _
      refine hvalue.bind fun v L₁ _ hv => ?_
      rw [hreturn]
      exact emit (.ret hv)

/-- A condition may be branched on. -/
theorem deciding {condition : Lower Value}
    (h : c.Obeys L condition fun value L' => c.Operand L' value .bool) :
    c.invariant.Keeps L condition c.invariant.Decides := by
  have hkeeps : c.invariant.Keeps L condition fun value L' => c.Operand L' value .bool := h
  exact hkeeps.imp fun _ _ _ hvalue => decides hvalue

theorem lowerBranch {condition : Lower Value} {thenBranch elseBranch : Lower Unit}
    (hcondition : c.Obeys L condition fun value L' => c.Operand L' value .bool)
    (hthen : ∀ L, c.Obeys L thenBranch fun _ _ => True)
    (helse : ∀ L, c.Obeys L elseBranch fun _ _ => True) :
    c.Obeys L (Lower.lowerBranch condition thenBranch elseBranch) fun _ _ => True :=
  Invariant.Keeps.lowerBranch (deciding hcondition) hthen helse

theorem lowerWhile {condition : Lower Value} {body : Lower Unit}
    (hcondition : ∀ L, c.Obeys L condition fun value L' => c.Operand L' value .bool)
    (hbody : ∀ L, c.Obeys L body fun _ _ => True) :
    c.Obeys L (Lower.lowerWhile condition body) fun _ _ => True :=
  Invariant.Keeps.lowerWhile (fun L => deciding (hcondition L)) hbody

theorem lowerFor {init update body : Lower Unit} {condition : Option (Lower Value)}
    (hinit : ∀ L, c.Obeys L init fun _ _ => True)
    (hcondition : ∀ L, ∀ test, condition = some test →
      c.Obeys L test fun value L' => c.Operand L' value .bool)
    (hupdate : ∀ L, c.Obeys L update fun _ _ => True)
    (hbody : ∀ L, c.Obeys L body fun _ _ => True) :
    c.Obeys L (Lower.lowerFor init condition update body) fun _ _ => True :=
  Invariant.Keeps.lowerFor (I := c.invariant) hinit
    (fun L test htest => deciding (hcondition L test htest)) hupdate hbody

/-- The parts of a loop that may be absent. -/
theorem conditionOf {condition : Option Term} (htame : c.exact → condition.all (·.isTame) = true) :
    ∀ L, ∀ test, condition.map (Lower.lowerCondition c.env) = some test →
      c.Obeys L test fun value L' => c.Operand L' value .bool := by
  intro L test htest
  obtain ⟨term, hterm, rfl⟩ := Option.map_eq_some_iff.mp htest
  exact lowerCondition fun hexact => by simpa [hterm] using htame hexact

theorem updateOf : (update : Option Term) → (c.exact → update.all (·.isTame) = true) →
    ∀ L, c.Obeys L (match update with
      | some value => Lower.recovering (Lower.lowerEffect c.env value)
      | none => Pure.pure ()) fun _ _ => True
  | none, _ => fun _ => pure fun _ _ => trivial
  | some _, htame => fun _ => recovering (lowerEffect fun hexact => by simpa using htame hexact)

/-! ## The recursion -/

mutual

/-- The lowering of a statement obeys the setting, by recursion on the statement. In an exact
setting, the statement has to be tame. -/
theorem statement (hreturn : context.returnType = c.returnType) :
    (body : Statement) → (c.exact → body.isTame = true) → (L : Ledger) →
    c.Obeys L (Lower.lowerStatement c.env context body) fun _ _ => True
  | .block _ body, htame, L => located (block hreturn body htame L)
  | .expression _ value, htame, L => located (lowerEffect htame)
  | .variable _ decl, htame, L => by
    have hboth := fun hexact => Bool.and_eq_true_iff.mp (htame hexact)
    refine located (lowerVariableDecl (fun hexact => ?_) fun hexact term hterm => ?_)
    · simpa using (hboth hexact).1
    · simpa [hterm] using (hboth hexact).2
  | .branch _ condition thenBranch none, htame, L => by
    have hboth : c.exact → condition.isTame = true ∧ thenBranch.isTame = true :=
      fun hexact => by simpa only [Statement.isTame, Bool.and_eq_true] using htame hexact
    -- A failure in a branch ends the branch only, so the rest starts from any larger ledger.
    exact located (lowerBranch (lowerCondition fun hexact => (hboth hexact).1)
      (fun L => recovering (statement hreturn thenBranch (fun hexact => (hboth hexact).2) L))
      fun L => pure fun _ _ => trivial)
  | .branch _ condition thenBranch (some elseBranch), htame, L => by
    have hall : c.exact → (condition.isTame = true ∧ thenBranch.isTame = true) ∧
        elseBranch.isTame = true := fun hexact => by
      simpa only [Statement.isTame, Bool.and_eq_true] using htame hexact
    exact located (lowerBranch (lowerCondition fun hexact => (hall hexact).1.1)
      (fun L => recovering (statement hreturn thenBranch (fun hexact => (hall hexact).1.2) L))
      fun L => recovering (statement hreturn elseBranch (fun hexact => (hall hexact).2) L))
  | .whileLoop _ condition body, htame, L => by
    have hboth : c.exact → condition.isTame = true ∧ body.isTame = true :=
      fun hexact => by simpa only [Statement.isTame, Bool.and_eq_true] using htame hexact
    exact located (lowerWhile (fun L => lowerCondition fun hexact => (hboth hexact).1)
      fun L => recovering (statement hreturn body (fun hexact => (hboth hexact).2) L))
  | .forLoop _ none condition update body, htame, L => by
    have hall : c.exact → (condition.all (·.isTame) = true ∧ update.all (·.isTame) = true) ∧
        body.isTame = true := fun hexact => by
      simpa only [Statement.isTame, Bool.and_eq_true] using htame hexact
    exact located (lowerFor (fun L => pure fun _ _ => trivial)
      (conditionOf fun hexact => (hall hexact).1.1)
      (updateOf update fun hexact => (hall hexact).1.2)
      fun L => recovering (statement hreturn body (fun hexact => (hall hexact).2) L))
  | .forLoop _ (some init) condition update body, htame, L => by
    have hall : c.exact → ((condition.all (·.isTame) = true ∧ update.all (·.isTame) = true) ∧
        body.isTame = true) ∧ init.isTame = true := fun hexact => by
      simpa only [Statement.isTame, Bool.and_eq_true] using htame hexact
    exact located (lowerFor (statement hreturn init fun hexact => (hall hexact).2)
      (conditionOf fun hexact => (hall hexact).1.1.1)
      (updateOf update fun hexact => (hall hexact).1.1.2)
      fun L => recovering (statement hreturn body (fun hexact => (hall hexact).1.2) L))
  | .ret _ value, htame, L => by
    refine located (lowerReturn hreturn fun hexact term hterm => ?_)
    simpa [Statement.isTame, hterm] using htame hexact

theorem block (hreturn : context.returnType = c.returnType) :
    (body : List Statement) → (c.exact → Statement.areTame body = true) → (L : Ledger) →
    c.Obeys L (Lower.lowerBlock c.env context body) fun _ _ => True
  | [], _, L => pure fun _ _ => trivial
  | first :: rest, htame, L => by
    have hboth : c.exact → first.isTame = true ∧ Statement.areTame rest = true :=
      fun hexact => by simpa only [Statement.areTame, Bool.and_eq_true] using htame hexact
    exact Invariant.Keeps.blockStep (I := c.invariant)
      (statement hreturn first fun hexact => (hboth hexact).1)
      (block hreturn rest fun hexact => (hboth hexact).2)

end

theorem functionBody (hreturn : context.returnType = c.returnType) {body : Statement}
    (htame : c.exact → body.isTame = true) :
    c.Obeys L (Lower.functionBody c.env context body) fun _ _ => True := by
  unfold Lower.functionBody
  refine (appendBlock "entry").bind fun _ L₁ _ _ => ?_
  split
  · exact block hreturn _ htame L₁
  · exact recovering (statement hreturn body htame L₁)

end Obeys

end Setting

end SsaLowering
