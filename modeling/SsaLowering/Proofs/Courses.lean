import SsaLowering.Proofs.Body
import SsaLowering.Proofs.Visit

/-!
# The course of the lowering

One statement for each construct: its lowering takes its course through the visits to its parts.
From this it follows by induction on the size of a node that a relation which holds of all moves
holds between the beginning, every visit inside, and the end.
-/

namespace SsaLowering

open Lower BodyState

namespace Visit

variable {env : Environment} {context : FunctionContext} {v w : Visit} {s s' : BodyState}

namespace Follows

/-! ## Expressions -/

theorem truthOf (term : Term) :
    v.Follows env context (Lower.truthOf (lowerTerm env term)) s [⟨.term term, s⟩] :=
  (Follows.term term).bind_steps fun a _ _ => of_steps (.toBool a)

theorem lowerArithmetic (op : BinaryOp) (left right : Term) :
    v.Follows env context (Lower.lowerArithmetic op (lowerTerm env left) (lowerTerm env right)) s
      (⟨.term left, s⟩ :: behind (lowerTerm env left) s fun _ s₁ => [⟨.term right, s₁⟩]) := by
  refine (term left).bind fun l s₁ _ => (term right).bind_steps fun r s₂ _ => ?_
  refine of_steps ((TakesSteps.unify? l r).bind fun result s₃ _ _ => ?_)
  refine .orFail_bind fun operands _ => .orFail_bind fun code _ => ?_
  refine (TakesSteps.binary code _ _ _).bind fun value s₄ _ _ => ?_
  split
  · exact .done
  · exact .done

theorem lowerEager (isAnd : Bool) (left right : Term) :
    v.Follows env context (Lower.lowerEager isAnd (lowerTerm env left) (lowerTerm env right)) s
      (⟨.term left, s⟩ :: behind (Lower.truthOf (lowerTerm env left)) s
        fun _ s₁ => [⟨.term right, s₁⟩]) := by
  refine (truthOf left).bind fun lhs s₁ _ => (truthOf right).bind_steps fun rhs s₂ _ => ?_
  split
  · exact pure _
  · exact of_steps ((TakesSteps.binary _ lhs rhs _).bind fun _ _ _ _ => .done)

/-- The left operand has not decided. -/
theorem lowerFork (isAnd : Bool) (right : Term) {lhs : Value} (hlhs : lhs.bool? = none) :
    v.Follows env context (Lower.lowerFork isAnd lhs (lowerTerm env right)) s
      (partsOfFork isAnd right lhs s) := by
  unfold Lower.lowerFork partsOfFork
  rw [hlhs]
  cases hcurrent : s.builder.current with
  | none =>
    have hexec : exec (orFail s.builder.current
        (.internal "no current block for short-circuit operator")) s =
        (.error (.unplaced (.internal "no current block for short-circuit operator")), s) := by
      rw [hcurrent]
      rfl
    rw [Follows, exec_bind, exec_get]
    dsimp only
    rw [exec_bind_of_error hexec]
    exact Passes.refl s
  | some start =>
    have hexec : exec (orFail s.builder.current
        (.internal "no current block for short-circuit operator")) s = (.ok start, s) := by
      rw [hcurrent]
      rfl
    rw [Follows, exec_bind, exec_get]
    dsimp only
    rw [exec_bind_of_ok hexec]
    refine Follows.steps_bind (.openFork isAnd lhs) fun mergeLabel s₁ _ => ?_
    refine ((truthOf right).tryCatch fun e s₂ => ?_).bind_steps fun rhs s₂ _ => of_steps ?_
    · exact of_steps ((TakesSteps.proceedTo _ _ _).bind fun _ _ _ _ => .throw e)
    · show TakesSteps env _ s₂ fun _ _ => True
      refine TakesSteps.get.bind fun s₃ s₄ _ _ => .orFail_bind fun stop _ => ?_
      refine (TakesSteps.jumpTo _ _ _).bind fun _ _ _ _ => ?_
      exact (TakesSteps.phi _ _).bind fun _ _ _ _ => .done

theorem lowerShortCircuit (isAnd : Bool) (left right : Term) :
    v.Follows env context
      (Lower.lowerShortCircuit isAnd (lowerTerm env left) (lowerTerm env right)) s
      (⟨.term left, s⟩ :: behind (Lower.truthOf (lowerTerm env left)) s
        (partsOfFork isAnd right)) := by
  refine (truthOf left).bind fun lhs s₁ _ => ?_
  cases hlhs : lhs.bool? with
  | none => exact lowerFork isAnd right hlhs
  | some decided =>
    rw [partsOfFork, hlhs]
    dsimp only
    split
    · exact pure _
    · exact (truthOf right).bind_steps fun rhs s₂ _ => pure _

theorem lowerBinary (op : BinaryOp) (left right : Term) :
    v.Follows env context (Lower.lowerBinary op (lowerTerm env left) (lowerTerm env right)) s
      (partsOfBinary env op left right s) := by
  cases op
  case logicalAnd => exact lowerShortCircuit true left right
  case logicalOr => exact lowerShortCircuit false left right
  case eagerAnd => exact lowerEager true left right
  case eagerOr => exact lowerEager false left right
  all_goals exact lowerArithmetic _ left right

theorem lowerNot (operand : Term) :
    v.Follows env context (Lower.lowerNot (lowerTerm env operand)) s [⟨.term operand, s⟩] := by
  refine (truthOf operand).bind_steps fun truth s₁ _ => ?_
  split
  · exact pure _
  · exact of_steps ((TakesSteps.binary _ _ _ _).bind fun _ _ _ _ => .done)

theorem lowerNegate (operand : Term) :
    v.Follows env context (Lower.lowerNegate (lowerTerm env operand)) s
      [⟨.term operand, s⟩] := by
  refine (term operand).bind_steps fun value s₁ _ => ?_
  split
  · exact pure _
  · exact pure _
  · exact of_steps ((TakesSteps.binary _ _ _ _).bind fun _ _ _ _ => .done)
  · exact of_steps ((TakesSteps.binary _ _ _ _).bind fun _ _ _ _ => .done)
  · exact fail _

/-- The arguments of a call are visited if the callee is known and their number fits. -/
theorem lowerCall (callee : String) (args : List Term) :
    v.Follows env context (Lower.lowerCall env callee args.length (lowerTerms env args)) s
      (partsOfCall env callee args s) := by
  unfold Lower.lowerCall partsOfCall
  cases env.functions.lookup callee with
  | none => exact throw _
  | some signature =>
    refine Follows.guarded ((terms args).bind_steps fun values s₁ _ => of_steps ?_)
    refine (TakesSteps.passArguments _ _ _ _ _).bind fun passed s₂ _ _ => ?_
    refine (TakesSteps.call _ _ _).bind fun result s₃ _ _ => ?_
    split
    · exact .done
    · exact .done

theorem lowerCast (location : Option Location) (target : SourceType) (operand : Term) :
    v.Follows env context (Lower.lowerCast env location target (lowerTerm env operand)) s
      (behind (checkKnown env target location) s fun _ s₁ => [⟨.term operand, s₁⟩]) := by
  refine steps_bind (.checkKnown target location) fun _ s₁ _ => ?_
  refine (term operand).bind_steps fun value s₂ _ => ?_
  split
  · exact pure _
  · exact fail _

theorem lowerAssign (target value : Term) :
    v.Follows env context (Lower.lowerAssign env target (lowerTerm env value)) s
      [⟨.term value, s⟩] := by
  refine (term value).bind_steps fun stored s₁ _ => ?_
  split
  · exact of_steps (.assignVariable _ _)
  · exact of_steps (.assignMember _ _ _)
  · exact fail _

/-- Only a string literal does more than steps. -/
theorem lowerLiteral {location : Option Location} {literal : Literal}
    (hv : v.node = .term (.literal location literal)) :
    v.Follows env context (SsaLowering.lowerLiteral literal) s [] := by
  cases literal with
  | number numeral =>
    rw [SsaLowering.lowerLiteral]
    cases lowerNumeral numeral with
    | error e => exact throw e
    | ok value => exact pure value
  | string text => exact ⟨.single (.intern hv), .single (.intern hv)⟩
  | bool b => exact pure _
  | null => exact pure _

theorem lowerTerm : (term : Term) → v.node = .term term →
    v.Follows env context (Lower.lowerTerm env term) s (partsOfTerm env s term)
  | .literal _ _, hv => .located (lowerLiteral hv)
  | .variable _ name, _ => .located (of_steps (.lowerVariable name))
  | .call _ callee args, _ => .located (lowerCall callee args)
  | .binary _ op left right, _ => .located (lowerBinary op left right)
  | .unary _ .logicalNot operand, _ => .located (lowerNot operand)
  | .unary _ .minus operand, _ => .located (lowerNegate operand)
  | .unary _ .preIncrement operand, _ | .unary _ .postIncrement operand, _
  | .unary _ .preDecrement operand, _ | .unary _ .postDecrement operand, _ =>
    .located (of_steps (.lowerStep _ operand))
  | .cast location target operand, _ => .located (lowerCast location target operand)
  | .alloc location target, _ => .located (of_steps (.lowerAlloc location target))
  | .assign _ target value, _ => .located (lowerAssign target value)
  | .member _ object field, _ => .located (of_steps (.lowerMember object field))

theorem lowerTerms (list : List Term) :
    v.Follows env context (Lower.lowerTerms env list) s (partsOfTerms env s list) := by
  cases list with
  | nil => exact pure _
  | cons first rest =>
    exact (term first).bind fun value s₁ _ => (terms rest).bind_steps fun values s₂ _ => pure _

/-! ## Statements -/

theorem inferVariable {decl : VariableDecl Term} (hinferred : decl.type.isInferred = true) :
    v.Follows env context (Lower.inferVariable env decl) s (partsOfVariable env decl s) := by
  unfold Lower.inferVariable partsOfVariable
  cases decl.initializer with
  | none => exact throw _
  | some initializer =>
    have hwarn : exec (warnUnknown env decl) s = (.ok (), s) := by
      simp [warnUnknown, hinferred]
    show v.Follows env context _ s
      (behind (warnUnknown env decl) s fun _ s₁ => [⟨.term initializer, s₁⟩])
    rw [behind_of_ok hwarn]
    refine (term initializer).bind_steps fun value s₁ _ => ?_
    dsimp only
    split
    · exact throw _
    · exact pure _

theorem declaredVariable {decl : VariableDecl Term} (hinferred : decl.type.isInferred = false) :
    v.Follows env context (Lower.declaredVariable env decl) s (partsOfVariable env decl s) := by
  have hwarn : TakesSteps env (warnUnknown env decl) s fun _ _ => True := by
    unfold warnUnknown
    split
    · exact .done
    · exact .warn _ _
  have hunless {α : Type} (rest : Unit → Lower α) :
      (if env.structs.isKnown decl.type then rest () else
        warn (.unknownVariableType decl.type decl.name) decl.location >>= rest) =
        warnUnknown env decl >>= rest := by
    rw [warnUnknown, hinferred, Bool.false_or]
    split <;> rfl
  unfold Lower.declaredVariable
  refine (congrArg (v.Follows env context · s _) (hunless _)).mpr ?_
  rw [partsOfVariable]
  cases decl.initializer with
  | none => exact (of_steps hwarn).bind_steps fun _ _ _ => pure _
  | some initializer =>
    refine steps_bind hwarn fun _ s₁ _ => (term initializer).bind_steps fun value s₂ _ => ?_
    exact of_steps ((TakesSteps.coerce _ _ _ _).bind fun _ _ _ _ => .done)

theorem variableValue (decl : VariableDecl Term) :
    v.Follows env context (Lower.variableValue env decl) s (partsOfVariable env decl s) := by
  rw [Lower.variableValue]
  split
  · next hinferred => exact inferVariable hinferred
  · next hinferred => exact declaredVariable (by simpa using hinferred)

/-- Behind its initializer, the name of a variable is bound. -/
theorem lowerVariableDecl {location : Option Location} {decl : VariableDecl Term}
    (hv : v.node = .statement (.variable location decl)) :
    v.Follows env context (Lower.lowerVariableDecl env decl) v.state
      (partsOfVariable env decl v.state) :=
  (variableValue decl).bind_steps fun _ _ hexec => Passes.bind hv hexec

theorem lowerCondition (condition : Term) :
    v.Follows env context (Lower.lowerCondition env condition) s [⟨.term condition, s⟩] :=
  truthOf condition

theorem lowerEffect (value : Term) :
    v.Follows env context (Lower.lowerEffect env value) s [⟨.term value, s⟩] :=
  (term value).bind_steps fun _ _ _ => pure _

theorem lowerElse (elseBranch : Option Statement) :
    v.Follows env context (match elseBranch with
      | some statement => Lower.recovering (lowerStatement env context statement)
      | none => Pure.pure ()) s (partsOfElse s elseBranch) := by
  cases elseBranch with
  | none => exact pure _
  | some statement => exact (Follows.statement statement).recovering

theorem lowerBranch (condition : Term) (thenBranch : Statement) (elseBranch : Option Statement) :
    v.Follows env context (Lower.lowerBranch (Lower.lowerCondition env condition)
        (Lower.recovering (lowerStatement env context thenBranch))
        (match elseBranch with
          | some statement => Lower.recovering (lowerStatement env context statement)
          | none => Pure.pure ())) s
      (partsOfBranch env context condition thenBranch elseBranch s) := by
  refine (lowerCondition condition).bind fun value s₁ _ => ?_
  refine steps_bind (.openBranch value) fun labels s₂ _ => ?_
  refine (statement thenBranch).recovering.bind fun _ s₃ _ => ?_
  refine steps_bind (.proceedTo _ _ _) fun _ s₄ _ => ?_
  exact (lowerElse elseBranch).bind_steps fun _ _ _ => of_steps (.proceedTo _ _ _)

theorem enterBody (condition : Option Term) (labels : LoopLabels) (hint : String) :
    v.Follows env context (Lower.enterBody (condition.map (Lower.lowerCondition env)) labels hint)
      s (partsOfOptional s condition) := by
  cases condition with
  | none => exact of_steps (.jumpTo _ _ hint)
  | some condition =>
    exact (lowerCondition condition).bind_steps fun _ _ _ => of_steps (.branchTo _ _ _ _ hint)

theorem lowerWhile (condition : Term) (body : Statement) :
    v.Follows env context (Lower.lowerWhile (Lower.lowerCondition env condition)
        (Lower.recovering (lowerStatement env context body))) s
      (partsOfWhile env condition body s) := by
  refine steps_bind .openWhile fun labels s₁ _ => ?_
  refine (enterBody (some condition) labels "while.body").bind fun _ s₂ _ => ?_
  exact (statement body).recovering.bind_steps fun _ _ _ => of_steps (.proceedTo _ _ _)

theorem lowerInit (init : Option Statement) :
    v.Follows env context (Visit.lowerInit env context init) s (partsOfElse s init) := by
  cases init with
  | none => exact pure _
  | some statement => exact Follows.statement statement

theorem lowerUpdate (update : Option Term) :
    v.Follows env context (match update with
      | some value => Lower.recovering (Lower.lowerEffect env value)
      | none => Pure.pure ()) s (partsOfOptional s update) := by
  cases update with
  | none => exact pure _
  | some value => exact (lowerEffect value).recovering

theorem lowerFor (init : Option Statement) (condition update : Option Term) (body : Statement) :
    v.Follows env context (Lower.lowerFor (Visit.lowerInit env context init)
        (condition.map (Lower.lowerCondition env))
        (match update with
          | some value => Lower.recovering (Lower.lowerEffect env value)
          | none => Pure.pure ())
        (Lower.recovering (lowerStatement env context body))) s
      (partsOfFor env context init condition update body s) := by
  refine (lowerInit init).bind fun _ s₁ _ => steps_bind .openFor fun labels s₂ _ => ?_
  refine (enterBody condition labels "for.body").bind fun _ s₃ _ => ?_
  refine (statement body).recovering.bind fun _ s₄ _ => ?_
  refine steps_bind (.proceedTo _ _ _) fun _ s₅ _ => ?_
  exact (lowerUpdate update).bind_steps fun _ _ _ => of_steps (.jumpTo _ _ _)

theorem lowerReturn (value : Option Term) :
    v.Follows env context (Lower.lowerReturn env context value) s
      (partsOfStatement env context s (.ret none value)) := by
  cases value with
  | none =>
    rw [Lower.lowerReturn]
    split
    · exact of_steps (.emit rfl (by trivial))
    · exact fail _
  | some value =>
    rw [Lower.lowerReturn, partsOfStatement]
    split
    · exact fail _
    · have hvalue : v.Follows env context (returnedValue env context value) s
          [⟨.term value, s⟩] :=
        (term value).bind_steps fun _ _ _ => of_steps (.coerce _ _ _ _)
      exact hvalue.bind_steps fun _ _ _ => of_steps (.emit rfl (by trivial))

theorem lowerStatement : (body : Statement) → v.node = .statement body →
    v.Follows env context (Lower.lowerStatement env context body) v.state
      (partsOfStatement env context v.state body)
  | .block _ body, _ => .located (.block body)
  | .expression _ value, _ => .located (lowerEffect value)
  | .variable _ _, hv => .located (lowerVariableDecl hv)
  | .branch _ condition thenBranch none, _ =>
    .located (lowerBranch condition thenBranch none)
  | .branch _ condition thenBranch (some elseBranch), _ =>
    .located (lowerBranch condition thenBranch (some elseBranch))
  | .whileLoop _ condition body, _ => .located (lowerWhile condition body)
  | .forLoop _ none condition update body, _ =>
    .located (lowerFor none condition update body)
  | .forLoop _ (some init) condition update body, _ =>
    .located (lowerFor (some init) condition update body)
  | .ret _ none, _ => .located (lowerReturn none)
  | .ret _ (some value), _ => .located (lowerReturn (some value))

/-- The rest of a block is visited even if a statement fails. -/
theorem lowerBlock (body : List Statement) :
    v.Follows env context (Lower.lowerBlock env context body) s
      (partsOfBlock env context s body) := by
  cases body with
  | nil => exact pure _
  | cons first rest =>
    rw [Lower.lowerBlock, partsOfBlock]
    have hopen : s.TidySteps env (exec Lower.openIfTerminated s).2 := TakesSteps.openIfTerminated.1
    rcases hexec : exec Lower.openIfTerminated s with ⟨e | ⟨⟩, s₁⟩
    all_goals rw [hexec] at hopen
    · have hclosed : exec (MonadExcept.tryCatch (do Lower.openIfTerminated; return true) fun e => do
          Lower.report e.toDiagnostic
          return false) s = (.ok false, { s₁ with log := s₁.log.report e.toDiagnostic }) := by
        rw [exec_tryCatch, exec_bind_of_error hexec]
        rfl
      rw [behind_of_error hexec, Follows, exec_bind_of_ok hclosed, if_neg Bool.false_ne_true]
      exact Passes.of_steps (hopen.tail ⟨.report _, .refl⟩)
    · have hopened : exec (MonadExcept.tryCatch (do Lower.openIfTerminated; return true) fun e => do
          Lower.report e.toDiagnostic
          return false) s = (.ok true, s₁) := by
        rw [exec_tryCatch, exec_bind_of_ok hexec]
        rfl
      have hrest : v.Follows env context
          (Lower.recovering (Lower.lowerStatement env context first) >>= fun _ =>
            Lower.lowerBlock env context rest) s₁ _ :=
        (statement first).recovering.bind fun _ s₂ _ => block rest
      rw [behind_of_ok hexec, Follows, exec_bind_of_ok hopened, if_pos rfl]
      exact Course.head (R := v.Passes env) (fun _ _ _ => .trans) (.of_steps hopen) hrest

end Follows

/-- The lowering of a node takes its course through the visits to its parts. -/
theorem course_passes (v : Visit) :
    Course env context (v.Passes env) v.state (v.parts env context) (v.after env context) := by
  obtain ⟨node, s⟩ := v
  cases node with
  | term term => exact Follows.lowerTerm term rfl
  | terms terms => exact Follows.lowerTerms terms
  | statement body => exact Follows.lowerStatement body rfl
  | block body => exact Follows.lowerBlock body

theorem course (v : Visit) :
    Course env context (v.Moves env) v.state (v.parts env context) (v.after env context) :=
  v.course_passes.mono fun _ _ => And.left

theorem course_changes (v : Visit) :
    Course env context (v.Changes env) v.state (v.parts env context) (v.after env context) :=
  v.course_passes.mono fun _ _ => And.right

/-- Where a declaration has a value for its variable, it ends with binding the name. -/
theorem after_variable {location : Option Location} {decl : VariableDecl Term}
    {source : SourceType} {type : MachineType} {initial : Option Value}
    (hv : v.node = .statement (.variable location decl))
    (hvalue : exec (variableValue env decl) v.state = (.ok (source, type, initial), s)) :
    v.after env context = (exec (bindVariable decl source type initial) s).2 := by
  rw [after, hv]
  dsimp only
  rw [lowerStatement, exec_located, lowerVariableDecl, exec_bind_of_ok hvalue]
  dsimp only
  rcases exec (bindVariable decl source type initial) s with ⟨e | ⟨⟩, t⟩ <;> rfl

/-! ## What is visited -/

theorem node_of_mem_partsOfFork {isAnd : Bool} {right : Term} {lhs : Value}
    (hw : w ∈ partsOfFork isAnd right lhs s) : w.node = .term right := by
  unfold partsOfFork at hw
  split at hw
  · split at hw
    · cases hw
    · rw [List.mem_singleton.mp hw]
  · obtain ⟨_, s₁, -, hw⟩ := mem_behind hw
    rw [List.mem_singleton.mp hw]
  · cases hw

theorem node_of_mem_partsOfBinary {op : BinaryOp} {left right : Term}
    (hw : w ∈ partsOfBinary env op left right s) :
    w.node = .term left ∨ w.node = .term right := by
  rcases List.mem_cons.mp hw with rfl | hw
  · exact .inl rfl
  · split at hw
    all_goals obtain ⟨_, s₁, -, hw⟩ := mem_behind hw
    · exact .inr (node_of_mem_partsOfFork hw)
    · exact .inr (node_of_mem_partsOfFork hw)
    all_goals
      rw [List.mem_singleton.mp hw]
      exact .inr rfl

theorem node_of_mem_partsOfCall {callee : String} {args : List Term}
    (hw : w ∈ partsOfCall env callee args s) : w.node = .terms args := by
  unfold partsOfCall at hw
  split at hw
  · rw [List.mem_singleton.mp (List.mem_ite_nil_right.mp hw).2]
  · cases hw

theorem node_of_mem_partsOfTerms {first : Term} {rest : List Term}
    (hw : w ∈ partsOfTerms env s (first :: rest)) :
    w.node = .term first ∨ w.node = .terms rest := by
  rcases List.mem_cons.mp hw with rfl | hw
  · exact .inl rfl
  · obtain ⟨_, s₁, -, hw⟩ := mem_behind hw
    rw [List.mem_singleton.mp hw]
    exact .inr rfl

theorem node_of_mem_partsOfVariable {decl : VariableDecl Term}
    (hw : w ∈ partsOfVariable env decl s) :
    ∃ initializer, decl.initializer = some initializer ∧ w.node = .term initializer := by
  unfold partsOfVariable at hw
  split at hw
  · next initializer hinitializer =>
    obtain ⟨_, s₁, -, hw⟩ := mem_behind hw
    rw [List.mem_singleton.mp hw]
    exact ⟨initializer, hinitializer, rfl⟩
  · cases hw

theorem node_of_mem_partsOfElse {statement : Option Statement}
    (hw : w ∈ partsOfElse s statement) : ∃ st, statement = some st ∧ w.node = .statement st := by
  cases statement with
  | none => cases hw
  | some statement =>
    rw [List.mem_singleton.mp hw]
    exact ⟨statement, rfl, rfl⟩

theorem node_of_mem_partsOfOptional {term : Option Term} (hw : w ∈ partsOfOptional s term) :
    ∃ t, term = some t ∧ w.node = .term t := by
  cases term with
  | none => cases hw
  | some term =>
    rw [List.mem_singleton.mp hw]
    exact ⟨term, rfl, rfl⟩

theorem node_of_mem_partsOfBranch {condition : Term} {thenBranch : Statement}
    {elseBranch : Option Statement}
    (hw : w ∈ partsOfBranch env context condition thenBranch elseBranch s) :
    w.node = .term condition ∨ w.node = .statement thenBranch ∨
      ∃ st, elseBranch = some st ∧ w.node = .statement st := by
  rcases List.mem_cons.mp hw with rfl | hw
  · exact .inl rfl
  · obtain ⟨_, s₁, -, hw⟩ := mem_behind hw
    obtain ⟨_, s₂, -, hw⟩ := mem_behind hw
    rcases List.mem_cons.mp hw with rfl | hw
    · exact .inr (.inl rfl)
    · obtain ⟨_, s₃, -, hw⟩ := mem_behind hw
      obtain ⟨_, s₄, -, hw⟩ := mem_behind hw
      exact .inr (.inr (node_of_mem_partsOfElse hw))

theorem node_of_mem_partsOfWhile {condition : Term} {body : Statement}
    (hw : w ∈ partsOfWhile env condition body s) :
    w.node = .term condition ∨ w.node = .statement body := by
  obtain ⟨_, s₁, -, hw⟩ := mem_behind hw
  rcases List.mem_cons.mp hw with rfl | hw
  · exact .inl rfl
  · obtain ⟨_, s₂, -, hw⟩ := mem_behind hw
    rw [List.mem_singleton.mp hw]
    exact .inr rfl

theorem node_of_mem_partsOfFor {init : Option Statement} {condition update : Option Term}
    {body : Statement} (hw : w ∈ partsOfFor env context init condition update body s) :
    (∃ st, init = some st ∧ w.node = .statement st) ∨
      (∃ t, condition = some t ∧ w.node = .term t) ∨
      w.node = .statement body ∨ ∃ t, update = some t ∧ w.node = .term t := by
  rcases List.mem_append.mp hw with hw | hw
  · exact .inl (node_of_mem_partsOfElse hw)
  · obtain ⟨_, s₁, -, hw⟩ := mem_behind hw
    obtain ⟨_, s₂, -, hw⟩ := mem_behind hw
    rcases List.mem_append.mp hw with hw | hw
    · exact .inr (.inl (node_of_mem_partsOfOptional hw))
    · obtain ⟨_, s₃, -, hw⟩ := mem_behind hw
      rcases List.mem_cons.mp hw with rfl | hw
      · exact .inr (.inr (.inl rfl))
      · obtain ⟨_, s₄, -, hw⟩ := mem_behind hw
        obtain ⟨_, s₅, -, hw⟩ := mem_behind hw
        exact .inr (.inr (.inr (node_of_mem_partsOfOptional hw)))

theorem node_of_mem_partsOfBlock {first : Statement} {rest : List Statement}
    (hw : w ∈ partsOfBlock env context s (first :: rest)) :
    w.node = .statement first ∨ w.node = .block rest := by
  obtain ⟨_, s₁, -, hw⟩ := mem_behind hw
  rcases List.mem_cons.mp hw with rfl | hw
  · exact .inl rfl
  · obtain ⟨_, s₂, -, hw⟩ := mem_behind hw
    rw [List.mem_singleton.mp hw]
    exact .inr rfl

theorem size_lt_of_mem_partsOfTerm : (term : Term) → w ∈ partsOfTerm env s term →
    sizeOf w.node < sizeOf (Node.term term)
  | .call _ callee args, hw => by
    rw [node_of_mem_partsOfCall hw]
    simp +arith
  | .binary _ op left right, hw => by
    rcases node_of_mem_partsOfBinary hw with h | h
    all_goals
      rw [h]
      simp +arith
  | .unary _ .logicalNot operand, hw | .unary _ .minus operand, hw
  | .assign _ _ operand, hw => by
    rw [List.mem_singleton.mp hw]
    simp +arith
  | .cast _ _ operand, hw => by
    obtain ⟨_, s₁, -, hw⟩ := mem_behind hw
    rw [List.mem_singleton.mp hw]
    simp +arith

theorem size_lt_of_mem_partsOfStatement : (body : Statement) →
    w ∈ partsOfStatement env context s body → sizeOf w.node < sizeOf (Node.statement body)
  | .block _ body, hw | .expression _ body, hw => by
    rw [List.mem_singleton.mp hw]
    simp +arith
  | .variable _ decl, hw => by
    obtain ⟨initializer, hinitializer, h⟩ := node_of_mem_partsOfVariable hw
    obtain ⟨name, type, isMutable, first, location⟩ := decl
    obtain rfl : first = some initializer := hinitializer
    rw [h]
    simp +arith
  | .branch _ condition thenBranch elseBranch, hw => by
    rcases node_of_mem_partsOfBranch hw with h | h | ⟨st, rfl, h⟩
    all_goals
      rw [h]
      simp +arith
  | .whileLoop _ condition body, hw => by
    rcases node_of_mem_partsOfWhile hw with h | h
    all_goals
      rw [h]
      simp +arith
  | .forLoop _ init condition update body, hw => by
    rcases node_of_mem_partsOfFor hw with ⟨st, rfl, h⟩ | ⟨t, rfl, h⟩ | h | ⟨t, rfl, h⟩
    all_goals
      rw [h]
      simp +arith
  | .ret _ (some value), hw => by
    rw [partsOfStatement] at hw
    split at hw
    · cases hw
    · rw [List.mem_singleton.mp hw]
      simp +arith

theorem size_lt_of_mem_parts (hw : w ∈ v.parts env context) : sizeOf w.node < sizeOf v.node := by
  obtain ⟨node, s⟩ := v
  cases node with
  | term term => exact size_lt_of_mem_partsOfTerm term hw
  | terms terms =>
    cases terms with
    | nil => cases hw
    | cons first rest =>
      rcases node_of_mem_partsOfTerms hw with h | h
      all_goals
        rw [h]
        simp +arith
  | statement body => exact size_lt_of_mem_partsOfStatement body hw
  | block body =>
    cases body with
    | nil => cases hw
    | cons first rest =>
      rcases node_of_mem_partsOfBlock hw with h | h
      all_goals
        rw [h]
        simp +arith

/-! ## The recursion -/

section

variable {R : Visit → BodyState → BodyState → Prop}
  (hcourse : ∀ v : Visit,
    Course env context (R v) v.state (v.parts env context) (v.after env context))

section

variable {S : BodyState → BodyState → Prop} (htrans : ∀ a b c, S a b → S b c → S a c)

include hcourse htrans

/-- What holds of all changes inside of a visit holds of the visit, by induction on its node. -/
theorem across (v : Visit) (h : ∀ w, v.Contains env context w → ∀ a b, R w a b → S a b) :
    S v.state (v.after env context) := by
  have hparts : ∀ w ∈ v.parts env context, S w.state (w.after env context) := fun w hw =>
    across w fun u hu => h u (.head hw hu)
  exact (hcourse v).rel htrans (h v .refl) hparts
termination_by sizeOf v.node
decreasing_by exact size_lt_of_mem_parts hw

/-- It also holds up to every visit inside, and from there to the end. -/
theorem within (hrefl : ∀ a, S a a) (hw : v.Contains env context w)
    (h : ∀ w, v.Contains env context w → ∀ a b, R w a b → S a b) :
    S v.state w.state ∧ S (w.after env context) (v.after env context) := by
  induction hw using Relation.ReflTransGen.head_induction_on with
  | refl => exact ⟨hrefl _, hrefl _⟩
  | @head v u hu huw ih =>
    obtain ⟨hbefore, hafter⟩ := ih fun x hx => h x (.head hu hx)
    obtain ⟨hto, hfrom⟩ := (hcourse v).rel_around htrans (h v .refl)
      (fun x hx => across hcourse htrans x fun y hy => h y (.head hx hy)) hu
    exact ⟨htrans _ _ _ hto hbefore, htrans _ _ _ hafter hfrom⟩

/-- Of two visits inside, one contains the other, or one comes before the other. -/
theorem apart (hrefl : ∀ a, S a a) {u : Visit} (hw : v.Contains env context w)
    (hu : v.Contains env context u)
    (h : ∀ w, v.Contains env context w → ∀ a b, R w a b → S a b) :
    w.Contains env context u ∨ u.Contains env context w ∨
      S (w.after env context) u.state ∨ S (u.after env context) w.state := by
  induction hw using Relation.ReflTransGen.head_induction_on with
  | refl => exact .inl hu
  | @head v w₁ hw₁ hw ih =>
    rcases hu.cases_head with rfl | ⟨u₁, hu₁, hu⟩
    · exact .inr (.inl (.head hw₁ hw))
    · have hparts : ∀ x ∈ v.parts env context, ∀ y, x.Contains env context y →
          ∀ a b, R y a b → S a b := fun x hx y hy => h y (.head hx hy)
      obtain ⟨hbeforew, hafterw⟩ := within hcourse htrans hrefl hw (hparts _ hw₁)
      obtain ⟨hbeforeu, hafteru⟩ := within hcourse htrans hrefl hu (hparts _ hu₁)
      rcases (hcourse v).rel_between htrans (h v .refl)
        (fun x hx => across hcourse htrans x (hparts x hx)) hw₁ hu₁ with rfl | horder | horder
      · exact ih hu (hparts _ hw₁)
      · exact .inr (.inr (.inl (htrans _ _ _ hafterw (htrans _ _ _ horder hbeforeu))))
      · exact .inr (.inr (.inr (htrans _ _ _ hafteru (htrans _ _ _ horder hbeforew))))

end

section

variable {P : BodyState → Prop} (hchange : ∀ v : Visit, P v.state → ∀ a b, R v a b → P a → P b)

include hcourse hchange

/-- What holds at the beginning of a visit and is kept by all changes holds at the end. -/
theorem keeps_across (v : Visit) (hv : P v.state) : P (v.after env context) :=
  ((hcourse v).holds (hchange v hv) hv fun w _ => keeps_across w).1
termination_by sizeOf v.node
decreasing_by exact size_lt_of_mem_parts ‹_›

theorem keeps_within (hw : v.Contains env context w) (hv : P v.state) : P w.state := by
  induction hw using Relation.ReflTransGen.head_induction_on with
  | refl => exact hv
  | @head v u hu _ ih =>
    exact ih (((hcourse v).holds (hchange v hv) hv
      fun w _ => keeps_across hcourse hchange w).2 u hu)

end

end

/-- A state in which a node goes on by itself: at its beginning, or behind one of its parts. -/
inductive GoesOn (env : Environment) (context : FunctionContext) (v : Visit) : BodyState → Prop
  | start : GoesOn env context v v.state
  | part {w : Visit} : w ∈ v.parts env context → GoesOn env context v (w.after env context)

/-- What all changes keep holds in all these states. -/
theorem GoesOn.keeps {R : Visit → BodyState → BodyState → Prop} {P : BodyState → Prop}
    (hcourse : ∀ v : Visit,
      Course env context (R v) v.state (v.parts env context) (v.after env context))
    (hchange : ∀ v : Visit, P v.state → ∀ a b, R v a b → P a → P b) (hv : P v.state)
    (h : v.GoesOn env context s) : P s := by
  cases h with
  | start => exact hv
  | part hw => exact keeps_across hcourse hchange _ (keeps_within hcourse hchange (.single hw) hv)

/-! ### Moves and changes -/

section

variable {S : BodyState → BodyState → Prop} (hrefl : ∀ a, S a a)
  (htrans : ∀ a b c, S a b → S b c → S a c)

include hrefl htrans

theorem rel_moves (h : ∀ a b, v.Move env a b → S a b) : ∀ a b, v.Moves env a b → S a b := by
  intro a b hmoves
  induction hmoves with
  | refl => exact hrefl a
  | tail _ hmove ih => exact htrans _ _ _ ih (h _ _ hmove)

theorem rel_after (v : Visit) (h : ∀ w, v.Contains env context w →
    ∀ a b, w.Move env a b → S a b) : S v.state (v.after env context) :=
  across course htrans v fun w hw => rel_moves hrefl htrans (h w hw)

theorem rel_inside (hw : v.Contains env context w)
    (h : ∀ w, v.Contains env context w → ∀ a b, w.Move env a b → S a b) :
    S v.state w.state ∧ S (w.after env context) (v.after env context) :=
  within course htrans hrefl hw fun w hw => rel_moves hrefl htrans (h w hw)

theorem rel_changes (h : ∀ a b, v.Change env a b → S a b) :
    ∀ a b, v.Changes env a b → S a b := by
  intro a b hchanges
  induction hchanges with
  | refl => exact hrefl a
  | tail _ hchange ih => exact htrans _ _ _ ih (h _ _ hchange)

end

end Visit

namespace UnitState

variable {s : UnitState} {d : DeclaredFunction} {body : Statement}

/-- The visit to the whole body of a function. -/
def bodyVisit (s : UnitState) (d : DeclaredFunction) (body : Statement) : Visit :=
  ⟨.block body.parts, s.opened d⟩

/-- If the visit failed, which it cannot, then only the log would differ. -/
theorem globals_lowerBody : (s.lowerBody d body).globals =
    ((s.bodyVisit d body).after (s.environment d) (context d)).globals := by
  rw [lowerBody_eq, exec_recovering, exec_functionBody]
  show _ = (exec (lowerBlock (s.environment d) (context d) body.parts) (s.opened d)).2.globals
  rcases exec (lowerBlock (s.environment d) (context d) body.parts) (s.opened d) with
    ⟨e | ⟨⟩, s'⟩ <;> rfl

theorem after_bodyVisit (henv : (s.environment d).Rooted) (body : Statement) :
    (s.bodyVisit d body).after (s.environment d) (context d) = s.lowerBody d body := by
  obtain ⟨hexec, -⟩ := exists_laid_lowerBody henv body
  show (exec (lowerBlock (s.environment d) (context d) body.parts) (s.opened d)).2 = _
  rw [hexec]

end UnitState

end SsaLowering
