import SsaLowering.Lowering.Function
import SsaLowering.Proofs.ExpressionComparison

/-!
# Statements side by side

In both runs, a statement adds the same instructions up to the addresses of string literals, and
the same is reported. So the bodies that come from one body are alike, and they leave the same
scope.
-/

namespace SsaLowering

namespace Comparison

variable {c : Comparison} {w : PoolTexts} {value value' : Value} {env : Environment}
  {functions : List (String × Signature)} {context : FunctionContext} {decl : VariableDecl Term}

/-- Whatever was lowered before, the actions leave states that belong together. -/
def LikeAction (c : Comparison) (x x' : Lower Unit) : Prop :=
  ∀ w, Parallel c.Coupled w x x' fun _ _ _ => True

/-- Conditions that belong together, whatever was lowered before. -/
def LikeCondition (c : Comparison) (x x' : Lower Value) : Prop :=
  ∀ w, Parallel c.Coupled w x x' c.Like

section

variable (hmeets : c.Meets env functions)

include hmeets

theorem lowerCondition (condition : Term) :
    c.LikeCondition (Lower.lowerCondition env condition)
      (Lower.lowerCondition { env with functions } condition) :=
  fun _ => truthOf (lowerTerm hmeets condition)

theorem lowerEffect (term : Term) :
    c.LikeAction (Lower.lowerEffect env term) (Lower.lowerEffect { env with functions } term) :=
  fun w => (lowerTerm hmeets term w).bind fun _ _ _ _ _ => .pure trivial

/-! ## Variables -/

/-- The types of new variables are the same, and their first values belong together. -/
def LikeStart (c : Comparison) (w : PoolTexts)
    (start start' : SourceType × MachineType × Option Value) : Prop :=
  ∃ initial, Option.Rel (c.Like w) start.2.2 initial ∧ start' = (start.1, start.2.1, initial)

theorem inferVariable :
    Parallel c.Coupled w (Lower.inferVariable env decl)
      (Lower.inferVariable { env with functions } decl) c.LikeStart := by
  unfold Lower.inferVariable
  cases decl.initializer with
  | none => exact .throw _
  | some initializer =>
    refine (lowerTerm hmeets initializer w).bind fun w' v v' _ hv => ?_
    obtain ⟨value', hvalue, rfl⟩ := hv
    exact .guarded' (.pure ⟨some value', .some hvalue, rfl⟩)

theorem declaredVariable :
    Parallel c.Coupled w (Lower.declaredVariable env decl)
      (Lower.declaredVariable { env with functions } decl) c.LikeStart := by
  unfold Lower.declaredVariable
  extract_lets type start type' start'
  have hstart : Parallel c.Coupled w (start ()) (start' ()) c.LikeStart := by
    dsimp only [start, start']
    cases decl.initializer with
    | none => exact .pure ⟨none, .none, rfl⟩
    | some initializer =>
      refine (lowerTerm hmeets initializer w).bind fun w' v v' _ hv => ?_
      refine (coerce hv decl.type type _).bind fun stored stored' hstored => ?_
      exact .pure ⟨some stored', .some hstored, rfl⟩
  dsimp only
  split
  · exact hstart
  · exact (warn rfl decl.location).bind fun _ _ _ => hstart

theorem variableValue :
    Parallel c.Coupled w (Lower.variableValue env decl)
      (Lower.variableValue { env with functions } decl) c.LikeStart := by
  unfold Lower.variableValue
  split
  · exact inferVariable hmeets
  · exact declaredVariable hmeets

end

/-- A new name is bound to the same place in both runs. -/
theorem Coupled.declare {s s' : BodyState} (hs : c.Coupled w s s') (name : String) {b : Binding}
    (hb : c.FixedPlace b.storage) :
    c.Coupled w { s with scope := s.scope.declare name b }
      { s' with scope := s'.scope.declare name b } := by
  refine ⟨hs.left, hs.right, hs.exact, hs.builder, by rw [hs.scope], ?_, hs.log⟩
  intro entry hentry
  rcases List.mem_append.mp hentry with hold | hnew
  · exact hs.places entry (List.mem_of_mem_filter hold)
  · rw [List.mem_singleton.mp hnew]
    exact hb

theorem bindVariable (source : SourceType) (type : MachineType) {initial initial' : Option Value}
    (h : Option.Rel (c.Like w) initial initial') :
    Quiet c.Coupled w (Lower.bindVariable decl source type initial)
      (Lower.bindVariable decl source type initial') fun _ _ => True := by
  refine (build (Build.like_entryAlloca type)).bind ?_
  rintro _ slot ⟨rfl, t, ht⟩
  have hslot : c.Fixed slot := fixed_temp ht
  have hstore : Quiet c.Coupled w (Lower.storeInitial slot type initial)
      (Lower.storeInitial slot type initial') fun _ _ => True := by
    cases h with
    | none => exact .pure trivial
    | some hvalue => exact store hslot hvalue type
  refine hstore.bind fun _ _ _ s s' hs => ?_
  exact ⟨w, le_rfl, hs.declare decl.name hslot, .ok ⟨rfl, trivial⟩⟩

theorem lowerVariableDecl (hmeets : c.Meets env functions) :
    c.LikeAction (Lower.lowerVariableDecl env decl)
      (Lower.lowerVariableDecl { env with functions } decl) := by
  refine fun w => (variableValue hmeets).bind fun w' start start' _ hstart => ?_
  obtain ⟨initial, hinitial, rfl⟩ := hstart
  exact (bindVariable start.1 start.2.1 hinitial).parallel fun _ _ _ => trivial

/-! ## Control -/

theorem lowerReturn (hmeets : c.Meets env functions) (term : Option Term) :
    c.LikeAction (Lower.lowerReturn env context term)
      (Lower.lowerReturn { env with functions } context term) := by
  intro w
  cases term with
  | none =>
    rw [Lower.lowerReturn, Lower.lowerReturn]
    split
    · exact (build (Build.like_emit .leave)).parallel fun _ _ _ => trivial
    · exact fail _
  | some term =>
    rw [Lower.lowerReturn, Lower.lowerReturn]
    split
    · exact fail _
    · have hvalue : Parallel c.Coupled w (Lower.returnedValue env context term)
          (Lower.returnedValue { env with functions } context term) c.Like :=
        (lowerTerm hmeets term w).bind fun _ _ _ _ hv =>
          (coerce hv _ _ _).parallel fun _ _ h => h
      exact hvalue.bind fun _ _ _ _ hv =>
        (build (Build.like_emit (.ret _ hv))).parallel fun _ _ _ => trivial

/-- A new label is the same in both runs. -/
theorem newLabel : Quiet c.Coupled w (Lower.build Build.newLabel) (Lower.build Build.newLabel)
    fun label label' => label' = label := build Build.like_newLabel

theorem openBranch (h : c.Like w value value') :
    Quiet c.Coupled w (Lower.openBranch value) (Lower.openBranch value')
      fun labels labels' => labels' = labels := by
  refine newLabel.bind ?_
  rintro _ thenLabel rfl
  refine newLabel.bind ?_
  rintro _ elseLabel rfl
  refine newLabel.bind ?_
  rintro _ mergeLabel rfl
  exact (branchTo h _ _ _ _).bind fun _ _ _ => Quiet.pure rfl

theorem openWhile :
    Quiet c.Coupled w Lower.openWhile Lower.openWhile fun labels labels' => labels' = labels := by
  refine newLabel.bind ?_
  rintro _ conditionLabel rfl
  refine newLabel.bind ?_
  rintro _ bodyLabel rfl
  refine newLabel.bind ?_
  rintro _ endLabel rfl
  exact (jumpTo _ _ _).bind fun _ _ _ => Quiet.pure rfl

theorem openFor :
    Quiet c.Coupled w Lower.openFor Lower.openFor fun labels labels' => labels' = labels := by
  refine newLabel.bind ?_
  rintro _ conditionLabel rfl
  refine newLabel.bind ?_
  rintro _ bodyLabel rfl
  refine newLabel.bind ?_
  rintro _ updateLabel rfl
  refine newLabel.bind ?_
  rintro _ endLabel rfl
  exact (jumpTo _ _ _).bind fun _ _ _ => Quiet.pure rfl

section

variable {condition condition' : Lower Value} {first first' second second' init init' update update'
  body body' : Lower Unit}

theorem lowerBranch (hcondition : c.LikeCondition condition condition')
    (hfirst : c.LikeAction first first') (hsecond : c.LikeAction second second') :
    c.LikeAction (Lower.lowerBranch condition first second)
      (Lower.lowerBranch condition' first' second') := by
  refine fun w => (hcondition w).bind fun w₁ value value' _ hvalue => (openBranch hvalue).bind ?_
  rintro _ labels rfl
  refine (hfirst w₁).bind fun w₂ _ _ _ _ => (proceedTo _ _ _).bind fun _ _ _ => ?_
  exact (hsecond w₂).bind fun w₃ _ _ _ _ => (proceedTo _ _ _).parallel fun _ _ _ => trivial

/-- Both loops have a condition, or none has. -/
theorem enterBody {condition condition' : Option (Lower Value)}
    (h : Option.Rel c.LikeCondition condition condition') (labels : Lower.LoopLabels)
    (hint : String) :
    c.LikeAction (Lower.enterBody condition labels hint)
      (Lower.enterBody condition' labels hint) := by
  intro w
  cases h with
  | none => exact (jumpTo _ _ _).parallel fun _ _ _ => trivial
  | some hcondition =>
    exact (hcondition w).bind fun _ _ _ _ hvalue =>
      (branchTo hvalue _ _ _ _).parallel fun _ _ _ => trivial

theorem lowerWhile (hcondition : c.LikeCondition condition condition')
    (hbody : c.LikeAction body body') :
    c.LikeAction (Lower.lowerWhile condition body) (Lower.lowerWhile condition' body') := by
  refine fun w => openWhile.bind ?_
  rintro _ labels rfl
  refine (enterBody (.some hcondition) labels _ w).bind fun w₁ _ _ _ _ => ?_
  exact (hbody w₁).bind fun _ _ _ _ _ => (proceedTo _ _ _).parallel fun _ _ _ => trivial

theorem lowerFor {condition condition' : Option (Lower Value)} (hinit : c.LikeAction init init')
    (hcondition : Option.Rel c.LikeCondition condition condition')
    (hupdate : c.LikeAction update update') (hbody : c.LikeAction body body') :
    c.LikeAction (Lower.lowerFor init condition update body)
      (Lower.lowerFor init' condition' update' body') := by
  refine fun w => (hinit w).bind fun w₁ _ _ _ _ => openFor.bind ?_
  rintro _ labels rfl
  refine (enterBody hcondition labels _ w₁).bind fun w₂ _ _ _ _ => ?_
  refine (hbody w₂).bind fun w₃ _ _ _ _ => (proceedTo _ _ _).bind fun _ _ _ => ?_
  exact (hupdate w₃).bind fun _ _ _ _ _ => (jumpTo _ _ _).parallel fun _ _ _ => trivial

end

theorem openIfTerminated :
    Quiet c.Coupled w Lower.openIfTerminated Lower.openIfTerminated fun _ _ => True := by
  refine isTerminated.bind ?_
  rintro _ terminated rfl
  split
  · exact (build (Build.like_appendBlock "dead")).bind fun _ _ _ => Quiet.pure trivial
  · exact Quiet.pure trivial

/-- A block is opened for a statement in both runs, or in none. -/
theorem opensBlock :
    Parallel c.Coupled w
      (MonadExcept.tryCatch (do Lower.openIfTerminated; return true) fun e => do
        Lower.report e.toDiagnostic
        return false)
      (MonadExcept.tryCatch (do Lower.openIfTerminated; return true) fun e => do
        Lower.report e.toDiagnostic
        return false)
      fun _ opened opened' => opened' = opened :=
  tryCatch (openIfTerminated.bind fun _ _ _ => .pure rfl) fun _ e _ =>
    (report e.not_isUnused).bind fun _ _ _ => .pure rfl

/-! ## All statements -/

theorem pure_unit : c.LikeAction (pure ()) (pure ()) := fun _ => .pure trivial

theorem recovers {x x' : Lower Unit} (h : c.LikeAction x x') :
    c.LikeAction (Lower.recovering x) (Lower.recovering x') := fun w => recovering (h w)

/-- The condition of a loop may be absent. -/
theorem conditionOf (hmeets : c.Meets env functions) (condition : Option Term) :
    Option.Rel c.LikeCondition (condition.map (Lower.lowerCondition env))
      (condition.map (Lower.lowerCondition { env with functions })) := by
  cases condition with
  | none => exact .none
  | some term => exact .some (lowerCondition hmeets term)

/-- So may the part that runs after every round. -/
theorem updateOf (hmeets : c.Meets env functions) : (update : Option Term) →
    c.LikeAction
      (match update with
        | some value => Lower.recovering (Lower.lowerEffect env value)
        | none => pure ())
      (match update with
        | some value => Lower.recovering (Lower.lowerEffect { env with functions } value)
        | none => pure ())
  | none => pure_unit
  | some value => recovers (lowerEffect hmeets value)

mutual

theorem lowerStatement (hmeets : c.Meets env functions) : (statement : Statement) →
    c.LikeAction (Lower.lowerStatement env context statement)
      (Lower.lowerStatement { env with functions } context statement)
  | .block _ body => fun w => located (lowerBlock hmeets body w)
  | .expression _ value => fun w => located (lowerEffect hmeets value w)
  | .variable _ _ => fun w => located (lowerVariableDecl hmeets w)
  | .branch _ condition thenBranch none => fun w =>
    located (lowerBranch (lowerCondition hmeets condition)
      (recovers (lowerStatement hmeets thenBranch)) pure_unit w)
  | .branch _ condition thenBranch (some elseBranch) => fun w =>
    located (lowerBranch (lowerCondition hmeets condition)
      (recovers (lowerStatement hmeets thenBranch))
      (recovers (lowerStatement hmeets elseBranch)) w)
  | .whileLoop _ condition body => fun w =>
    located (lowerWhile (lowerCondition hmeets condition)
      (recovers (lowerStatement hmeets body)) w)
  | .forLoop _ none condition update body => fun w =>
    located (lowerFor pure_unit (conditionOf hmeets condition) (updateOf hmeets update)
      (recovers (lowerStatement hmeets body)) w)
  | .forLoop _ (some init) condition update body => fun w =>
    located (lowerFor (lowerStatement hmeets init) (conditionOf hmeets condition)
      (updateOf hmeets update) (recovers (lowerStatement hmeets body)) w)
  | .ret _ value => fun w => located (lowerReturn hmeets value w)
termination_by structural statement => statement

theorem lowerBlock (hmeets : c.Meets env functions) : (body : List Statement) →
    c.LikeAction (Lower.lowerBlock env context body)
      (Lower.lowerBlock { env with functions } context body)
  | [] => pure_unit
  | statement :: rest => by
    have hrest := lowerBlock hmeets rest
    have hfirst := recovers (lowerStatement hmeets statement)
    refine fun w => opensBlock.bind ?_
    rintro w₁ _ opened - rfl
    cases opened with
    | false => exact .pure trivial
    | true => exact (hfirst w₁).bind fun w₂ _ _ _ _ => hrest w₂
termination_by structural body => body

end

theorem functionBody (hmeets : c.Meets env functions) (body : Statement) :
    c.LikeAction (Lower.functionBody env context body)
      (Lower.functionBody { env with functions } context body) := by
  refine fun w => (build (Build.like_appendBlock "entry")).bind fun _ _ _ => ?_
  cases body with
  | block location statements => exact lowerBlock hmeets statements w
  | _ => exact recovering (lowerStatement hmeets _ w)

end Comparison

end SsaLowering
