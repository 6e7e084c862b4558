import SsaLowering.Proofs.Chart
import SsaLowering.Proofs.Emission

/-!
# Charts of lowered statements

Between two states of the lowering, a statement is charted by the lines that it added and by
marks where the lowering of its expressions was done. A chart that came about in this way runs
the statement, wherever it stands.
-/

namespace SsaLowering

namespace Lower

variable {α : Type}

/-- An action that succeeds between two states and adds some lines. -/
structure Adds (action : Lower α) (s : BodyState) (a : α) (x : List Item) (s' : BodyState) :
    Prop where
  exec : exec action s = (.ok a, s')
  listing : s'.builder.listing = s.builder.listing ++ x

/-- An action that adds lines and ends in an open block. -/
structure AddsOpen (action : Lower α) (s : BodyState) (a : α) (x : List Item) (s' : BodyState) :
    Prop extends Adds action s a x s' where
  standsOpen : s'.StandsOpen

/-- An action that adds the code of an expression. -/
structure AddsPiece (action : Lower α) (s : BodyState) (a : α) (x : List Item) (s' : BodyState) :
    Prop extends AddsOpen action s a x s' where
  piece : ∃ base c spots d, Piece base c spots d ∧ x = spots.map Spot.item

theorem Reaches.addsOpen {action : Lower α} {s s' : BodyState} {a : α} {lines : List Item}
    {label next : Nat} (h : Reaches action s a s' lines label next) (ho : s'.StandsOpen) :
    AddsOpen action s a lines s' :=
  ⟨⟨h.exec, h.writes.builder.listing⟩, ho⟩

end Lower

open Lower BodyState Behavior

/-- The code of an expression is added to what was written before. -/
theorem BodyState.Emitted.addsPiece {α : Type} {action : Lower α} {s s' : BodyState} {a : α}
    {x : List Spot} {avail avail' : Set Nat} (h : s.Emitted avail s' x avail')
    (hexec : SsaLowering.exec action s = (.ok a, s')) :
    AddsPiece action s a (x.map Spot.item) s' :=
  ⟨⟨⟨hexec, h.writes.builder.listing⟩, h.isOpen⟩, _, _, x, _, h.piece, rfl⟩

/-- What an action does between two states: the lines that it adds, and the marks between
them. -/
abbrev Charting := BodyState → Chart → BodyState → Prop

namespace Charting

/-- Nothing is done. -/
inductive Nothing : Charting
  | intro (s : BodyState) : Nothing s [] s

/-- An action of the source is marked. -/
inductive Mark (mark : SourceAction) : Charting
  | intro (s : BodyState) : Mark mark s [.done mark] s

/-- The code of an expression comes before something that depends on its value. -/
inductive Bind {α : Type} (action : Lower α) (rest : α → Charting) : Charting
  | intro {s s₁ s' : BodyState} {a : α} {x : List Item} {y : Chart} :
    AddsPiece action s a x s₁ → rest a s₁ y s' → Bind action rest s (Chart.ofItems x ++ y) s'

/-- An expression is lowered, and its evaluation is marked. -/
def Evaluation {α : Type} (action : Lower α) (mark : SourceAction) : Charting :=
  Bind action fun _ => Mark mark

/-- The mark for the first value of a variable, if it has one. -/
def initialMark (decl : VariableDecl Term) : Chart :=
  match decl.initializer with
  | some value => [.done (.initial value)]
  | none => []

/-- The first value of a variable is marked, and the variable is bound. -/
inductive Binds (decl : VariableDecl Term) (v : SourceType × MachineType × Option Value) :
    Charting
  | intro {s s' : BodyState} {x : List Item} :
    AddsOpen (bindVariable decl v.1 v.2.1 v.2.2) s () x s' →
    (∀ item ∈ x, ∃ i, item = .instr i ∧ i.isTerminator = false) →
    Binds decl v s (initialMark decl ++ Chart.ofItems x) s'

/-- A variable is declared. -/
def Variable (env : Environment) (decl : VariableDecl Term) : Charting :=
  Bind (variableValue env decl) (Binds decl)

/-- The function is left behind some marks. -/
inductive Leaves (marks : Chart) (result : Option (MachineType × Value)) : Charting
  | intro {s s' : BodyState} : Adds (build (Build.ret result)) s () [.instr (.ret result)] s' →
    Leaves marks result s (marks ++ [.line (.instr (.ret result))]) s'

/-- The function is left, with a value that is lowered and marked before. -/
def Return (env : Environment) (context : FunctionContext) : Option Term → Charting
  | none => Leaves [] none
  | some e => Bind (returnedValue env context e) fun v =>
    Leaves [.done (.returned e)] (some (context.returnType, v))

/-- The code goes on to another block, and a new block is opened. -/
structure Proceeds (target label : Nat) (hint : String) (s : BodyState) (z : List Item)
    (s' : BodyState) : Prop
    extends AddsOpen (proceedTo target label hint) s () z s' where
  lines : z = closingLines s target ++ [.label label]

theorem proceeds_of_reaches {target label next : Nat} {hint : String} {s s' : BodyState}
    (h : Reaches (proceedTo target label hint) s () s' (closingLines s target ++ [.label label])
      label next) (ho : s'.StandsOpen) :
    Proceeds target label hint s (closingLines s target ++ [.label label]) s' :=
  ⟨h.addsOpen ho, rfl⟩

/-- A condition is marked and decides between two sides. -/
inductive Decide (c : Term) (first second : Charting) (v : Value) : Charting
  | intro {s s₁ s₂ s₃ s₄ s' : BodyState} {labels : ChoiceLabels} {label : Nat}
    {z z' : List Item} {x y : Chart} :
    AddsOpen (openBranch v) s labels [.instr (.branch v label labels.other), .label label] s₁ →
    first s₁ x s₂ → Proceeds labels.merge labels.other "else" s₂ z s₃ →
    second s₃ y s₄ → Proceeds labels.merge labels.merge "ifcont" s₄ z' s' →
    Decide c first second v s (.tested c :: .line (.instr (.branch v label labels.other)) ::
      .line (.label label) :: (x ++ (Chart.ofItems z ++ (y ++ Chart.ofItems z')))) s'

/-- A choice between two sides. -/
def Branch (test : Term → Lower Value) (c : Term) (first second : Charting) : Charting :=
  Bind (test c) (Decide c first second)

/-- The body of a loop is entered whatever comes. -/
inductive Always (labels : LoopLabels) (hint : String) : Charting
  | intro {s s' : BodyState} : AddsOpen (jumpTo labels.body labels.body hint) s ()
      [.instr (.jump labels.body), .label labels.body] s' →
    Always labels hint s [.line (.instr (.jump labels.body)), .line (.label labels.body)] s'

/-- A condition is marked and decides whether the body of a loop is entered. -/
inductive Decides (labels : LoopLabels) (hint : String) (c : Term) (v : Value) : Charting
  | intro {s s' : BodyState} :
    AddsOpen (branchTo v labels.body labels.exit labels.body hint) s ()
      [.instr (.branch v labels.body labels.exit), .label labels.body] s' →
    Decides labels hint c v s [.tested c,
      .line (.instr (.branch v labels.body labels.exit)), .line (.label labels.body)] s'

/-- The head of a loop. -/
def Enter (test : Term → Lower Value) (labels : LoopLabels) (hint : String) :
    Option Term → Charting
  | none => Always labels hint
  | some c => Bind (test c) (Decides labels hint c)

/-- A loop without an update. -/
inductive While (test : Term → Lower Value) (c : Term) (body : Charting) : Charting
  | intro {s s₁ s₂ s₃ s' : BodyState} {labels : LoopLabels} {x y : Chart} {z : List Item} :
    AddsOpen openWhile s labels [.instr (.jump labels.condition), .label labels.condition] s₁ →
    Enter test labels "while.body" (some c) s₁ x s₂ → body s₂ y s₃ →
    Proceeds labels.condition labels.exit "while.end" s₃ z s' →
    While test c body s (.line (.instr (.jump labels.condition)) ::
      .line (.label labels.condition) :: (x ++ (y ++ Chart.ofItems z))) s'

/-- A loop with a part that runs once before it, and an update. -/
inductive For (test : Term → Lower Value) (init : Charting) (condition : Option Term)
    (update body : Charting) : Charting
  | intro {s s₀ s₁ s₂ s₃ s₄ s₅ s' : BodyState} {labels : LoopLabels} {x₀ x y u : Chart}
    {z : List Item} :
    init s x₀ s₀ → s₀.StandsOpen →
    AddsOpen openFor s₀ labels [.instr (.jump labels.condition), .label labels.condition] s₁ →
    Enter test labels "for.body" condition s₁ x s₂ → body s₂ y s₃ →
    Proceeds labels.update labels.update "for.inc" s₃ z s₄ → update s₄ u s₅ → s₅.StandsOpen →
    AddsOpen (jumpTo labels.condition labels.exit "for.end") s₅ ()
      [.instr (.jump labels.condition), .label labels.exit] s' →
    For test init condition update body s (x₀ ++ (.line (.instr (.jump labels.condition)) ::
      .line (.label labels.condition) :: (x ++ (y ++ (Chart.ofItems z ++ (u ++
        [.line (.instr (.jump labels.condition)), .line (.label labels.exit)])))))) s'

/-- One part comes after the other, behind a new block if the current one was terminated. -/
inductive Then (first second : Charting) : Charting
  | intro {s s₁ s₂ s' : BodyState} {z : List Item} {x y : Chart} :
    AddsOpen openIfTerminated s () z s₁ → (s.StandsOpen → z = []) → first s₁ x s₂ →
    second s₂ y s' → Then first second s (Chart.ofItems z ++ (x ++ y)) s'

end Charting

open Charting

mutual

/-- How a statement is charted. -/
def Statement.charts (env : Environment) (context : FunctionContext) : Statement → Charting
  | .block _ body => Statement.chartsOf env context body
  | .expression _ value => Evaluation (lowerEffect env value) (.effect value)
  | .variable _ decl => Variable env decl
  | .branch _ condition thenBranch elseBranch =>
    Branch (lowerCondition env) condition (thenBranch.charts env context)
      (match elseBranch with
        | some statement => statement.charts env context
        | none => Nothing)
  | .whileLoop _ condition body =>
    While (lowerCondition env) condition (body.charts env context)
  | .forLoop _ init condition update body =>
    For (lowerCondition env)
      (match init with
        | some statement => statement.charts env context
        | none => Nothing)
      condition
      (match update with
        | some value => Evaluation (lowerEffect env value) (.update value)
        | none => Nothing)
      (body.charts env context)
  | .ret _ value => Return env context value
termination_by structural statement => statement

/-- How the statements of a block are charted. -/
def Statement.chartsOf (env : Environment) (context : FunctionContext) :
    List Statement → Charting
  | [] => Nothing
  | statement :: rest =>
    Then (statement.charts env context) (Statement.chartsOf env context rest)
termination_by structural body => body

end

namespace Charting

/-- Charts that begin in an open block run a behavior wherever they stand, and end in an open
block if the behavior can end. -/
structure Runs (P : Charting) (B : Behavior) : Prop where
  ends : ∀ {s x s'}, P s x s' → s.StandsOpen → ¬ s'.StandsOpen → B.NeverEnds
  realises : ∀ {s x s'}, P s x s' → s.StandsOpen → ∀ {w : Chart} (pre : Chart) {post : Chart},
    w.labels.Nodup → w = pre ++ (x ++ post) → Chart.Realises w (x ++ post) B post

end Charting

namespace Chart

variable {w pre post p q r : Chart} {B C : Behavior}

/-- The lines that an expression adds are passed without an action. -/
theorem Realises.of_addsPiece {α : Type} {action : Lower α} {s s' : BodyState} {a : α}
    {x : List Item} (h : AddsPiece action s a x s') (hw : w.labels.Nodup)
    (hW : w = pre ++ (ofItems x ++ post)) : Realises w (ofItems x ++ post) Skip post := by
  obtain ⟨base, c, spots, d, hpiece, rfl⟩ := h.piece
  exact .piece hpiece pre hw hW

/-- What ends in front of a jump goes on at its target; what never ends goes nowhere. -/
theorem Realises.proceed {target label : Nat} {hint : String} {s s' : BodyState} {z : List Item}
    (h : Proceeds target label hint s z s') (hB : Realises w p B (ofItems z ++ q))
    (hends : ¬ s.StandsOpen → B.NeverEnds) (htarget : w.behind? target = some r) :
    Realises w p B r := by
  by_cases ho : s.StandsOpen
  · rw [h.lines, closingLines, if_neg (by simpa [StandsOpen] using ho)] at hB
    exact hB.append_skip (.of_leads ⟨target, _, rfl, htarget⟩)
  · exact hB.of_neverEnds (hends ho) r

/-- A block that is opened by going on to it is found behind its label. -/
theorem behind?_of_proceeds (pre : Chart) {target label : Nat} {hint : String}
    {s s' : BodyState} {z : List Item} (h : Proceeds target label hint s z s') (hw : w.labels.Nodup)
    (hW : w = pre ++ (ofItems z ++ post)) : w.behind? label = some post := by
  rw [h.lines] at hW
  exact behind?_eq (p := pre ++ ofItems (closingLines s target)) hw (by simpa using hW)

end Chart

namespace Charting

open Chart

variable {test : Term → Lower Value} {P Q R : Charting} {B C D : Behavior}

theorem runs_nothing : Nothing.Runs Skip where
  ends h ho hc := by
    cases h
    exact absurd ho hc
  realises h _ _ _ _ _ _ := by
    cases h
    exact .skip _ _

theorem runs_mark (mark : SourceAction) : (Mark mark).Runs (Act mark) where
  ends h ho hc := by
    cases h
    exact absurd ho hc
  realises h _ _ _ _ _ _ := by
    cases h
    exact .act _ _ mark

/-- The code of an expression in front changes nothing. -/
theorem runs_bind {α : Type} {action : Lower α} {rest : α → Charting}
    (h : ∀ a, (rest a).Runs B) : (Bind action rest).Runs B where
  ends hbind _ hc := by
    cases hbind with
    | intro hadds hrest => exact (h _).ends hrest hadds.standsOpen hc
  realises hbind _ _ pre post hw hW := by
    cases hbind with
    | @intro _ s₁ _ a x y hadds hrest =>
      rw [List.append_assoc] at hW ⊢
      exact (Realises.of_addsPiece hadds hw hW).skip_append
        ((h a).realises hrest hadds.standsOpen (pre ++ ofItems x) hw (by simpa using hW))

theorem runs_evaluation {α : Type} (action : Lower α) (mark : SourceAction) :
    (Evaluation action mark).Runs (Act mark) :=
  runs_bind fun _ => runs_mark mark

theorem runs_variable (env : Environment) (decl : VariableDecl Term) :
    (Variable env decl).Runs (Behavior.optional .initial decl.initializer) := by
  refine runs_bind fun v => ⟨fun h _ hc => ?_, fun h _ w pre post hw hW => ?_⟩
  · cases h with
    | intro hadds => exact absurd hadds.standsOpen hc
  · cases h with
    | @intro _ _ x _ hx =>
      rw [List.append_assoc]
      have hmark : Realises w (initialMark decl ++ (ofItems x ++ post))
          (Behavior.optional .initial decl.initializer) (ofItems x ++ post) := by
        rw [initialMark]
        cases decl.initializer with
        | none => exact .skip _ _
        | some value => exact .act _ _ _
      exact hmark.append_skip (.straight hx)

theorem runs_return (env : Environment) (context : FunctionContext)
    (location : Option Location) : (value : Option Term) →
    (Return env context value).Runs (Statement.ret location value).runs
  | none => by
    refine ⟨fun _ _ _ => neverEnds_leave, fun h _ w pre post hw hW => ?_⟩
    cases h
    exact .ret _ _ _ none
  | some e => by
    refine runs_bind fun v =>
      ⟨fun _ _ _ => neverEnds_leave.seq_right, fun h _ w pre post hw hW => ?_⟩
    cases h
    exact (Realises.act _ _ _).seq (.ret _ _ _ _)

theorem runs_branch (hP : P.Runs B) (hQ : Q.Runs C) (c : Term) :
    (Branch test c P Q).Runs (Choice c B C) := by
  refine runs_bind fun v => ⟨fun h _ hc => ?_, fun h _ w pre post hw hW => ?_⟩
  · cases h with
    | intro _ _ _ _ hmerge => exact absurd hmerge.standsOpen hc
  · cases h with
    | @intro _ s₁ s₂ s₃ s₄ _ labels label z z' x y hopen hfirst hother hsecond hmerge =>
      simp only [List.append_assoc, List.cons_append] at hW ⊢
      let branch : Entry := .line (.instr (.branch v label labels.other))
      let head : Entry := .line (.label label)
      -- The places behind the three labels.
      have hthen : w.behind? label = some (x ++ (ofItems z ++ (y ++ (ofItems z' ++ post)))) :=
        behind?_eq (p := pre ++ [.tested c, branch]) hw (by simpa using hW)
      have helse : w.behind? labels.other = some (y ++ (ofItems z' ++ post)) :=
        behind?_of_proceeds (pre ++ (.tested c :: branch :: head :: x)) hother hw
          (by simpa using hW)
      have hjoin : w.behind? labels.merge = some post :=
        behind?_of_proceeds (pre ++ (.tested c :: branch :: head :: (x ++ (ofItems z ++ y))))
          hmerge hw (by simpa using hW)
      have hB : Realises w (x ++ (ofItems z ++ (y ++ (ofItems z' ++ post)))) B post :=
        .proceed hother (hP.realises hfirst hopen.standsOpen
          (pre ++ [.tested c, branch, head]) hw (by simpa using hW))
          (hP.ends hfirst hopen.standsOpen) hjoin
      have hC : Realises w (y ++ (ofItems z' ++ post)) C post :=
        .proceed hmerge (hQ.realises hsecond hother.standsOpen
          (pre ++ (.tested c :: branch :: head :: (x ++ ofItems z))) hw (by simpa using hW))
          (hQ.ends hsecond hother.standsOpen) hjoin
      exact .choice ⟨v, label, labels.other, _, rfl, hthen, helse⟩ hB hC

/-- The head of a loop leads into its body and out of the loop. -/
theorem enters_of_enter {labels : LoopLabels} {hint : String} {condition : Option Term}
    {s s' : BodyState} {x : Chart} (h : Enter test labels hint condition s x s')
    {w : Chart} (pre : Chart) {body out : Chart} (hw : w.labels.Nodup) (hW : w = pre ++ (x ++ body))
    (hout : w.behind? labels.exit = some out) :
    Enters w (x ++ body) condition body out ∧ s'.StandsOpen := by
  cases condition with
  | none =>
    cases h with
    | intro hadds =>
      refine ⟨⟨labels.body, _, rfl, ?_⟩, hadds.standsOpen⟩
      exact behind?_eq (p := pre ++ [.line (.instr (.jump labels.body))]) hw (by simpa using hW)
  | some c =>
    cases h with
    | @intro _ s₁ _ v y _ htest hdecides =>
      cases hdecides with
      | intro hadds =>
        rw [List.append_assoc] at hW ⊢
        refine ⟨⟨_, .of_addsPiece htest hw hW, v, labels.body, labels.exit, _, rfl, ?_, hout⟩,
          hadds.standsOpen⟩
        exact behind?_eq (p := pre ++ (ofItems y ++ [.tested c,
          .line (.instr (.branch v labels.body labels.exit))])) hw (by simpa using hW)

theorem runs_while (hP : P.Runs B) (c : Term) :
    (While test c P).Runs (Loop (some c) B) where
  ends h _ hc := by
    cases h with
    | intro _ _ _ hexit => exact absurd hexit.standsOpen hc
  realises h _ w pre post hw hW := by
    cases h with
    | @intro _ s₁ s₂ s₃ _ labels x y z hopen henter hbody hexit =>
      simp only [List.append_assoc, List.cons_append] at hW ⊢
      let jump : Entry := .line (.instr (.jump labels.condition))
      let head : Entry := .line (.label labels.condition)
      have hhead : w.behind? labels.condition = some (x ++ (y ++ (ofItems z ++ post))) :=
        behind?_eq (p := pre ++ [jump]) hw (by simpa using hW)
      have hout : w.behind? labels.exit = some post :=
        behind?_of_proceeds (pre ++ (jump :: head :: (x ++ y))) hexit hw (by simpa using hW)
      obtain ⟨henters, hopen'⟩ := enters_of_enter henter (pre ++ [jump, head]) hw
        (by simpa using hW) hout
      have hround : Realises w (y ++ (ofItems z ++ post)) B (ofItems z ++ post) :=
        hP.realises hbody hopen' (pre ++ (jump :: head :: x)) hw (by simpa using hW)
      refine (Realises.of_leads ⟨labels.condition, _, rfl, hhead⟩).skip_append
        (.loop henters hround fun t ht => ?_)
      by_cases ho : s₃.StandsOpen
      · have hz : z = [.instr (.jump labels.condition), .label labels.exit] := by
          rw [hexit.lines, closingLines, if_neg (by simpa [StandsOpen] using ho)]
          rfl
        exact ⟨labels.condition, _, by rw [hz]; rfl, hhead⟩
      · exact absurd ht (hP.ends hbody hopen' ho t)

theorem runs_for (hR : R.Runs D) (hP : P.Runs B) (hQ : Q.Runs C) (condition : Option Term) :
    (For test R condition Q P).Runs (Seq D (Loop condition (Seq B C))) where
  ends h _ hc := by
    cases h with
    | intro _ _ _ _ _ _ _ _ hexit => exact absurd hexit.standsOpen hc
  realises h ho w pre post hw hW := by
    cases h with
    | @intro _ s₀ s₁ s₂ s₃ s₄ s₅ _ labels x₀ x y u z hinit ho₀ hopen henter hbody hnext hupdate ho₅
        hexit =>
      simp only [List.append_assoc, List.cons_append, List.nil_append] at hW ⊢
      let jump : Entry := .line (.instr (.jump labels.condition))
      let head : Entry := .line (.label labels.condition)
      let back : Chart := jump :: .line (.label labels.exit) :: post
      have hhead : w.behind? labels.condition = some (x ++ (y ++ (ofItems z ++ (u ++ back)))) :=
        behind?_eq (p := pre ++ (x₀ ++ [jump])) hw (by simpa [back] using hW)
      have hnext' : w.behind? labels.update = some (u ++ back) :=
        behind?_of_proceeds (pre ++ (x₀ ++ (jump :: head :: (x ++ y)))) hnext hw
          (by simpa [back] using hW)
      have hout : w.behind? labels.exit = some post :=
        behind?_eq
          (p := pre ++ (x₀ ++ (jump :: head :: (x ++ (y ++ (ofItems z ++ (u ++ [jump])))))))
          hw (by simpa using hW)
      obtain ⟨henters, hopen'⟩ := enters_of_enter henter (pre ++ (x₀ ++ [jump, head])) hw
        (by simpa [back] using hW) hout
      have hB : Realises w (y ++ (ofItems z ++ (u ++ back))) B (u ++ back) :=
        .proceed hnext (hP.realises hbody hopen' (pre ++ (x₀ ++ (jump :: head :: x))) hw
          (by simpa [back] using hW)) (hP.ends hbody hopen') hnext'
      have hC : Realises w (u ++ back) C back :=
        hQ.realises hupdate hnext.standsOpen
          (pre ++ (x₀ ++ (jump :: head :: (x ++ (y ++ ofItems z))))) hw (by simpa [back] using hW)
      have hleads : Leads w back (x ++ (y ++ (ofItems z ++ (u ++ back)))) :=
        ⟨labels.condition, _, rfl, hhead⟩
      have hloop : Realises w (x ++ (y ++ (ofItems z ++ (u ++ back))))
          (Loop condition (Seq B C)) post :=
        .loop henters (hB.seq hC) fun _ _ => hleads
      exact (hR.realises hinit ho pre hw hW).seq
        ((Realises.of_leads ⟨labels.condition, _, rfl, hhead⟩).skip_append hloop)

theorem runs_then (hP : P.Runs B) (hQ : Q.Runs C) : (Then P Q).Runs (Seq B C) where
  ends h ho hc := by
    cases h with
    | @intro _ s₁ s₂ _ z x y hopen hz hx hy =>
      by_cases ho₂ : s₂.StandsOpen
      · exact (hQ.ends hy ho₂ hc).seq_right
      · exact (hP.ends hx hopen.standsOpen ho₂).seq_left
  realises h ho w pre post hw hW := by
    cases h with
    | @intro _ s₁ s₂ _ z x y hopen hz hx hy =>
      rw [hz ho] at hW ⊢
      simp only [ofItems_nil, List.nil_append, List.append_assoc] at hW ⊢
      have hfirst : Realises w (x ++ (y ++ post)) B (y ++ post) :=
        hP.realises hx hopen.standsOpen pre hw hW
      by_cases ho₂ : s₂.StandsOpen
      · exact hfirst.seq (hQ.realises hy ho₂ (pre ++ x) hw (by simpa using hW))
      · exact hfirst.seq_of_neverEnds (hP.ends hx hopen.standsOpen ho₂) C post

theorem runs_update (env : Environment) : (update : Option Term) →
    Runs (match update with
      | some value => Evaluation (lowerEffect env value) (.update value)
      | none => Nothing) (Behavior.optional .update update)
  | none => runs_nothing
  | some value => runs_evaluation (lowerEffect env value) (.update value)

end Charting

mutual

/-- The chart of a statement runs the statement, by recursion on the statement. -/
theorem Statement.runs_charts (env : Environment) (context : FunctionContext) :
    (statement : Statement) → (statement.charts env context).Runs statement.runs
  | .block _ body => Statement.runs_chartsOf env context body
  | .expression _ value => runs_evaluation (lowerEffect env value) (.effect value)
  | .variable _ decl => runs_variable env decl
  | .branch _ condition thenBranch none =>
    runs_branch (Statement.runs_charts env context thenBranch) runs_nothing condition
  | .branch _ condition thenBranch (some elseBranch) =>
    runs_branch (Statement.runs_charts env context thenBranch)
      (Statement.runs_charts env context elseBranch) condition
  | .whileLoop _ condition body => runs_while (Statement.runs_charts env context body) condition
  | .forLoop _ none condition update body =>
    runs_for runs_nothing (Statement.runs_charts env context body) (runs_update env update)
      condition
  | .forLoop _ (some init) condition update body =>
    runs_for (Statement.runs_charts env context init) (Statement.runs_charts env context body)
      (runs_update env update) condition
  | .ret location value => runs_return env context location value

theorem Statement.runs_chartsOf (env : Environment) (context : FunctionContext) :
    (body : List Statement) → (Statement.chartsOf env context body).Runs (Statement.runsOf body)
  | [] => runs_nothing
  | statement :: rest =>
    runs_then (Statement.runs_charts env context statement)
      (Statement.runs_chartsOf env context rest)

end

end SsaLowering
