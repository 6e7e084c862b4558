import SsaLowering.Program.Basic

/-!
# The runs of statements

A run of a statement is seen as the sequence of the source actions that it performs. What an
expression evaluates to is left open, so every condition may turn out either way.
-/

namespace SsaLowering

/-- An evaluation in the source: of an expression statement, of the first value of a variable,
of the update of a loop, of a returned value, or of a condition together with its outcome. -/
inductive SourceAction where
  | effect (value : Term)
  | initial (value : Term)
  | update (value : Term)
  | returned (value : Term)
  | test (condition : Term) (outcome : Bool)

/-- How far a run has come: it is underway, it has returned, or it has reached the end. -/
inductive Progress where
  | underway
  | returned
  | ended
deriving DecidableEq

/-- The runs of a part of a program: the actions that were performed, and how far this is. -/
abbrev Behavior := List SourceAction → Progress → Prop

namespace Behavior

/-- Nothing is to be done. -/
inductive Skip : Behavior
  | underway : Skip [] .underway
  | ended : Skip [] .ended

/-- One action is to be performed. -/
inductive Act (action : SourceAction) : Behavior
  | underway : Act action [] .underway
  | ended : Act action [action] .ended

/-- The function is to be left. -/
inductive Leave : Behavior
  | returned : Leave [] .returned

/-- One part is to be run after the other. -/
inductive Seq (first second : Behavior) : Behavior
  | first {t : List SourceAction} {x : Progress} : first t x → x ≠ .ended → Seq first second t x
  | second {t u : List SourceAction} {x : Progress} :
    first t .ended → second u x → Seq first second (t ++ u) x

/-- The outcome of a condition decides which part is to be run. -/
inductive Choice (condition : Term) (first second : Behavior) : Behavior
  | underway : Choice condition first second [] .underway
  | holds {t : List SourceAction} {x : Progress} :
    first t x → Choice condition first second (.test condition true :: t) x
  | fails {t : List SourceAction} {x : Progress} :
    second t x → Choice condition first second (.test condition false :: t) x

/-- What is performed on the way into a round of a loop. -/
def entering : Option Term → List SourceAction
  | some condition => [.test condition true]
  | none => []

/-- Rounds are to be run as long as the condition holds, or forever if there is none. -/
inductive Loop (condition : Option Term) (round : Behavior) : Behavior
  | underway : Loop condition round [] .underway
  | fails {c : Term} : condition = some c → Loop condition round [.test c false] .ended
  | last {t : List SourceAction} {x : Progress} :
    round t x → x ≠ .ended → Loop condition round (entering condition ++ t) x
  | again {t u : List SourceAction} {x : Progress} :
    round t .ended → Loop condition round u x →
    Loop condition round (entering condition ++ (t ++ u)) x

/-- No run reaches the end. -/
def NeverEnds (B : Behavior) : Prop := ∀ t, ¬ B t .ended

/-- The evaluation of a value, if there is one. -/
def optional (action : Term → SourceAction) : Option Term → Behavior
  | some value => Act (action value)
  | none => Skip

variable {B C : Behavior} {t : List SourceAction}

theorem seq_ended : Seq B C t .ended ↔ ∃ u v, t = u ++ v ∧ B u .ended ∧ C v .ended := by
  constructor
  · rintro (⟨-, h⟩ | ⟨hu, hv⟩)
    · exact absurd rfl h
    · exact ⟨_, _, rfl, hu, hv⟩
  · rintro ⟨u, v, rfl, hu, hv⟩
    exact .second hu hv

theorem NeverEnds.seq_left (h : B.NeverEnds) : (Seq B C).NeverEnds := by
  intro t ht
  obtain ⟨u, -, -, hu, -⟩ := seq_ended.mp ht
  exact h u hu

theorem NeverEnds.seq_right (h : C.NeverEnds) : (Seq B C).NeverEnds := by
  intro t ht
  obtain ⟨-, v, -, -, hv⟩ := seq_ended.mp ht
  exact h v hv

theorem neverEnds_leave : Leave.NeverEnds := by
  intro t h
  cases h

/-- A part with nothing behind it performs what it performs alone. -/
theorem seq_skip_performs : (∃ x, Seq B Skip t x) ↔ ∃ x, B t x := by
  constructor
  · rintro ⟨x, ht⟩
    cases ht with
    | first hB _ => exact ⟨x, hB⟩
    | second hB hskip =>
      cases hskip with
      | underway => exact ⟨.ended, by simpa using hB⟩
      | ended => exact ⟨.ended, by simpa using hB⟩
  · rintro ⟨x, hB⟩
    by_cases hx : x = .ended
    · exact ⟨.ended, by simpa using Seq.second (hx ▸ hB) Skip.ended⟩
    · exact ⟨x, .first hB hx⟩

theorem seq_skip_returned : Seq B Skip t .returned ↔ B t .returned := by
  constructor
  · intro ht
    cases ht with
    | first hB _ => exact hB
    | second _ hskip => cases hskip
  · exact fun hB => .first hB (by simp)

theorem seq_skip_ended : Seq B Skip t .ended ↔ B t .ended := by
  rw [seq_ended]
  constructor
  · rintro ⟨u, v, rfl, hB, hskip⟩
    cases hskip
    simpa using hB
  · exact fun hB => ⟨t, [], by simp, hB, .ended⟩

/-- What follows a part that never ends is never run. -/
theorem seq_congr_of_neverEnds (h : B.NeverEnds) (C D : Behavior) : Seq B C = Seq B D := by
  have hsub (C D : Behavior) (t : List SourceAction) (x : Progress) (ht : Seq B C t x) :
      Seq B D t x := by
    cases ht with
    | first hB hx => exact .first hB hx
    | second hB => exact absurd hB (h _)
  funext t x
  exact propext ⟨hsub C D t x, hsub D C t x⟩

end Behavior

open Behavior

mutual

/-- The runs of a statement. -/
def Statement.runs : Statement → Behavior
  | .block _ body => Statement.runsOf body
  | .expression _ value => Act (.effect value)
  | .variable _ decl => optional .initial decl.initializer
  | .branch _ condition thenBranch elseBranch =>
    Choice condition thenBranch.runs
      (match elseBranch with
        | some statement => statement.runs
        | none => Skip)
  | .whileLoop _ condition body => Loop (some condition) body.runs
  | .forLoop _ init condition update body =>
    Seq (match init with
        | some statement => statement.runs
        | none => Skip)
      (Loop condition (Seq body.runs (optional .update update)))
  | .ret _ none => Leave
  | .ret _ (some value) => Seq (Act (.returned value)) Leave
termination_by structural statement => statement

/-- The runs of some statements, one after the other. -/
def Statement.runsOf : List Statement → Behavior
  | [] => Skip
  | statement :: rest => Seq statement.runs (Statement.runsOf rest)
termination_by structural body => body

end

mutual

/-- The statement without what follows a return in its block. -/
def Statement.pruned : Statement → Statement
  | .block location body => .block location (Statement.prunedOf body)
  | .branch location condition thenBranch elseBranch =>
    .branch location condition thenBranch.pruned
      (match elseBranch with
        | some statement => some statement.pruned
        | none => none)
  | .whileLoop location condition body => .whileLoop location condition body.pruned
  | .forLoop location init condition update body =>
    .forLoop location
      (match init with
        | some statement => some statement.pruned
        | none => none)
      condition update body.pruned
  | statement => statement
termination_by structural statement => statement

/-- The statements up to the first return among them, each without what follows a return. -/
def Statement.prunedOf : List Statement → List Statement
  | [] => []
  | .ret location value :: _ => [.ret location value]
  | statement :: rest => statement.pruned :: Statement.prunedOf rest
termination_by structural body => body

end

theorem Statement.neverEnds_ret (location : Option Location) (value : Option Term) :
    (Statement.ret location value).runs.NeverEnds := by
  cases value with
  | none => exact neverEnds_leave
  | some value => exact neverEnds_leave.seq_right

mutual

/-- What follows a return in its block is never run. -/
theorem Statement.runs_pruned : (statement : Statement) → statement.pruned.runs = statement.runs
  | .block _ body => Statement.runsOf_prunedOf body
  | .expression _ _ => rfl
  | .variable _ _ => rfl
  | .branch _ condition thenBranch none => by
    simp only [Statement.pruned, Statement.runs, Statement.runs_pruned thenBranch]
  | .branch _ condition thenBranch (some elseBranch) => by
    simp only [Statement.pruned, Statement.runs, Statement.runs_pruned thenBranch,
      Statement.runs_pruned elseBranch]
  | .whileLoop _ condition body => by
    simp only [Statement.pruned, Statement.runs, Statement.runs_pruned body]
  | .forLoop _ none condition update body => by
    simp only [Statement.pruned, Statement.runs, Statement.runs_pruned body]
  | .forLoop _ (some init) condition update body => by
    simp only [Statement.pruned, Statement.runs, Statement.runs_pruned init,
      Statement.runs_pruned body]
  | .ret _ _ => rfl

theorem Statement.runsOf_prunedOf :
    (body : List Statement) → Statement.runsOf (Statement.prunedOf body) = Statement.runsOf body
  | [] => rfl
  | statement :: rest => by
    by_cases hret : ∃ location value, statement = .ret location value
    · obtain ⟨location, value, rfl⟩ := hret
      exact seq_congr_of_neverEnds (Statement.neverEnds_ret location value) _ _
    · have h : Statement.prunedOf (statement :: rest) =
          statement.pruned :: Statement.prunedOf rest := by
        rw [Statement.prunedOf]
        simpa using hret
      rw [h, Statement.runsOf, Statement.runsOf, Statement.runs_pruned statement,
        Statement.runsOf_prunedOf rest]

end

end SsaLowering
