import SsaLowering.Proofs.Courses

/-!
# Where visits begin

Every expression and every statement is lowered from a state in which an instruction can be
written: the constructs open a block for each of their parts, and what stands behind a terminator
in a list of statements goes to a block of its own. Only the rest of such a list may begin without
an open block. So there is always a place for the first value of a variable, and its declaration
fails only if its initializer does.
-/

namespace SsaLowering

open Lower BodyState

/-- The state is steady, and an instruction can be written. -/
def BodyState.Writable (s : BodyState) : Prop := s.Steady ∧ s.StandsOpen

namespace BodyState.Writable

variable {α : Type} {env : Environment} {context : FunctionContext} {s s' : BodyState}
  {temps : α → Set Nat} {x : Lower α} {a : α} {result : Except LoweringError α} {l n target : Nat}
  {hint : String}

/-- The place at which the state writes. -/
theorem stands (h : s.Writable) : s.Stands (some ⟨s.builder.here, ∅, true⟩) := ⟨h.2, rfl⟩

theorem of_stands {p : Site} (hs : s.Steady) (hp : s.Stands (some p)) : s.Writable := ⟨hs, hp.1⟩

/-- The code of an expression ends in an open block. -/
theorem emits (h : s.Writable) (hx : Emits ∅ x temps) (hexec : exec x s = (result, s')) :
    s'.Writable := by
  obtain ⟨spots, avail, hspots, -⟩ := hx s ∅ h.1 h.2 (Set.empty_subset _)
  rw [hexec] at hspots
  exact ⟨hspots.writes.steady, hspots.isOpen⟩

theorem openFork (h : s.Writable) {isAnd : Bool} {lhs : Value}
    (hexec : exec (Lower.openFork isAnd lhs) s = (.ok n, s')) : s'.Writable := by
  obtain ⟨ifTrue, ifFalse, s₁, hreaches, hopen, -⟩ := Emits.exists_openFork h.1 h.2 isAnd lhs
  rw [hreaches.exec] at hexec
  cases hexec
  exact ⟨hreaches.writes.steady, hopen⟩

/-- One of the sides of a choice is open, and two labels wait for their blocks. -/
theorem openBranch (h : s.Writable) {value : Value} {labels : ChoiceLabels}
    (hexec : exec (Lower.openBranch value) s = (.ok labels, s')) :
    s'.Writable ∧ s'.Unused labels.other ∧ s'.Unused labels.merge := by
  obtain ⟨s₁, hreaches, hopen, hother, hmerge⟩ := exists_openBranch h.1 h.2 rfl value
  rw [hreaches.exec] at hexec
  cases hexec
  exact ⟨⟨hreaches.writes.steady, hopen⟩, hother, hmerge⟩

theorem openWhile (h : s.Writable) {labels : LoopLabels}
    (hexec : exec Lower.openWhile s = (.ok labels, s')) :
    s'.Writable ∧ s'.Unused labels.body := by
  obtain ⟨s₁, hreaches, hopen, hbody, -⟩ := exists_openWhile h.1 h.2 rfl
  rw [hreaches.exec] at hexec
  cases hexec
  exact ⟨⟨hreaches.writes.steady, hopen⟩, hbody⟩

/-- The part that runs once before a loop may have left; then there is no loop. -/
theorem openFor (hs : s.Steady) {labels : LoopLabels}
    (hexec : exec Lower.openFor s = (.ok labels, s')) :
    s'.Writable ∧ s'.Unused labels.body ∧ s'.Unused labels.update ∧
      labels.update ≠ labels.body := by
  by_cases ho : s.StandsOpen
  · obtain ⟨s₁, hreaches, hopen, hbody, hupdate, -⟩ := exists_openFor hs ho rfl
    rw [hreaches.exec] at hexec
    cases hexec
    exact ⟨⟨hreaches.writes.steady, hopen⟩, hbody, hupdate, by simp⟩
  · obtain ⟨l, hclosed⟩ := exec_openFor_of_closed hs ho
    rw [hclosed] at hexec
    cases hexec

/-- Behind the condition of a loop, its body is open. -/
theorem enterBody (h : s.Writable) (henv : env.Rooted) {condition : Option Term}
    {labels : LoopLabels} (hbody : s.Unused labels.body)
    (hexec : exec (Lower.enterBody (condition.map (lowerCondition env)) labels hint) s =
      (.ok (), s')) :
    s'.Writable ∧ ∀ k, k ≠ labels.body → s.Unused k → s'.Unused k := by
  have howed (l : Nat) (hl : l = labels.body ∨ l = labels.exit) :
      l ∈ [labels.body, labels.exit] := by simpa using hl
  rcases laid_enterBody .void condition (emits_lowerCondition henv) labels hint h.1 h.stands
    (howed _ (.inl rfl)) (howed _ (.inr rfl)) hbody (Nat.le_refl _) with
      ⟨e, s₁, -, -, herror, -⟩ | ⟨s₁, x, -, hok, hlaid, -, hunused, -⟩
  · rw [herror] at hexec
    cases hexec
  · rw [hok] at hexec
    cases hexec
    exact ⟨.of_stands hlaid.writes.steady hlaid.stands, hunused⟩

/-- A statement ends in a steady state, and what waits for a block keeps waiting. -/
theorem lays {action : Lower Unit} {type : MachineType} {P : Charting} (h : s.Writable)
    (hlays : Lays type action P) {done : Except LoweringError Unit}
    (hexec : exec action s = (done, s')) : s'.Steady ∧ ∀ k, s.Unused k → s'.Unused k := by
  obtain ⟨x, q, hlaid, -⟩ := hlays s _ h.1 h.stands
  rw [hexec] at hlaid
  exact ⟨hlaid.writes.steady, fun k hk => hlaid.unused hk hk.2⟩

/-- Wherever a statement ends, the block behind it is open. -/
theorem proceedTo (hs : s.Steady) (hl : s.Unused l)
    (hexec : exec (Lower.proceedTo target l hint) s = (.ok (), s')) : s'.Writable := by
  obtain ⟨s₁, hreaches, hopen⟩ := reaches_proceedTo hs target hl hint
  rw [hreaches.exec] at hexec
  cases hexec
  exact ⟨hreaches.writes.steady, hopen⟩

theorem openIfTerminated (hs : s.Steady) (hexec : exec Lower.openIfTerminated s = (.ok (), s')) :
    s'.Writable := by
  have hstands : ∃ p, s.Stands p := by
    by_cases ho : s.StandsOpen
    · exact ⟨_, stands ⟨hs, ho⟩⟩
    · exact ⟨none, ho⟩
  obtain ⟨p, hp⟩ := hstands
  obtain ⟨s₁, x, place, hopens, -, hlaid⟩ := exists_openIfTerminated .void hs hp
  rw [hopens.exec] at hexec
  cases hexec
  exact .of_stands hlaid.writes.steady hlaid.stands

end BodyState.Writable

namespace Visit

variable {env : Environment} {context : FunctionContext} {v w : Visit} {s : BodyState}

/-- An instruction can be written, unless a list of statements begins, which sees to that
itself. -/
def Ready (v : Visit) : Prop :=
  match v.node with
  | .term _ | .terms _ | .statement _ => v.state.Writable
  | .block _ => v.state.Steady

theorem Ready.writable {statement : Statement} (h : v.Ready) (hv : v.node = .statement statement) :
    v.state.Writable := by
  rwa [Ready, hv] at h

/-! ## Expressions -/

theorem ready_partsOfFork (hs : s.Writable) {isAnd : Bool} {right : Term} {lhs : Value}
    (hw : w ∈ partsOfFork isAnd right lhs s) : w.Ready := by
  unfold partsOfFork at hw
  split at hw
  · obtain rfl := List.mem_singleton.mp (List.mem_ite_nil_left.mp hw).2
    exact hs
  · obtain ⟨_, s₁, hexec, hw⟩ := mem_behind hw
    obtain rfl := List.mem_singleton.mp hw
    exact hs.openFork hexec
  · cases hw

theorem ready_partsOfBinary (henv : env.Rooted) (hs : s.Writable) {op : BinaryOp}
    {left right : Term} (hw : w ∈ partsOfBinary env op left right s) : w.Ready := by
  have hleft : Emits ∅ (lowerTerm env left) TypedValue.temps := Emits.lowerTerm henv left ∅
  rcases List.mem_cons.mp hw with rfl | hw
  · exact hs
  · split at hw
    all_goals obtain ⟨_, s₁, hexec, hw⟩ := mem_behind hw
    · exact ready_partsOfFork (hs.emits (.truthOf hleft) hexec) hw
    · exact ready_partsOfFork (hs.emits (.truthOf hleft) hexec) hw
    all_goals obtain rfl := List.mem_singleton.mp hw
    · exact hs.emits (.truthOf hleft) hexec
    · exact hs.emits (.truthOf hleft) hexec
    · exact hs.emits hleft hexec

theorem ready_partsOfTerm (henv : env.Rooted) (hs : s.Writable) :
    (term : Term) → w ∈ partsOfTerm env s term → w.Ready
  | .call _ callee args, hw => by
    change w ∈ partsOfCall env callee args s at hw
    unfold partsOfCall at hw
    split at hw
    · obtain rfl := List.mem_singleton.mp (List.mem_ite_nil_right.mp hw).2
      exact hs
    · cases hw
  | .binary _ op left right, hw => ready_partsOfBinary henv hs hw
  | .unary _ .logicalNot operand, hw | .unary _ .minus operand, hw | .assign _ _ operand, hw => by
    obtain rfl := List.mem_singleton.mp hw
    exact hs
  | .cast location target operand, hw => by
    obtain ⟨_, s₁, hexec, hw⟩ := mem_behind hw
    obtain rfl := List.mem_singleton.mp hw
    exact hs.emits (Emits.checkKnown target location) hexec

theorem ready_partsOfTerms (henv : env.Rooted) (hs : s.Writable) {terms : List Term}
    (hw : w ∈ partsOfTerms env s terms) : w.Ready := by
  cases terms with
  | nil => cases hw
  | cons first rest =>
    rcases List.mem_cons.mp hw with rfl | hw
    · exact hs
    · obtain ⟨_, s₁, hexec, hw⟩ := mem_behind hw
      obtain rfl := List.mem_singleton.mp hw
      exact hs.emits (Emits.lowerTerm henv first ∅) hexec

/-! ## Statements -/

theorem ready_partsOfVariable (hs : s.Writable) {decl : VariableDecl Term}
    (hw : w ∈ partsOfVariable env decl s) : w.Ready := by
  have hwarn : Emits ∅ (warnUnknown env decl) noTemps := by
    unfold warnUnknown
    split
    · exact .pure (by simp)
    · exact .warn _ _
  unfold partsOfVariable at hw
  split at hw
  · obtain ⟨_, s₁, hexec, hw⟩ := mem_behind hw
    obtain rfl := List.mem_singleton.mp hw
    exact hs.emits hwarn hexec
  · cases hw

theorem ready_partsOfElse (hs : s.Writable) {statement : Option Statement}
    (hw : w ∈ partsOfElse s statement) : w.Ready := by
  cases statement with
  | none => cases hw
  | some statement =>
    obtain rfl := List.mem_singleton.mp hw
    exact hs

theorem ready_partsOfOptional (hs : s.Writable) {term : Option Term}
    (hw : w ∈ partsOfOptional s term) : w.Ready := by
  cases term with
  | none => cases hw
  | some term =>
    obtain rfl := List.mem_singleton.mp hw
    exact hs

theorem ready_partsOfBranch (henv : env.Rooted) (hs : s.Writable) {condition : Term}
    {thenBranch : Statement} {elseBranch : Option Statement}
    (hw : w ∈ partsOfBranch env context condition thenBranch elseBranch s) : w.Ready := by
  rcases List.mem_cons.mp hw with rfl | hw
  · exact hs
  · obtain ⟨value, s₁, hcondition, hw⟩ := mem_behind hw
    have hs₁ := hs.emits (emits_lowerCondition henv condition) hcondition
    obtain ⟨labels, s₂, hopen, hw⟩ := mem_behind hw
    obtain ⟨hs₂, hother, -⟩ := hs₁.openBranch hopen
    rcases List.mem_cons.mp hw with rfl | hw
    · exact hs₂
    · obtain ⟨_, s₃, hthen, hw⟩ := mem_behind hw
      obtain ⟨hs₃, hwaits⟩ :=
        hs₂.lays (.recovering (Lays.statement henv context thenBranch)) hthen
      obtain ⟨_, s₄, hproceed, hw⟩ := mem_behind hw
      exact ready_partsOfElse (.proceedTo hs₃ (hwaits _ hother) hproceed) hw

theorem ready_partsOfWhile (henv : env.Rooted) (hs : s.Writable) {condition : Term}
    {body : Statement} (hw : w ∈ partsOfWhile env condition body s) : w.Ready := by
  obtain ⟨labels, s₁, hopen, hw⟩ := mem_behind hw
  obtain ⟨hs₁, hbody⟩ := hs.openWhile hopen
  rcases List.mem_cons.mp hw with rfl | hw
  · exact hs₁
  · obtain ⟨_, s₂, henter, hw⟩ := mem_behind hw
    obtain rfl := List.mem_singleton.mp hw
    have henter : exec (enterBody ((some condition).map (lowerCondition env)) labels "while.body")
        s₁ = (.ok (), s₂) := henter
    exact (hs₁.enterBody henv hbody henter).1

/-- Behind its update a loop goes back to its condition. -/
theorem ready_partsOfFor (henv : env.Rooted) (hs : s.Writable) {init : Option Statement}
    {condition update : Option Term} {body : Statement}
    (hw : w ∈ partsOfFor env context init condition update body s) : w.Ready := by
  rcases List.mem_append.mp hw with hw | hw
  · exact ready_partsOfElse hs hw
  · obtain ⟨_, s₁, hinit, hw⟩ := mem_behind hw
    have hs₁ : s₁.Steady := by
      cases init with
      | none =>
        cases hinit
        exact hs.1
      | some init =>
        have hinit : exec (lowerStatement env context init) s = (.ok (), s₁) := hinit
        exact (hs.lays (Lays.statement henv context init) hinit).1
    obtain ⟨labels, s₂, hopen, hw⟩ := mem_behind hw
    obtain ⟨hs₂, hbody, hupdate, hne⟩ := Writable.openFor hs₁ hopen
    rcases List.mem_append.mp hw with hw | hw
    · exact ready_partsOfOptional hs₂ hw
    · obtain ⟨_, s₃, henter, hw⟩ := mem_behind hw
      obtain ⟨hs₃, hkeeps⟩ := hs₂.enterBody henv hbody henter
      rcases List.mem_cons.mp hw with rfl | hw
      · exact hs₃
      · obtain ⟨_, s₄, hround, hw⟩ := mem_behind hw
        obtain ⟨hs₄, hwaits⟩ :=
          hs₃.lays (.recovering (Lays.statement henv context body)) hround
        obtain ⟨_, s₅, hproceed, hw⟩ := mem_behind hw
        have hs₅ := Writable.proceedTo hs₄ (hwaits _ (hkeeps _ hne hupdate)) hproceed
        exact ready_partsOfOptional hs₅ hw

theorem ready_partsOfStatement (henv : env.Rooted) (hs : s.Writable) :
    (statement : Statement) → w ∈ partsOfStatement env context s statement → w.Ready
  | .block _ body, hw => by
    obtain rfl := List.mem_singleton.mp hw
    exact hs.1
  | .expression _ value, hw => by
    obtain rfl := List.mem_singleton.mp hw
    exact hs
  | .variable _ _, hw => ready_partsOfVariable hs hw
  | .branch _ _ _ _, hw => ready_partsOfBranch henv hs hw
  | .whileLoop _ _ _, hw => ready_partsOfWhile henv hs hw
  | .forLoop _ _ _ _ _, hw => ready_partsOfFor henv hs hw
  | .ret _ (some value), hw => by
    rw [partsOfStatement] at hw
    obtain rfl := List.mem_singleton.mp (List.mem_ite_nil_left.mp hw).2
    exact hs

theorem ready_partsOfBlock (henv : env.Rooted) (hs : s.Steady) {body : List Statement}
    (hw : w ∈ partsOfBlock env context s body) : w.Ready := by
  cases body with
  | nil => cases hw
  | cons first rest =>
    obtain ⟨_, s₁, hopen, hw⟩ := mem_behind hw
    have hs₁ := Writable.openIfTerminated hs hopen
    rcases List.mem_cons.mp hw with rfl | hw
    · exact hs₁
    · obtain ⟨_, s₂, hfirst, hw⟩ := mem_behind hw
      obtain rfl := List.mem_singleton.mp hw
      exact (hs₁.lays (.recovering (Lays.statement henv context first)) hfirst).1

/-- If a visit is ready, then so are the visits to its parts. -/
theorem Ready.parts (h : v.Ready) (henv : env.Rooted) (hw : w ∈ v.parts env context) :
    w.Ready := by
  obtain ⟨node, s⟩ := v
  cases node with
  | term term => exact ready_partsOfTerm henv h term hw
  | terms terms => exact ready_partsOfTerms henv h hw
  | statement statement => exact ready_partsOfStatement henv h statement hw
  | block body => exact ready_partsOfBlock henv h hw

theorem Ready.contains (h : v.Ready) (henv : env.Rooted) (hw : v.Contains env context w) :
    w.Ready := by
  induction hw with
  | refl => exact h
  | tail _ hw ih => exact ih.parts henv hw

/-- Where an instruction can be written, a name with a value can be bound. -/
theorem exists_bindVariable (hs : s.Writable) (henv : env.Rooted) {decl : VariableDecl Term}
    {source : SourceType} {type : MachineType} {initial : Option Value} {s₁ : BodyState}
    (hvalue : exec (variableValue env decl) s = (.ok (source, type, initial), s₁)) :
    ∃ s₂, exec (bindVariable decl source type initial) s₁ = (.ok (), s₂) := by
  obtain ⟨x, avail, hx, htemps⟩ :=
    emits_variableValue henv decl s ∅ hs.1 hs.2 (Set.empty_subset _)
  rw [hvalue] at hx htemps
  obtain ⟨slot, s₂, hslot, hwrites, hread, hhere, -, hterm⟩ :=
    exists_entryAlloca hx.writes.steady type
  have hopen : s₂.StandsOpen := by
    rw [StandsOpen, hterm]
    exact hx.isOpen
  have hknown : optional Value.temps initial ∪ slot.temps ⊆ avail ∪ s₂.builder.base := by
    have hbase : s.builder.base ⊆ s₂.builder.base := hx.base ▸ hwrites.builder.base
    exact Set.union_subset ((htemps _ rfl).trans (Set.union_subset_union_right _ hbase))
      (hread.trans Set.subset_union_right)
  have hstands : s₂.Stands (some ⟨s₂.builder.here, avail, true⟩) := ⟨hopen, rfl⟩
  obtain ⟨s₃, -, -, hstore, -⟩ :=
    exists_storeInitial .void type hwrites.steady hstands hknown
  exact ⟨_, by rw [bindVariable, exec_bind_of_ok hslot, exec_bind_of_ok hstore]; rfl⟩

/-- A variable whose declaration fails has an initializer that fails. -/
theorem Ready.exec_variable {location : Option Location} {decl : VariableDecl Term}
    {e : LoweringError} {t : BodyState} (h : v.Ready) (henv : env.Rooted)
    (hv : v.node = .statement (.variable location decl))
    (herror : exec (lowerStatement env context (.variable location decl)) v.state =
      (.error e, t)) :
    ∃ e', exec (variableValue env decl) v.state = (.error e', t) := by
  have hlowered : lowerStatement env context (.variable location decl) =
      located location (lowerVariableDecl env decl) := by rw [lowerStatement]
  rw [hlowered, exec_located, lowerVariableDecl] at herror
  rcases hvalue : exec (variableValue env decl) v.state with ⟨e' | ⟨source, type, initial⟩, s₁⟩
  · rw [exec_bind_of_error hvalue] at herror
    cases herror
    exact ⟨e', rfl⟩
  · obtain ⟨s₂, hbind⟩ := exists_bindVariable (h.writable hv) henv hvalue
    rw [exec_bind_of_ok hvalue] at herror
    dsimp only at herror
    rw [hbind] at herror
    cases herror

end Visit

end SsaLowering
