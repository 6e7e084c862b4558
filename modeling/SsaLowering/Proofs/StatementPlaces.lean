import SsaLowering.Proofs.ExpressionPlaces
import SsaLowering.Proofs.Readiness
import SsaLowering.Proofs.StatementFindings

/-!
# Where the findings about statements are placed

A statement places its own errors as an expression does, and a statement that is recovered from
leaves a report at its place or inside it. Only a block that cannot be opened would be reported
without a place, and where a list of statements is lowered, a block can always be opened.
-/

namespace SsaLowering

/-- The places of an expression, if there is one. -/
def Term.optionalLocations : Option Term → List (Option Location)
  | some term => term.locations
  | none => []

/-- The place of a variable, and those of its initializer. -/
def VariableDecl.locations (decl : VariableDecl Term) : List (Option Location) :=
  decl.location :: Term.optionalLocations decl.initializer

theorem VariableDecl.locations_subset_of_initializer {decl : VariableDecl Term}
    {initializer : Term} (h : decl.initializer = some initializer) :
    initializer.locations ⊆ decl.locations := by
  rw [locations, h]
  exact List.subset_cons_self _ _

mutual

/-- The places of a statement, of all statements and expressions inside it, and of the variables
that are declared there. -/
def Statement.locations : Statement → List (Option Location)
  | .block location body => location :: Statement.allLocations body
  | .expression location value => location :: value.locations
  | .variable location decl => location :: decl.locations
  | .branch location condition thenBranch elseBranch =>
    location :: (condition.locations ++ thenBranch.locations
      ++ Statement.optionalLocations elseBranch)
  | .whileLoop location condition body => location :: (condition.locations ++ body.locations)
  | .forLoop location init condition update body =>
    location :: (Statement.optionalLocations init ++ Term.optionalLocations condition
      ++ Term.optionalLocations update ++ body.locations)
  | .ret location value => location :: Term.optionalLocations value
termination_by structural statement => statement

def Statement.allLocations : List Statement → List (Option Location)
  | [] => []
  | statement :: rest => statement.locations ++ Statement.allLocations rest
termination_by structural body => body

def Statement.optionalLocations : Option Statement → List (Option Location)
  | some statement => statement.locations
  | none => []
termination_by structural statement => statement

end

/-- The places of a part of a body. -/
def Node.locations : Node → List (Option Location)
  | .term part => part.locations
  | .terms parts => Term.allLocations parts
  | .statement part => part.locations
  | .block parts => Statement.allLocations parts

open Lower BodyState

namespace Visit

variable {env : Environment} {context : FunctionContext} {v w : Visit} {s : BodyState}

theorem locations_subset_of_mem_partsOfTerm : (term : Term) → w ∈ partsOfTerm env s term →
    w.node.locations ⊆ term.locations
  | .call _ callee args, hw => by
    rw [node_of_mem_partsOfCall hw]
    exact List.subset_cons_self _ _
  | .binary _ op left right, hw => by
    intro l hl
    rcases node_of_mem_partsOfBinary hw with h | h
    all_goals
      rw [h] at hl
      simp only [Node.locations] at hl
      simp [Term.locations, hl]
  | .unary _ .logicalNot operand, hw | .unary _ .minus operand, hw => by
    rw [List.mem_singleton.mp hw]
    exact List.subset_cons_self _ _
  | .cast _ _ operand, hw => by
    obtain ⟨_, s₁, -, hw⟩ := mem_behind hw
    rw [List.mem_singleton.mp hw]
    exact List.subset_cons_self _ _
  | .assign _ target value, hw => by
    rw [List.mem_singleton.mp hw]
    exact List.subset_cons_of_subset _ (List.subset_append_right _ _)

/-- The parts of a statement stand inside it. -/
theorem locations_subset_of_mem_partsOfStatement : (statement : Statement) →
    w ∈ partsOfStatement env context s statement → w.node.locations ⊆ statement.locations
  | .block _ body, hw | .expression _ body, hw => by
    rw [List.mem_singleton.mp hw]
    exact List.subset_cons_self _ _
  | .variable _ decl, hw => by
    obtain ⟨initializer, hinitializer, h⟩ := node_of_mem_partsOfVariable hw
    rw [h]
    exact List.subset_cons_of_subset _ (decl.locations_subset_of_initializer hinitializer)
  | .branch _ condition thenBranch elseBranch, hw => by
    intro l hl
    rcases node_of_mem_partsOfBranch hw with h | h | ⟨st, rfl, h⟩
    all_goals
      rw [h] at hl
      simp only [Node.locations] at hl
      simp [Statement.locations, Statement.optionalLocations, hl]
  | .whileLoop _ condition body, hw => by
    intro l hl
    rcases node_of_mem_partsOfWhile hw with h | h
    all_goals
      rw [h] at hl
      simp only [Node.locations] at hl
      simp [Statement.locations, hl]
  | .forLoop _ init condition update body, hw => by
    intro l hl
    rcases node_of_mem_partsOfFor hw with ⟨st, rfl, h⟩ | ⟨t, rfl, h⟩ | h | ⟨t, rfl, h⟩
    all_goals
      rw [h] at hl
      simp only [Node.locations] at hl
      simp [Statement.locations, Statement.optionalLocations, Term.optionalLocations, hl]
  | .ret _ (some value), hw => by
    rw [partsOfStatement] at hw
    rw [List.mem_singleton.mp (List.mem_ite_nil_left.mp hw).2]
    exact List.subset_cons_self _ _

/-- Whatever is visited inside a part stands inside it. -/
theorem locations_subset_of_mem_parts (hw : w ∈ v.parts env context) :
    w.node.locations ⊆ v.node.locations := by
  obtain ⟨node, s⟩ := v
  cases node with
  | term term => exact locations_subset_of_mem_partsOfTerm term hw
  | terms terms =>
    cases terms with
    | nil => cases hw
    | cons first rest =>
      rcases node_of_mem_partsOfTerms hw with h | h
      all_goals rw [h]
      · exact List.subset_append_left _ _
      · exact List.subset_append_right _ _
  | statement statement => exact locations_subset_of_mem_partsOfStatement statement hw
  | block body =>
    cases body with
    | nil => cases hw
    | cons first rest =>
      rcases node_of_mem_partsOfBlock hw with h | h
      all_goals rw [h]
      · exact List.subset_append_left _ _
      · exact List.subset_append_right _ _

theorem Contains.locations_subset (h : v.Contains env context w) :
    w.node.locations ⊆ v.node.locations := by
  induction h with
  | refl => exact fun _ hl => hl
  | tail _ hw ih => exact fun _ hl => ih (locations_subset_of_mem_parts hw hl)

/-- What is found while the part is lowered is found at the given places. -/
def StaysAt (env : Environment) (context : FunctionContext) (places : List (Option Location))
    (v : Visit) : Prop :=
  match v.node with
  | .term term => Places places (lowerTerm env term) v.state
  | .terms terms => Confines places (lowerTerms env terms) v.state
  | .statement statement => Places places (lowerStatement env context statement) v.state
  | .block body => Confines places (lowerBlock env context body) v.state

theorem StaysAt.mono {places places' : List (Option Location)}
    (h : v.StaysAt env context places) (hsub : places ⊆ places') :
    v.StaysAt env context places' := by
  obtain ⟨node, s⟩ := v
  cases node with
  | term => exact Places.mono h hsub
  | terms => exact Confines.mono h hsub
  | statement => exact Places.mono h hsub
  | block => exact Confines.mono h hsub

end Visit

namespace Lower

/-- The value is dropped, so nothing can fail behind the expression. -/
theorem Places.lowerEffect {places : List (Option Location)} {env : Environment} {value : Term}
    {s : BodyState} (h : Places places (lowerTerm env value) s) :
    Places places (lowerEffect env value) s := by
  obtain ⟨hstate, herror⟩ := h
  rw [Places, Lower.lowerEffect]
  rcases hexec : exec (lowerTerm env value) s with ⟨e | v, s'⟩
  all_goals rw [hexec] at hstate herror
  · rw [exec_bind_of_error hexec]
    exact ⟨hstate, by rintro _ ⟨⟩; exact herror e rfl⟩
  · rw [exec_bind_of_ok hexec]
    exact ⟨hstate, by rintro _ ⟨⟩⟩

namespace Confines

open Visit

variable {α : Type} {places : List (Option Location)} {s s' : BodyState} {env : Environment}
  {context : FunctionContext}

/-! ## Simple statements -/

theorem openBranch (value : Value) : Confines places (Lower.openBranch value) s :=
  (build _).bind fun _ _ _ => (build _).bind fun _ _ _ => (build _).bind fun _ _ _ =>
    (branchTo _ _ _ _ _).bind fun _ _ _ => pure _

theorem openWhile : Confines places Lower.openWhile s :=
  (build _).bind fun _ _ _ => (build _).bind fun _ _ _ => (build _).bind fun _ _ _ =>
    (jumpTo _ _ _).bind fun _ _ _ => pure _

theorem openFor : Confines places Lower.openFor s :=
  (build _).bind fun _ _ _ => (build _).bind fun _ _ _ => (build _).bind fun _ _ _ =>
    (build _).bind fun _ _ _ => (jumpTo _ _ _).bind fun _ _ _ => pure _

theorem openIfTerminated : Confines places Lower.openIfTerminated s := by
  have hterminated : Confines places isTerminated s := of_ok (exec_isTerminated s) (.refl s)
  refine hterminated.bind fun terminated _ _ => ?_
  split
  · exact (build _).bind fun _ _ _ => pure _
  · exact pure ()

/-- A new variable stands where it is declared. -/
theorem declareLocal {decl : VariableDecl Term} (source : SourceType) (type : MachineType)
    (slot : Value) (h : decl.location ∈ places) :
    Confines places (Lower.declareLocal decl source type slot) s := by
  refine of_ok rfl ⟨.refl _, fun entry hentry _ => ?_⟩
  rcases List.mem_append.mp hentry with hmem | hmem
  · exact .inl (List.mem_filter.mp hmem).1
  · obtain rfl := List.mem_singleton.mp hmem
    exact .inr h

theorem storeInitial (slot : Value) (type : MachineType) (initial : Option Value) :
    Confines places (Lower.storeInitial slot type initial) s := by
  cases initial with
  | none => exact pure ()
  | some value =>
    rw [Lower.storeInitial]
    exact build _

theorem bindVariable {decl : VariableDecl Term} (source : SourceType) (type : MachineType)
    (initial : Option Value) (h : decl.location ∈ places) :
    Confines places (Lower.bindVariable decl source type initial) s := by
  exact (build _).bind fun slot _ _ => (storeInitial slot type initial).bind fun _ _ _ =>
    declareLocal source type slot h

theorem inferVariable {decl : VariableDecl Term} (h : decl.locations ⊆ places) :
    Confines places (Lower.inferVariable env decl) s := by
  have hdecl : decl.location ∈ places := h List.mem_cons_self
  unfold Lower.inferVariable
  cases hinitializer : decl.initializer with
  | none => exact throw (.inr hdecl)
  | some initializer =>
    have hsub : initializer.locations ⊆ places := fun _ hl =>
      h (VariableDecl.locations_subset_of_initializer hinitializer hl)
    refine ((places_lowerTerm env initializer s).within hsub).bind fun v _ _ => ?_
    exact guarded' (.inr hdecl) (pure _)

theorem declaredVariable {decl : VariableDecl Term} (h : decl.locations ⊆ places) :
    Confines places (Lower.declaredVariable env decl) s := by
  have hwarn (s : BodyState) :
      Confines places (Lower.warn (.unknownVariableType decl.type decl.name) decl.location) s :=
    warn _ (h List.mem_cons_self)
  unfold Lower.declaredVariable
  dsimp only
  cases hinitializer : decl.initializer with
  | none =>
    split
    · exact pure _
    · exact (hwarn _).bind fun _ _ _ => pure _
  | some initializer =>
    have hsub : initializer.locations ⊆ places := fun _ hl =>
      h (VariableDecl.locations_subset_of_initializer hinitializer hl)
    have hvalue (s : BodyState) : Confines places (do
        let v ← lowerTerm env initializer
        let value ← Lower.coerce v decl.type (env.structs.resolve decl.type)
          ("initializer of '" ++ decl.name ++ "'")
        Pure.pure (decl.type, env.structs.resolve decl.type, some value)) s :=
      ((places_lowerTerm env initializer s).within hsub).bind fun v _ _ =>
        (coerce _ _ _ _).bind fun _ _ _ => pure _
    split
    · exact hvalue s
    · exact (hwarn _).bind fun _ s₁ _ => hvalue s₁

theorem lowerVariableDecl {decl : VariableDecl Term} (h : decl.locations ⊆ places) :
    Confines places (Lower.lowerVariableDecl env decl) s := by
  have hvalue : Confines places (variableValue env decl) s := by
    unfold variableValue
    split
    · exact inferVariable h
    · exact declaredVariable h
  exact hvalue.bind fun _ _ _ => bindVariable _ _ _ (h List.mem_cons_self)

theorem lowerCondition {condition : Term} (h : Places places (lowerTerm env condition) s) :
    Confines places (Lower.lowerCondition env condition) s :=
  h.confines.bind fun v _ _ => toBool v

theorem lowerReturn {value : Option Term} (h : Term.optionalLocations value ⊆ places) :
    Confines places (Lower.lowerReturn env context value) s := by
  cases value with
  | none =>
    rw [Lower.lowerReturn]
    split
    · exact build _
    · exact fail _
  | some value =>
    rw [Lower.lowerReturn]
    split
    · exact fail _
    · have hvalue : Confines places (returnedValue env context value) s :=
        ((places_lowerTerm env value s).within h).bind fun v _ _ => coerce _ _ _ _
      exact hvalue.bind fun _ _ _ => build _

/-! ## Choices, loops and blocks -/

theorem lowerElse (elseBranch : Option Statement) :
    (∀ w ∈ partsOfElse s elseBranch, w.StaysAt env context places) →
    Confines places (match elseBranch with
      | some statement => recovering (lowerStatement env context statement)
      | none => Pure.pure ()) s := by
  intro h
  cases elseBranch with
  | none => exact pure ()
  | some statement =>
    have hstatement : Places places (lowerStatement env context statement) s :=
      h ⟨.statement statement, s⟩ List.mem_cons_self
    exact hstatement.recovering.confines

theorem lowerBranch (condition : Term) (thenBranch : Statement) (elseBranch : Option Statement) :
    (∀ w ∈ partsOfBranch env context condition thenBranch elseBranch s,
      w.StaysAt env context places) →
    Confines places (Lower.lowerBranch (Lower.lowerCondition env condition)
      (recovering (lowerStatement env context thenBranch))
      (match elseBranch with
        | some statement => recovering (lowerStatement env context statement)
        | none => Pure.pure ())) s := by
  intro h
  obtain ⟨hcondition, hrest⟩ := List.forall_mem_cons.mp h
  refine (lowerCondition hcondition).bind fun value s₁ h₁ => ?_
  refine (openBranch value).bind fun labels s₂ h₂ => ?_
  rw [behind_of_ok h₁, behind_of_ok h₂] at hrest
  obtain ⟨hthen, helse⟩ := List.forall_mem_cons.mp hrest
  refine (Places.recovering hthen).confines.bind fun _ s₃ h₃ => ?_
  refine (proceedTo _ _ _).bind fun _ s₄ h₄ => ?_
  rw [behind_of_ok h₃, behind_of_ok h₄] at helse
  exact (lowerElse elseBranch helse).bind fun _ _ _ => proceedTo _ _ _

theorem enterBody (condition : Option Term) (labels : LoopLabels) (hint : String)
    (h : ∀ w ∈ partsOfOptional s condition, w.StaysAt env context places) :
    Confines places (Lower.enterBody (condition.map (Lower.lowerCondition env)) labels hint) s := by
  cases condition with
  | none => exact jumpTo _ _ hint
  | some condition =>
    have hcondition : Places places (lowerTerm env condition) s :=
      h ⟨.term condition, s⟩ List.mem_cons_self
    exact (lowerCondition hcondition).bind fun _ _ _ => branchTo _ _ _ _ hint

theorem lowerWhile {condition : Term} {body : Statement}
    (h : ∀ w ∈ partsOfWhile env condition body s, w.StaysAt env context places) :
    Confines places (Lower.lowerWhile (Lower.lowerCondition env condition)
      (recovering (lowerStatement env context body))) s := by
  refine openWhile.bind fun labels s₁ h₁ => ?_
  rw [partsOfWhile, behind_of_ok h₁] at h
  obtain ⟨hcondition, hbody⟩ := List.forall_mem_cons.mp h
  have hhead : ∀ w ∈ partsOfOptional s₁ (some condition), w.StaysAt env context places :=
    List.forall_mem_singleton.mpr hcondition
  refine (enterBody (some condition) labels "while.body" hhead).bind fun _ s₂ h₂ => ?_
  have h₂ : exec (Lower.enterBody (some (Lower.lowerCondition env condition)) labels
    "while.body") s₁ = (.ok (), s₂) := h₂
  rw [behind_of_ok h₂] at hbody
  have hbody : Places places (lowerStatement env context body) s₂ :=
    hbody ⟨.statement body, s₂⟩ List.mem_cons_self
  exact hbody.recovering.confines.bind fun _ _ _ => proceedTo _ _ _

theorem lowerUpdate (update : Option Term) :
    (∀ w ∈ partsOfOptional s update, w.StaysAt env context places) →
    Confines places (match update with
      | some value => recovering (Lower.lowerEffect env value)
      | none => Pure.pure ()) s := by
  intro h
  cases update with
  | none => exact pure ()
  | some value =>
    have hvalue : Places places (lowerTerm env value) s :=
      h ⟨.term value, s⟩ List.mem_cons_self
    exact hvalue.lowerEffect.recovering.confines

theorem lowerFor (init : Option Statement) (condition update : Option Term) (body : Statement) :
    (∀ w ∈ partsOfFor env context init condition update body s, w.StaysAt env context places) →
    Confines places (Lower.lowerFor (Visit.lowerInit env context init)
        (condition.map (Lower.lowerCondition env))
        (match update with
          | some value => recovering (Lower.lowerEffect env value)
          | none => Pure.pure ())
        (recovering (lowerStatement env context body))) s := by
  intro h
  obtain ⟨hinit, hloop⟩ := List.forall_mem_append.mp h
  have hinit : Confines places (Visit.lowerInit env context init) s := by
    cases init with
    | none => exact pure ()
    | some init => exact Places.confines (hinit ⟨.statement init, s⟩ List.mem_cons_self)
  refine hinit.bind fun _ s₁ h₁ => openFor.bind fun labels s₂ h₂ => ?_
  rw [behind_of_ok h₁, behind_of_ok h₂] at hloop
  obtain ⟨hcondition, hround⟩ := List.forall_mem_append.mp hloop
  refine (enterBody condition labels "for.body" hcondition).bind fun _ s₃ h₃ => ?_
  rw [behind_of_ok h₃] at hround
  obtain ⟨hbody, hupdate⟩ := List.forall_mem_cons.mp hround
  refine (Places.recovering hbody).confines.bind fun _ s₄ h₄ => ?_
  refine (proceedTo _ _ _).bind fun _ s₅ h₅ => ?_
  rw [behind_of_ok h₄, behind_of_ok h₅] at hupdate
  exact (lowerUpdate update hupdate).bind fun _ _ _ => jumpTo _ _ _

/-- A block is always opened for the next statement. -/
theorem lowerBlock (hs : s.Steady) {body : List Statement}
    (h : ∀ w ∈ partsOfBlock env context s body, w.StaysAt env context places) :
    Confines places (Lower.lowerBlock env context body) s := by
  cases body with
  | nil => exact pure ()
  | cons first rest =>
    obtain ⟨p, hp⟩ := exists_stands s
    obtain ⟨s₁, x, place, hopens, -, -⟩ := exists_openIfTerminated .void hs hp
    have hopen : exec Lower.openIfTerminated s = (.ok (), s₁) := hopens.exec
    have hopened : exec (MonadExcept.tryCatch (do Lower.openIfTerminated; return true) fun e => do
        Lower.report e.toDiagnostic
        return false) s = (.ok true, s₁) := by
      rw [exec_tryCatch, exec_bind_of_ok hopen]
      rfl
    have hsilent : s.Confined places s₁ := by
      have hopened : Confines places Lower.openIfTerminated s := openIfTerminated
      rw [Confines, hopen] at hopened
      exact hopened.1
    rw [partsOfBlock, behind_of_ok hopen] at h
    obtain ⟨hfirst, hrest⟩ := List.forall_mem_cons.mp h
    have hlowered : Confines places (recovering (lowerStatement env context first) >>= fun _ =>
        Lower.lowerBlock env context rest) s₁ := by
      refine (Places.recovering hfirst).confines.bind fun _ s₂ h₂ => ?_
      rw [behind_of_ok h₂] at hrest
      exact hrest ⟨.block rest, s₂⟩ List.mem_cons_self
    rw [Lower.lowerBlock, Confines, exec_bind_of_ok hopened, if_pos rfl]
    exact ⟨hsilent.trans hlowered.1, hlowered.2⟩

end Confines

end Lower

namespace Visit

variable {env : Environment} {context : FunctionContext} {v w : Visit}

/-- What is found while a part of a body is lowered is found at the part or inside it, by induction
on its size. -/
theorem Ready.staysAt (henv : env.Rooted) {v : Visit} (h : v.Ready) :
    v.StaysAt env context v.node.locations := by
  have hparts : ∀ w ∈ v.parts env context, w.StaysAt env context v.node.locations :=
    fun w hw => ((h.parts henv hw).staysAt henv).mono (locations_subset_of_mem_parts hw)
  obtain ⟨node, s⟩ := v
  cases node with
  | term term => exact places_lowerTerm env term s
  | terms terms => exact confines_lowerTerms env terms s
  | statement statement =>
    cases statement with
    | block location body =>
      have hbody : Confines _ (lowerBlock env context body) s :=
        hparts ⟨.block body, s⟩ List.mem_cons_self
      exact hbody.located List.mem_cons_self
    | expression location value =>
      have hvalue : Places _ (lowerTerm env value) s :=
        hparts ⟨.term value, s⟩ List.mem_cons_self
      exact hvalue.lowerEffect.confines.located List.mem_cons_self
    | «variable» location decl =>
      exact (Confines.lowerVariableDecl (List.subset_cons_self _ _)).located List.mem_cons_self
    | branch location condition thenBranch elseBranch =>
      cases elseBranch with
      | none =>
        exact (Confines.lowerBranch condition thenBranch none hparts).located List.mem_cons_self
      | some elseBranch =>
        exact (Confines.lowerBranch condition thenBranch (some elseBranch) hparts).located
          List.mem_cons_self
    | whileLoop location condition body =>
      exact (Confines.lowerWhile hparts).located List.mem_cons_self
    | forLoop location init condition update body =>
      cases init with
      | none =>
        exact (Confines.lowerFor none condition update body hparts).located List.mem_cons_self
      | some init =>
        exact (Confines.lowerFor (some init) condition update body hparts).located
          List.mem_cons_self
    | ret location value =>
      exact (Confines.lowerReturn (List.subset_cons_self _ _)).located List.mem_cons_self
  | block body => exact Confines.lowerBlock h hparts
termination_by sizeOf v.node
decreasing_by exact size_lt_of_mem_parts hw

end Visit

end SsaLowering
