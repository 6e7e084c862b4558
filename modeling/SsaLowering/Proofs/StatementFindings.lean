import SsaLowering.Proofs.ExpressionFindings
import SsaLowering.Proofs.StatementCode

/-!
# What the lowering of statements finds

A statement is lowered in an open block. The lowering opens such a block where it needs one, with
one exception: what comes behind the part of a loop that runs once goes on wherever that part
ends. So the lowering breaks its own assumptions if that part leaves. Whatever else it reports,
expressions apart, is a finding about the program.
-/

namespace SsaLowering

namespace Statement

mutual

/-- Whether the statement may end its block: a return, a block with such a statement at its end,
or a loop that starts with such a statement. -/
def leaves : Statement → Bool
  | .block _ body => leavesAtEnd body
  | .ret .. => true
  | .forLoop _ (some init) _ _ _ => init.leaves
  | .forLoop _ none _ _ _ => false
  | .expression .. | .variable .. | .branch .. | .whileLoop .. => false
termination_by structural statement => statement

def leavesAtEnd : List Statement → Bool
  | [] => false
  | statement :: rest => if rest.isEmpty then statement.leaves else leavesAtEnd rest
termination_by structural body => body

end

mutual

/-- No part of a loop that runs once leaves. -/
def initsStay : Statement → Bool
  | .block _ body => allInitsStay body
  | .branch _ _ thenBranch none => thenBranch.initsStay
  | .branch _ _ thenBranch (some elseBranch) => thenBranch.initsStay && elseBranch.initsStay
  | .whileLoop _ _ body => body.initsStay
  | .forLoop _ none _ _ body => body.initsStay
  | .forLoop _ (some init) _ _ body => !init.leaves && init.initsStay && body.initsStay
  | .expression .. | .variable .. | .ret .. => true
termination_by structural statement => statement

def allInitsStay : List Statement → Bool
  | [] => true
  | statement :: rest => statement.initsStay && allInitsStay rest
termination_by structural body => body

end

end Statement

/-- Findings about the program were reported, if any, up to the given faults, and labels that were
drawn before stay unused. The block at the end is open under the given condition. -/
structure BodyState.Handled {α : Type} (faults : String → Prop) (stays : Prop) (s : BodyState)
    (result : Except LoweringError α × BodyState) : Prop extends s.Finds faults result where
  steady : result.2.Steady
  unused : ∀ l, s.Unused l → result.2.Unused l
  isOpen : stays → result.2.StandsOpen

namespace Lower

open BodyState

variable {α β : Type} {faults : String → Prop} {s s' : BodyState} {stays stays' : Prop}
  {env : Environment}

namespace Silent

theorem openBranch (value : Value) : Silent (openBranch value) :=
  (build _).bind fun _ => (build _).bind fun _ => (build _).bind fun _ =>
    (branchTo _ _ _ _ _).bind fun _ => pure _

theorem openWhile : Silent openWhile :=
  (build _).bind fun _ => (build _).bind fun _ => (build _).bind fun _ =>
    (jumpTo _ _ _).bind fun _ => pure _

theorem openFor : Silent openFor :=
  (build _).bind fun _ => (build _).bind fun _ => (build _).bind fun _ => (build _).bind fun _ =>
    (jumpTo _ _ _).bind fun _ => pure _

theorem storeInitial (slot : Value) (type : MachineType) (initial : Option Value) :
    Silent (storeInitial slot type initial) := by
  cases initial with
  | none => exact pure ()
  | some value => exact build (Build.store value slot type)

theorem openIfTerminated : Silent openIfTerminated := by
  refine .bind (fun _ => rfl) fun terminated => ?_
  split
  · exact (build _).bind fun _ => pure _
  · exact pure ()

/-- A step that writes code reports nothing. -/
theorem log_eq {x : Lower α} (hx : Silent x) {a : α} (h : exec x s = (.ok a, s')) :
    s'.log = s.log := by
  have hlog := hx s
  rwa [h] at hlog

end Silent

/-- Started in an open block, the action finds faults of the program only, up to the given faults
of the lowering. -/
def Handles (faults : String → Prop) (stays : Prop) (action : Lower α) : Prop :=
  ∀ s : BodyState, s.Steady → s.StandsOpen → s.Handled faults stays (exec action s)

/-- Started in the given state, the action finds faults of the program only, up to the given faults
of the lowering. -/
structure Concludes (faults : String → Prop) (stays : Prop) (action : Lower α) (s : BodyState) :
    Prop extends s.Finds faults (exec action s) where
  isOpen : stays → (exec action s).2.StandsOpen

namespace Handles

/-- The lowering of an expression stays in an open block. -/
theorem of_judges {x : Lower α} {temps : α → Set Nat} (h : Judges faults x) (hx : Emits ∅ x temps) :
    Handles faults True x := by
  intro s hs ho
  obtain ⟨hfinds, hsteady, hopen⟩ := h s hs ho
  obtain ⟨_, _, hemitted, -⟩ := hx s ∅ hs ho (Set.empty_subset _)
  have hstands : s.Stands (some ⟨s.builder.here, ∅, true⟩) := ⟨ho, rfl⟩
  obtain ⟨q, -, hlaid⟩ := hemitted.laid .void [] hs hstands (Nat.le_refl _)
  exact ⟨hfinds, hsteady, fun l hl => hlaid.unused hl hl.2, fun _ => hopen⟩

/-- That the action lays out code is known already. -/
theorem of_lays {x : Lower Unit} {type : MachineType} {P : Charting} (hx : Lays type x P)
    (h : ∀ s : BodyState, s.Steady → s.StandsOpen → Concludes faults stays x s) :
    Handles faults stays x := by
  intro s hs ho
  obtain ⟨_, _, hlaid, -⟩ := hx s ⟨s.builder.here, ∅, true⟩ hs ⟨ho, rfl⟩
  have hx' := h s hs ho
  exact ⟨hx'.toFinds, hlaid.writes.steady, fun l hl => hlaid.unused hl hl.2, hx'.isOpen⟩

theorem pure : Handles faults True (Pure.pure () : Lower Unit) :=
  fun s hs ho => ⟨finds_ok (.refl s.log), hs, fun _ hl => hl, fun _ => ho⟩

theorem recovering {x : Lower Unit} (h : Handles faults stays x) :
    Handles faults stays (Lower.recovering x) := by
  intro s hs ho
  obtain ⟨hfinds, hsteady, hunused, hopen⟩ := h s hs ho
  rw [exec_recovering]
  rcases hexec : exec x s with ⟨e | a, s₁⟩
  all_goals rw [hexec] at hfinds hsteady hunused hopen
  · have hreport := s₁.log.judgesUpTo_report (hfinds.error e rfl)
    exact ⟨finds_ok (hfinds.log.trans hreport), ⟨hsteady.front, hsteady.scope⟩, hunused, hopen⟩
  · exact ⟨hfinds, hsteady, hunused, hopen⟩

theorem concludes {x : Lower α} (h : Handles faults True x) (hs : s.Steady) (ho : s.StandsOpen) :
    Concludes faults stays x s := ⟨(h s hs ho).toFinds, fun _ => (h s hs ho).isOpen trivial⟩

/-- An action that never fails leads to one state. -/
theorem exists_next {x : Lower Unit} (h : Handles faults stays x) (hx : Recovers x) (hs : s.Steady)
    (ho : s.StandsOpen) : ∃ s', exec x s = (.ok (), s') ∧ s.Handled faults stays
      ((.ok () : Except LoweringError Unit), s') := by
  obtain ⟨s', hexec⟩ := hx s
  have hhandled := h s hs ho
  rw [hexec] at hhandled
  exact ⟨s', hexec, hhandled⟩

/-- Behind an action, another one follows. -/
theorem chain {x : Lower α} {f : α → Lower β} (hx : Handles faults stays x)
    (hstays : stays' → stays) (hs : s.Steady) (ho : s.StandsOpen)
    (hf : ∀ a s', s'.Steady → (stays → s'.StandsOpen) → Concludes faults stays' (f a) s') :
    Concludes faults stays' (x >>= f) s := by
  have h₁ := hx s hs ho
  rcases hexec : exec x s with ⟨e | a, s₁⟩
  all_goals rw [hexec] at h₁
  · have heq := exec_bind_of_error (f := f) hexec
    exact ⟨heq ▸ finds_error h₁.log (h₁.error e rfl), fun h => heq ▸ h₁.isOpen (hstays h)⟩
  · have heq := exec_bind_of_ok (f := f) hexec
    have h₂ := hf a s₁ h₁.steady h₁.isOpen
    exact ⟨heq ▸ ⟨h₁.log.trans h₂.log, h₂.error⟩, heq ▸ h₂.isOpen⟩

/-- Behind an action that stays in an open block, another one starts there. -/
theorem bind {x : Lower α} {f : α → Lower β} (hx : Handles faults True x) (hs : s.Steady)
    (ho : s.StandsOpen) (hf : ∀ a s', s'.Steady → s'.StandsOpen → Concludes faults stays (f a) s') :
    Concludes faults stays (x >>= f) s :=
  hx.chain (fun _ => trivial) hs ho fun a s' hs' ho' => hf a s' hs' (ho' trivial)

end Handles

namespace Concludes

/-- An action that succeeds and reports nothing comes first. -/
theorem silent_bind {x : Lower α} {f : α → Lower β} {a : α} (hx : Silent x)
    (hexec : exec x s = (.ok a, s')) (hf : Concludes faults stays (f a) s') :
    Concludes faults stays (x >>= f) s := by
  have heq := exec_bind_of_ok (f := f) hexec
  have hlog := hx.log_eq hexec
  exact ⟨heq ▸ ⟨hlog ▸ hf.log, hf.error⟩, heq ▸ hf.isOpen⟩

/-- An action that never fails comes first. -/
theorem handled_bind {x : Lower Unit} {f : Unit → Lower β} (hexec : exec x s = (.ok (), s'))
    (hx : s.log.JudgesUpTo faults s'.log) (hf : Concludes faults stays (f ()) s') :
    Concludes faults stays (x >>= f) s := by
  have heq := exec_bind_of_ok (f := f) hexec
  exact ⟨heq ▸ ⟨hx.trans hf.log, hf.error⟩, heq ▸ hf.isOpen⟩

/-- An action that succeeds and reports nothing. -/
theorem of_silent {x : Lower α} {a : α} (hx : Silent x) (hexec : exec x s = (.ok a, s'))
    (ho : stays → s'.StandsOpen) : Concludes faults stays x s :=
  ⟨hexec ▸ finds_ok (.of_eq (hx.log_eq hexec)), hexec ▸ ho⟩

theorem of_error {x : Lower α} {e : LoweringError} (hexec : exec x s = (.error e, s'))
    (hlog : s.log.JudgesUpTo faults s'.log) (he : e.Within faults)
    (ho : stays → s'.StandsOpen) : Concludes faults stays x s :=
  ⟨hexec ▸ finds_error hlog he, hexec ▸ ho⟩

theorem fail {cause : Cause} (h : ∀ message, cause ≠ .internal message) (ho : s.StandsOpen) :
    Concludes faults stays (Lower.fail cause : Lower α) s :=
  ⟨finds_error (.refl s.log) fun message heq => absurd heq (h message), fun _ => ho⟩

theorem located {location : Option Location} {x : Lower α} (h : Concludes faults stays x s) :
    Concludes faults stays (Lower.located location x) s := by
  obtain ⟨hfinds, hopen⟩ := h
  rcases hexec : exec x s with ⟨e | a, s₁⟩
  all_goals rw [hexec] at hfinds hopen
  · have heq : exec (Lower.located location x) s = (.error (e.orAt location), s₁) := by
      rw [exec_located, hexec]
    have he : (e.orAt location).Within faults := by simpa using hfinds.error e rfl
    exact ⟨heq ▸ finds_error hfinds.log he, heq ▸ hopen⟩
  · have heq : exec (Lower.located location x) s = (.ok a, s₁) := by
      rw [exec_located, hexec]
    exact ⟨heq ▸ hfinds, heq ▸ hopen⟩

theorem mono {x : Lower α} (h : Concludes faults stays x s) (hstays : stays' → stays) :
    Concludes faults stays' x s :=
  ⟨h.toFinds, fun h' => h.isOpen (hstays h')⟩

end Concludes

/-! ## Choices and loops -/

/-- Both sides of a choice start in a block of their own. -/
theorem concludes_lowerBranch {condition : Lower Value} {first second : Lower Unit}
    (hc : Handles faults True condition) (hf : Handles faults stays first) (hf' : Recovers first)
    (hg : Handles faults stays' second) (hg' : Recovers second) (hs : s.Steady)
    (ho : s.StandsOpen) : Concludes faults True (lowerBranch condition first second) s := by
  refine hc.bind hs ho fun v s₁ hs₁ ho₁ => ?_
  obtain ⟨s₂, h₂, ho₂, hother, hmerge⟩ := exists_openBranch hs₁ ho₁ rfl v
  obtain ⟨s₃, hexec₃, h₃⟩ := hf.exists_next hf' h₂.writes.steady ho₂
  obtain ⟨s₄, h₄, ho₄⟩ := reaches_proceedTo h₃.steady (s₁.builder.nextLabel + 2)
    (h₃.unused _ hother) "else"
  obtain ⟨s₅, hexec₅, h₅⟩ := hg.exists_next hg' h₄.writes.steady ho₄
  have hmerge₅ := h₅.unused _ (h₄.unused (h₃.unused _ hmerge) (by simp))
  obtain ⟨s₆, h₆, ho₆⟩ := reaches_proceedTo h₅.steady (s₁.builder.nextLabel + 2) hmerge₅ "ifcont"
  exact .silent_bind (.openBranch v) h₂.exec <| .handled_bind hexec₃ h₃.log <|
    .silent_bind (.proceedTo _ _ _) h₄.exec <| .handled_bind hexec₅ h₅.log <|
    .of_silent (.proceedTo _ _ _) h₆.exec fun _ => ho₆

/-- The body of a loop is opened, unless the condition fails. -/
theorem enterBody_cases {condition : Option (Lower Value)}
    (hc : ∀ c, condition = some c → Handles faults True c) (labels : LoopLabels) (hint : String)
    (hs : s.Steady) (ho : s.StandsOpen) (hbody : s.Unused labels.body) :
    (∃ e s', exec (enterBody condition labels hint) s = (.error e, s') ∧ s'.StandsOpen ∧
      s.Finds faults ((.error e : Except LoweringError Unit), s')) ∨
    ∃ s', exec (enterBody condition labels hint) s = (.ok (), s') ∧ s'.Steady ∧ s'.StandsOpen ∧
      s.log.JudgesUpTo faults s'.log ∧ ∀ l, l ≠ labels.body → s.Unused l → s'.Unused l := by
  cases condition with
  | none =>
    obtain ⟨s', h, ho'⟩ := reaches_jumpTo hs ho labels.body hbody hint
    have hlog := (Silent.jumpTo _ _ _).log_eq h.exec
    exact .inr ⟨s', h.exec, h.writes.steady, ho', .of_eq hlog,
      fun l hne hl => h.unused hl (by simp [hne])⟩
  | some condition =>
    have h₁ := hc condition rfl s hs ho
    rcases hexec : exec condition s with ⟨e | v, s₁⟩
    all_goals rw [hexec] at h₁
    · exact .inl ⟨e, s₁, exec_bind_of_error hexec, h₁.isOpen trivial,
        finds_error h₁.log (h₁.error e rfl)⟩
    · obtain ⟨s₂, h₂, ho₂⟩ := reaches_branchTo h₁.steady (h₁.isOpen trivial) v labels.body
        labels.exit (h₁.unused _ hbody) hint
      have hlog := (Silent.branchTo _ _ _ _ _).log_eq h₂.exec
      exact .inr ⟨s₂, (exec_bind_of_ok hexec).trans h₂.exec, h₂.writes.steady, ho₂,
        hlog ▸ h₁.log, fun l hne hl => h₂.unused (h₁.unused l hl) (by simp [hne])⟩

/-- A loop goes on behind its head, unless the condition fails. -/
theorem concludes_enterBody {condition : Option (Lower Value)} {f : Unit → Lower Unit}
    (hc : ∀ c, condition = some c → Handles faults True c) (labels : LoopLabels) (hint : String)
    (hs : s.Steady) (ho : s.StandsOpen) (hbody : s.Unused labels.body)
    (hf : ∀ s', s'.Steady → s'.StandsOpen → (∀ l, l ≠ labels.body → s.Unused l → s'.Unused l) →
      Concludes faults True (f ()) s') :
    Concludes faults True (enterBody condition labels hint >>= f) s := by
  obtain ⟨e, s', hexec, ho', h⟩ | ⟨s', hexec, hs', ho', hlog, hu⟩ :=
    enterBody_cases hc labels hint hs ho hbody
  · have heq := exec_bind_of_error (f := f) hexec
    exact ⟨heq ▸ finds_error h.log (h.error e rfl), fun _ => heq ▸ ho'⟩
  · exact .handled_bind hexec hlog (hf s' hs' ho' hu)

theorem concludes_lowerWhile {condition : Lower Value} {body : Lower Unit}
    (hc : Handles faults True condition) (hb : Handles faults stays body) (hb' : Recovers body)
    (hs : s.Steady) (ho : s.StandsOpen) : Concludes faults True (lowerWhile condition body) s := by
  obtain ⟨s₁, h₁, ho₁, hbody, hexit⟩ := exists_openWhile hs ho rfl
  refine .silent_bind .openWhile h₁.exec (concludes_enterBody (fun c h => Option.some.inj h ▸ hc)
    _ "while.body" h₁.writes.steady ho₁ hbody fun s₂ hs₂ ho₂ hu₂ => ?_)
  obtain ⟨s₃, hexec₃, h₃⟩ := hb.exists_next hb' hs₂ ho₂
  obtain ⟨s₄, h₄, ho₄⟩ := reaches_proceedTo h₃.steady s.builder.nextLabel
    (h₃.unused _ (hu₂ _ (by simp) hexit)) "while.end"
  exact .handled_bind hexec₃ h₃.log <| .of_silent (.proceedTo _ _ _) h₄.exec fun _ => ho₄

/-- Behind the part of a loop that runs once, the loop starts only in an open block. -/
theorem concludes_lowerFor {init update body : Lower Unit} {condition : Option (Lower Value)}
    (hi : Handles faults stays init)
    (hloop : ¬ stays → ∀ l, faults (BuildFault.terminatedBlock l).message)
    (hc : ∀ c, condition = some c → Handles faults True c) (hu : Handles faults True update)
    (hu' : Recovers update) (hb : Handles faults stays' body) (hb' : Recovers body)
    (hs : s.Steady) (ho : s.StandsOpen) :
    Concludes faults stays (lowerFor init condition update body) s := by
  refine hi.chain id hs ho fun _ s₀ hs₀ hstays => ?_
  by_cases ho₀ : s₀.StandsOpen
  · obtain ⟨s₁, h₁, ho₁, hbody, hupdate, hexit⟩ := exists_openFor hs₀ ho₀ rfl
    refine .silent_bind .openFor h₁.exec ((concludes_enterBody hc _ "for.body" h₁.writes.steady
      ho₁ hbody fun s₂ hs₂ ho₂ hu₂ => ?_).mono fun _ => trivial)
    obtain ⟨s₃, hexec₃, h₃⟩ := hb.exists_next hb' hs₂ ho₂
    obtain ⟨s₄, h₄, ho₄⟩ := reaches_proceedTo h₃.steady (s₀.builder.nextLabel + 2)
      (h₃.unused _ (hu₂ _ (by simp) hupdate)) "for.inc"
    obtain ⟨s₅, hexec₅, h₅⟩ := hu.exists_next hu' h₄.writes.steady ho₄
    have hexit₅ := h₅.unused _ (h₄.unused (h₃.unused _ (hu₂ _ (by simp) hexit)) (by simp))
    obtain ⟨s₆, h₆, ho₆⟩ := reaches_jumpTo h₅.steady (h₅.isOpen trivial) s₀.builder.nextLabel
      hexit₅ "for.end"
    exact .handled_bind hexec₃ h₃.log <| .silent_bind (.proceedTo _ _ _) h₄.exec <|
      .handled_bind hexec₅ h₅.log <| .of_silent (.jumpTo _ _ _) h₆.exec fun _ => ho₆
  -- Only here nothing opens a block, so the jump to the condition is refused.
  · obtain ⟨l, hl⟩ := exec_openFor_of_closed hs₀ ho₀
    have hfault := hloop fun hstays' => ho₀ (hstays hstays')
    refine .of_error (exec_bind_of_error hl) (.refl s₀.log) ?_
      fun hstays' => absurd (hstays hstays') ho₀
    rintro _ ⟨rfl⟩
    exact hfault l

/-! ## Simple statements -/

section

variable (henv : env.Rooted) (halloc : env.Excuses faults)

include henv halloc

theorem judges_inferVariable (decl : VariableDecl Term) :
    Judges faults (inferVariable env decl) := by
  unfold inferVariable
  cases decl.initializer with
  | none => exact .throw (by rintro _ ⟨⟩)
  | some initializer =>
    exact (Judges.lowerTerm henv halloc initializer).bind fun v =>
      .guarded' (by rintro _ ⟨⟩) (.pure _)

theorem judges_declaredVariable (decl : VariableDecl Term) :
    Judges faults (declaredVariable env decl) := by
  unfold declaredVariable
  dsimp only
  cases decl.initializer with
  | none =>
    split
    · exact .pure _
    · exact (Judges.warn _ _).bind fun _ => .pure _
  | some initializer =>
    have hvalue : Judges faults (do
        let v ← lowerTerm env initializer
        let value ← coerce v decl.type (env.structs.resolve decl.type)
          ("initializer of '" ++ decl.name ++ "'")
        pure (decl.type, env.structs.resolve decl.type, some value)) :=
      (Judges.lowerTerm henv halloc initializer).bind fun v =>
        (Judges.coerce _ _ _ _).bind fun _ => .pure _
    split
    · exact hvalue
    · exact (Judges.warn _ _).bind fun _ => hvalue

theorem handles_variableValue (decl : VariableDecl Term) :
    Handles faults True (variableValue env decl) := by
  refine .of_judges ?_ (emits_variableValue henv decl)
  unfold variableValue
  split
  · exact judges_inferVariable henv halloc decl
  · exact judges_declaredVariable henv halloc decl

/-- A slot is added to the entry block, whatever is in the current one. -/
theorem concludes_lowerVariableDecl (decl : VariableDecl Term) (hs : s.Steady)
    (ho : s.StandsOpen) : Concludes faults True (lowerVariableDecl env decl) s := by
  have hvalue := handles_variableValue henv halloc decl
  refine hvalue.bind hs ho fun ⟨_, type, initial⟩ s₁ hs₁ ho₁ => ?_
  obtain ⟨slot, s₂, h₂, w₂, -, -, -, hterm⟩ := exists_entryAlloca hs₁ type
  obtain ⟨s₃, h₃, ho₃⟩ : ∃ s₃, exec (storeInitial slot type initial) s₂ = (.ok (), s₃) ∧
      s₃.StandsOpen := by
    cases initial with
    | none => exact ⟨s₂, rfl, hterm.trans ho₁⟩
    | some value =>
      obtain ⟨s₃, h₃, ho₃⟩ := reaches_emit w₂.steady (hterm.trans ho₁)
        (i := .store value slot type) rfl rfl
      exact ⟨s₃, h₃.exec, ho₃⟩
  exact .silent_bind (.build _) h₂ <| .silent_bind (.storeInitial slot type initial) h₃ <|
    .of_silent (fun _ => rfl) rfl fun _ => ho₃

theorem handles_lowerEffect (value : Term) : Handles faults True (lowerEffect env value) :=
  .of_judges ((Judges.lowerTerm henv halloc value).bind fun _ => .pure _)
    (emits_lowerEffect henv value)

theorem handles_lowerCondition (condition : Term) :
    Handles faults True (lowerCondition env condition) :=
  .of_judges (.truthOf (.lowerTerm henv halloc condition)) (emits_lowerCondition henv condition)

theorem handles_returnedValue (context : FunctionContext) (value : Term) :
    Handles faults True (returnedValue env context value) :=
  .of_judges ((Judges.lowerTerm henv halloc value).bind fun v => .coerce v _ _ _)
    (emits_returnedValue henv context value)

omit henv halloc in
/-- A return ends its block. -/
theorem concludes_ret (result : Option (MachineType × Value)) (hs : s.Steady)
    (ho : s.StandsOpen) : Concludes faults False (build (Build.ret result)) s := by
  obtain ⟨s', h, -⟩ := reaches_emit hs ho (i := .ret result) rfl rfl
  exact .of_silent (.build _) h.exec False.elim

theorem concludes_lowerReturn (context : FunctionContext) (value : Option Term) (hs : s.Steady)
    (ho : s.StandsOpen) : Concludes faults False (lowerReturn env context value) s := by
  cases value with
  | none =>
    rw [lowerReturn]
    split
    · exact concludes_ret none hs ho
    · exact .fail (by simp) ho
  | some value =>
    rw [lowerReturn]
    split
    · exact .fail (by simp) ho
    · exact (handles_returnedValue henv halloc context value).bind hs ho fun v s₁ hs₁ ho₁ =>
        concludes_ret _ hs₁ ho₁

/-! ## All statements -/

/-- The parts of a loop with an update. -/
theorem concludes_forParts {init body : Lower Unit} (hi : Handles faults stays init)
    (hloop : ¬ stays → ∀ l, faults (BuildFault.terminatedBlock l).message)
    (condition update : Option Term) (hb : Handles faults stays' body) (hb' : Recovers body)
    (hs : s.Steady) (ho : s.StandsOpen) :
    Concludes faults stays (lowerFor init (condition.map (lowerCondition env))
      (match update with
        | some value => recovering (lowerEffect env value)
        | none => pure ()) body) s := by
  have hc : ∀ c, condition.map (lowerCondition env) = some c → Handles faults True c := by
    intro c hc
    obtain ⟨condition, -, rfl⟩ := Option.map_eq_some_iff.mp hc
    exact handles_lowerCondition henv halloc condition
  cases update with
  | none => exact concludes_lowerFor hi hloop hc .pure recovers_pure hb hb' hs ho
  | some value =>
    exact concludes_lowerFor hi hloop hc (handles_lowerEffect henv halloc value).recovering
      (recovers_recovering _) hb hb' hs ho

end

/-- Behind a statement that is skipped when it fails, labels that were drawn before stay unused,
since it is laid out. -/
theorem handles_recovering {context : FunctionContext} {statement : Statement}
    (henv : env.Rooted) (h : ∀ s : BodyState, s.Steady → s.StandsOpen →
      Concludes faults stays (lowerStatement env context statement) s) :
    Handles faults stays (recovering (lowerStatement env context statement)) :=
  (Handles.of_lays (Lays.statement henv context statement) h).recovering

theorem exists_stands (s : BodyState) : ∃ p, s.Stands p := by
  by_cases ho : s.StandsOpen
  · exact ⟨some ⟨s.builder.here, ∅, true⟩, ho, rfl⟩
  · exact ⟨none, ho⟩

mutual

/-- The lowering of a statement finds faults of the program only, or some part of a loop that runs
once leaves and that is among the faults. By recursion on the statement. -/
theorem concludes_statement (henv : env.Rooted) (halloc : env.Excuses faults)
    (context : FunctionContext) : (statement : Statement) →
      (statement.initsStay = false → ∀ l, faults (BuildFault.terminatedBlock l).message) →
      ∀ s : BodyState, s.Steady → s.StandsOpen →
        Concludes faults (statement.leaves = false) (lowerStatement env context statement) s
  | .block _ body, h => fun s hs ho =>
    have hblock := concludes_block henv halloc context body h s hs
    (hblock.mono fun hleaves => ⟨hleaves, fun _ => ho⟩).located
  | .expression _ value, _ => fun s hs ho =>
    ((handles_lowerEffect henv halloc value).concludes hs ho).located
  | .variable _ decl, _ => fun s hs ho =>
    ((concludes_lowerVariableDecl henv halloc decl hs ho).mono fun _ => trivial).located
  | .branch _ condition thenBranch none, h => fun s hs ho =>
    have hthen := handles_recovering henv (concludes_statement henv halloc context thenBranch h)
    ((concludes_lowerBranch (handles_lowerCondition henv halloc condition) hthen
      (recovers_recovering _) .pure recovers_pure hs ho).mono fun _ => trivial).located
  | .branch _ condition thenBranch (some elseBranch), h => fun s hs ho =>
    have hthen := handles_recovering henv (concludes_statement henv halloc context thenBranch
      fun hfalse => h (by simp [Statement.initsStay, hfalse]))
    have helse := handles_recovering henv (concludes_statement henv halloc context elseBranch
      fun hfalse => h (by simp [Statement.initsStay, hfalse]))
    ((concludes_lowerBranch (handles_lowerCondition henv halloc condition) hthen
      (recovers_recovering _) helse (recovers_recovering _) hs ho).mono fun _ => trivial).located
  | .whileLoop _ condition body, h => fun s hs ho =>
    have hbody := handles_recovering henv (concludes_statement henv halloc context body h)
    ((concludes_lowerWhile (handles_lowerCondition henv halloc condition) hbody
      (recovers_recovering _) hs ho).mono fun _ => trivial).located
  | .forLoop _ none condition update body, h => fun s hs ho =>
    have hbody := handles_recovering henv (concludes_statement henv halloc context body h)
    ((concludes_forParts henv halloc .pure (absurd trivial) condition update hbody
      (recovers_recovering _) hs ho).mono fun _ => trivial).located
  | .forLoop _ (some init) condition update body, h => fun s hs ho =>
    have hinit := Handles.of_lays (Lays.statement henv context init)
      (concludes_statement henv halloc context init
        fun hfalse => h (by simp [Statement.initsStay, hfalse]))
    have hbody := handles_recovering henv (concludes_statement henv halloc context body
      fun hfalse => h (by simp [Statement.initsStay, hfalse]))
    (concludes_forParts henv halloc hinit
      (fun hleaves => h (by simp [Statement.initsStay, hleaves])) condition update hbody
      (recovers_recovering _) hs ho).located
  | .ret _ value, _ => fun s hs ho =>
    ((concludes_lowerReturn henv halloc context value hs ho).mono nofun).located

/-- A block goes on behind a statement that leaves. -/
theorem concludes_block (henv : env.Rooted) (halloc : env.Excuses faults)
    (context : FunctionContext) : (body : List Statement) →
      (Statement.allInitsStay body = false → ∀ l, faults (BuildFault.terminatedBlock l).message) →
      ∀ s : BodyState, s.Steady →
        Concludes faults (Statement.leavesAtEnd body = false ∧ (body = [] → s.StandsOpen))
          (lowerBlock env context body) s
  | [], _ => fun s _ => ⟨finds_ok (.refl s.log), fun h => h.2 rfl⟩
  | statement :: rest, h => by
    intro s hs
    obtain ⟨p, hp⟩ := exists_stands s
    obtain ⟨s₁, x, place, h₁, -, l₁⟩ := exists_openIfTerminated context.returnType hs hp
    have hfirst := handles_recovering henv (concludes_statement henv halloc context statement
      fun hfalse => h (by simp [Statement.allInitsStay, hfalse]))
    obtain ⟨s₂, hexec₂, h₂⟩ :=
      hfirst.exists_next (recovers_recovering _) l₁.writes.steady l₁.stands.1
    have h₃ := concludes_block henv halloc context rest
      (fun hfalse => h (by simp [Statement.allInitsStay, hfalse])) s₂ h₂.steady
    have heq : exec (lowerBlock env context (statement :: rest)) s =
        exec (lowerBlock env context rest) s₂ := by
      simp only [lowerBlock, exec_bind, exec_tryCatch, h₁.exec, exec_pure, if_true, hexec₂]
    have hlog : s.log.JudgesUpTo faults s₂.log := Silent.openIfTerminated.log_eq h₁.exec ▸ h₂.log
    refine ⟨heq ▸ ⟨hlog.trans h₃.log, h₃.error⟩, fun ⟨hleaves, _⟩ => heq ▸ h₃.isOpen ?_⟩
    -- Whether the block leaves is up to its last statement.
    cases rest with
    | nil => exact ⟨rfl, fun _ => h₂.isOpen hleaves⟩
    | cons => exact ⟨hleaves, nofun⟩

end

end Lower

end SsaLowering
