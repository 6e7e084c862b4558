import SsaLowering.Proofs.ExpressionCode
import SsaLowering.Proofs.Operation

/-!
# Expressions keep their values

The code of an expression does what an evaluation of the expression does, and in the end it
holds the value. The right operand of a logical operator has a block of its own, which is run
only if the left operand does not decide.
-/

namespace SsaLowering

/-- A logical operator whose left operand has an outcome. -/
def Eval.fork (isAnd outcome : Bool) (right : Eval Datum) : Eval Datum :=
  if outcome = isAnd then do return .truth (← right).isTrue else return .truth outcome

namespace Lower

open BodyState Assertion

variable {m : Surroundings} {env : Environment} {c : SourceContext} {pre : Assertion}
  {isAnd : Bool} {lhs : Value} {right : Lower TypedValue} {z : Eval Datum} {s s' : BodyState}

theorem exec_orFail_eq_ok {α : Type} {result : Option α} {cause : Cause} {a : α}
    (h : exec (orFail result cause) s = (.ok a, s')) : result = some a ∧ s' = s := by
  cases result with
  | none => simp at h
  | some a' =>
    simp only [exec_orFail_some, Prod.mk.injEq, Except.ok.injEq] at h
    exact ⟨by rw [h.1], h.2.symm⟩

variable (env) in
/-- The first block of a fork is a new one, and the branch into it is next. -/
theorem exec_openFork_eq_ok {mergeLabel : Nat}
    (h : exec (openFork isAnd lhs) s = (.ok mergeLabel, s')) :
    s.Extends env s' ∧ s'.builder.nextTemp = s.builder.nextTemp ∧
      ∃ rhsLabel, (∀ {g σ}, s'.Inside g → s.Reached σ → rhsLabel ≠ σ.label ∧
        Surroundings.Next g σ (.branch lhs (if isAnd then rhsLabel else mergeLabel)
          (if isAnd then mergeLabel else rhsLabel))) ∧
        ∀ σ : Machine, σ.label = rhsLabel → σ.index = 0 → s'.Reached σ := by
  have hdraw (t : BodyState) : exec (build Build.newLabel) t = (.ok t.builder.nextLabel,
      { t with builder := { t.builder with nextLabel := t.builder.nextLabel + 1 } }) := rfl
  rw [openFork, exec_bind_of_ok (hdraw _), exec_bind_of_ok (hdraw _), exec_bind_eq_ok] at h
  obtain ⟨⟨⟩, _, hbranch, ⟨⟩⟩ := h
  obtain ⟨hs, htemp, hfresh, hnext, hreached⟩ := exec_leave_eq_ok env hbranch
  refine ⟨(Extends.draw s (Nat.le_refl _)).trans hs, htemp, s.builder.nextLabel, fun hg hσ => ?_,
    hreached⟩
  have hdrawn := hσ.draw s.builder.nextTemp (s.builder.nextLabel + 1 + 1)
  refine ⟨?_, hnext hg hdrawn⟩
  rintro heq
  obtain ⟨f, b, hs, -⟩ := hdrawn
  have hnone := heq ▸ hfresh hs
  simp [hs.block] at hnone

/-- The parts of a fork: its first block, the right operand, and the block where its ways meet. -/
theorem exec_lowerFork_eq_ok {v : TypedValue}
    (h : exec (lowerFork isAnd lhs right) s = (.ok v, s')) :
    ∃ start mergeLabel mergeHint rhs stop result s₁ s₂ s₃, s.builder.current = some start ∧
      exec (openFork isAnd lhs) s = (.ok mergeLabel, s₁) ∧
      exec (truthOf right) s₁ = (.ok rhs, s₂) ∧ s₂.builder.current = some stop ∧
      exec (jumpTo mergeLabel mergeLabel mergeHint) s₂ = (.ok (), s₃) ∧
      exec (build (Build.phi [(.bool !isAnd, start), (rhs, stop)] .bool)) s₃ = (.ok result, s') ∧
      v = .truth result := by
  rw [lowerFork, exec_bind_eq_ok] at h
  obtain ⟨_, _, ⟨⟩, h⟩ := h
  rw [exec_bind_eq_ok] at h
  obtain ⟨start, _, hstart, h⟩ := h
  obtain ⟨hstart, rfl⟩ := exec_orFail_eq_ok hstart
  rw [exec_bind_eq_ok] at h
  obtain ⟨mergeLabel, s₁, hopen, h⟩ := h
  simp only at h
  rw [exec_bind_eq_ok] at h
  obtain ⟨rhs, s₂, hright, h⟩ := h
  rw [exec_bind_eq_ok] at h
  obtain ⟨_, _, ⟨⟩, h⟩ := h
  rw [exec_bind_eq_ok] at h
  obtain ⟨stop, _, hstop, h⟩ := h
  obtain ⟨hstop, rfl⟩ := exec_orFail_eq_ok hstop
  rw [exec_bind_eq_ok] at h
  obtain ⟨⟨⟩, s₃, hjump, h⟩ := h
  rw [exec_bind_eq_ok] at h
  obtain ⟨result, _, hphi, ⟨⟩⟩ := h
  refine ⟨start, mergeLabel, _, rhs, stop, result, s₁, _, s₃, hstart, hopen, ?_, hstop, hjump, hphi,
    rfl⟩
  rw [exec_tryCatch] at hright
  rcases hx : exec (truthOf right) s₁ with ⟨e | rhs', t⟩
  all_goals rw [hx] at hright
  · obtain ⟨_, _, _, hthrow⟩ := exec_bind_eq_ok.mp hright
    simp at hthrow
  · exact hright

/-- The block of the right operand is not the one that the fork left. -/
theorem stop_ne_start {s₁ s₂ : BodyState} {σ σ₁ : Machine} {stop : Nat} (hs : s.Reached σ)
    (h₁ : s.Extends env s₁) (hσ₁ : s₁.Reached σ₁) (hne : σ₁.label ≠ σ.label)
    (h₂ : s₁.Extends env s₂) (hstop : s₂.builder.current = some stop) : stop ≠ σ.label := by
  obtain ⟨f, b, hw, -⟩ := hs
  obtain ⟨f₁, b₁, hw₁, -⟩ := hσ₁
  obtain ⟨f₁', l₁', b₁', hw₁', hf, -⟩ := h₁.writesTo hw
  obtain ⟨rfl, rfl, rfl⟩ := hw₁.unique hw₁'
  obtain ⟨f₂, l₂, b₂, hw₂, -, hl₂⟩ := h₂.writesTo hw₁
  obtain rfl : stop = l₂ := Option.some.inj (hstop.symm.trans hw₂.current)
  cases hl₂ with
  | inl heq => exact heq ▸ hne
  | inr hnone =>
    rintro rfl
    simpa [hw.block] using hf.block?_eq_none hnone

/-- Execution that has reached a state is in the block that the state writes to. -/
theorem current_of_reached {σ : Machine} {l : Nat} (hσ : s.Reached σ)
    (h : s.builder.current = some l) : l = σ.label := by
  obtain ⟨f, b, hw, -⟩ := hσ
  exact Option.some.inj (h.symm.trans hw.current)

/-- The branch of a fork goes to the right operand unless the left one decides. -/
theorem execute?_fork {σ : Machine} {outcome : Bool} {rhsLabel mergeLabel : Nat}
    (h : m.operand? σ.temps lhs = some outcome.toInt) :
    m.execute? σ (.branch lhs (if isAnd then rhsLabel else mergeLabel)
      (if isAnd then mergeLabel else rhsLabel)) =
      some (σ.enter (if outcome = isAnd then rhsLabel else mergeLabel)) := by
  rw [Surroundings.execute?, h]
  cases outcome <;> cases isAnd <;> rfl

/-- Where ways meet, a phi takes the value of the way that was gone. -/
theorem phi_goesOn {s₃ : BodyState} {incoming : List (Value × Nat)} {result x : Value} {b : Bool}
    {g : FunctionDef} {σ σ₃ : Machine} {w : World}
    (hphi : exec (build (Build.phi incoming .bool)) s₃ = (.ok result, s')) (hs : s.Extends env s₃)
    (hg : s'.Inside g) (hsteps : m.Runs g σ σ₃) (hσ₃ : s₃.Reached σ₃)
    (hworld : σ₃.world = w) (hframe : ∀ t < s.builder.nextTemp, σ₃.temps t = σ.temps t)
    (hx : Surroundings.incoming? σ₃.previous incoming = some x)
    (hn : m.operand? σ₃.temps x = some b.toInt) :
    GoesOn m g s s' σ (represents m (.truth result)) (.ok (.truth b), w) := by
  obtain ⟨rfl, htemp, -, hwritten⟩ := exec_define_eq_ok env hphi
  obtain ⟨hnext, hreached⟩ := hwritten hg hσ₃
  have hexecute : m.execute? σ₃ (.phi s₃.builder.nextTemp incoming .bool) =
      some (σ₃.define s₃.builder.nextTemp b.toInt σ₃.world) := by
    simp [Surroundings.execute?, hx, hn]
  refine ⟨_, hsteps.tail ⟨_, hnext, hexecute⟩, hreached _ _, hworld,
    represents_truth (htemp ▸ computed_update.2), fun t ht => ?_⟩
  have hlt : t < s₃.builder.nextTemp := Nat.lt_of_lt_of_le ht hs.temps
  exact (Function.update_of_ne hlt.ne _ _).trans (hframe t ht)

/-- The code of a fork runs the right operand unless the left one decides. -/
theorem lowerFork_simulates {outcome : Bool}
    (hlhs : ∀ ρ k, pre.Holds ρ k → (denotes m lhs outcome.toInt).Holds ρ k)
    (hr : ∀ pre, Simulates m env c pre right z (represents m)) :
    Simulates m env c pre (lowerFork isAnd lhs right) (Eval.fork isAnd outcome z)
      (represents m) := by
  intro s v s' hexec
  obtain ⟨start, mergeLabel, mergeHint, rhs, stop, result, s₁, s₂, s₃, hstart, hopen, hright, hstop,
    hjump, hphi, rfl⟩ := exec_lowerFork_eq_ok hexec
  obtain ⟨hs₁, htemp₁, rhsLabel, hwritten₁, hreached₁⟩ := exec_openFork_eq_ok env hopen
  obtain ⟨hs₂, hrun⟩ := truthOf_simulates (hr pre) s₁ rhs s₂ hright
  obtain ⟨hs₃, htemp₃, -, hjumps, hreached₃⟩ := exec_leave_eq_ok env hjump
  obtain ⟨-, -, hs', -⟩ := exec_define_eq_ok env hphi
  have hall : s.Extends env s₃ := hs₁.trans (hs₂.trans hs₃)
  refine ⟨hall.trans hs', fun g σ hg hσ hc hp => ?_⟩
  have hg₃ : s₃.Inside g := hg.of_extends hs'
  have hg₂ : s₂.Inside g := hg₃.of_extends hs₃
  have hg₁ : s₁.Inside g := hg₂.of_extends hs₂
  obtain ⟨hne, hbranch⟩ := hwritten₁ hg₁ hσ
  have hlabel : start = σ.label := current_of_reached hσ hstart
  have hstep : m.Step g σ _ := ⟨_, hbranch, execute?_fork (hlhs _ _ hp).1⟩
  by_cases houtcome : outcome = isAnd
  · rw [if_pos houtcome] at hstep
    have hσ₁ := hreached₁ (σ.enter rhsLabel) rfl rfl
    have hgoes := hrun g _ hg₂ hσ₁ (agrees_of_extends hc hs₁ fun _ _ => rfl) (htemp₁ ▸ hp)
    rw [Eval.fork, if_pos houtcome, exec_bind]
    rcases hz : exec z σ.world with ⟨e | d, w⟩
    all_goals rw [show (σ.enter rhsLabel).world = σ.world from rfl, hz] at hgoes
    · cases e with
      | trap =>
        obtain ⟨σ', hsteps, hstuck⟩ := hgoes
        exact ⟨σ', .head hstep hsteps, hstuck⟩
      | wrong => exact hgoes
    · obtain ⟨σ₂, hsteps, hσ₂, hworld, hrhs, hframe⟩ := hgoes
      have hdiffer : stop ≠ start := by
        rw [hlabel]
        exact stop_ne_start hσ hs₁ hσ₁ hne hs₂ hstop
      have hjump : m.Step g σ₂ (σ₂.enter mergeLabel) := ⟨_, hjumps hg₃ hσ₂, rfl⟩
      refine phi_goesOn (x := rhs) hphi hall hg (.tail (.head hstep hsteps) hjump)
        (hreached₃ _ rfl rfl) hworld (fun t ht => hframe t (htemp₁ ▸ ht)) ?_ hrhs.1
      simp [Surroundings.incoming?, Machine.enter, ← current_of_reached hσ₂ hstop, hdiffer.symm]
  · rw [if_neg houtcome] at hstep
    rw [Eval.fork, if_neg houtcome]
    refine phi_goesOn (x := .bool !isAnd) hphi hall hg (.single hstep) (hreached₃ _ rfl rfl)
      rfl (fun _ _ => rfl) ?_ ?_
    · simp [Surroundings.incoming?, Machine.enter, hlabel]
    · rw [Bool.eq_not_of_ne houtcome]
      rfl

theorem lowerShortCircuit_simulates {left : Lower TypedValue} {y : Eval Datum}
    (hl : ∀ pre, Simulates m env c pre left y (represents m))
    (hr : ∀ pre, Simulates m env c pre right z (represents m)) :
    Simulates m env c pre (lowerShortCircuit isAnd left right)
      (do Eval.fork isAnd (← y).isTrue z) (represents m) := by
  refine .bind (truthOf_simulates (hl pre)) fun lhs a => ?_
  cases hdecided : lhs.bool? with
  | none => exact lowerFork_simulates (fun ρ k hp => hp.2) hr
  | some decided =>
    have hlhs ρ k (hp : (pre.and (denotes m lhs a.isTrue.toInt)).Holds ρ k) : decided = a.isTrue :=
      eq_of_bool? hdecided hp.2
    by_cases houtcome : decided = isAnd
    · have hright : Simulates m env c (pre.and (denotes m lhs a.isTrue.toInt))
          (do return .truth (← truthOf right)) (do return .truth (← z).isTrue) (represents m) :=
        .bind (truthOf_simulates (hr _)) fun rhs b => .pure fun ρ k hp => represents_truth hp.2
      have hlong : (decided == !isAnd) = false := by simp [houtcome]
      simp only [hlong, Bool.false_eq_true, if_false]
      by_cases ha : a.isTrue = isAnd
      · rwa [Eval.fork, if_pos ha]
      · exact hright.absurd fun ρ k hp => ha ((hlhs ρ k hp).symm.trans houtcome)
    · have hshort : decided = !isAnd := Bool.eq_not_of_ne houtcome
      simp only [hshort, BEq.rfl, if_true]
      refine .quiet fun ρ k hp => ⟨.truth a.isTrue, fun w => ?_, ?_⟩
      · rw [Eval.fork, if_neg (hlhs ρ k hp ▸ houtcome)]
        rfl
      · rw [← hshort, hlhs ρ k hp]
        exact represents_truth denotes_bool

end Lower

namespace Term

variable (m : Surroundings) (c : SourceContext) (location : Option Location) (left right : Term)

theorem eval_logicalAnd : (binary location .logicalAnd left right).eval m c =
    (do Eval.fork true (← left.eval m c).isTrue (right.eval m c)) := by
  rw [eval]
  refine congrArg (left.eval m c >>= ·) (funext fun d => ?_)
  cases hd : d.isTrue <;> simp [Eval.fork]

theorem eval_logicalOr : (binary location .logicalOr left right).eval m c =
    (do Eval.fork false (← left.eval m c).isTrue (right.eval m c)) := by
  rw [eval]
  refine congrArg (left.eval m c >>= ·) (funext fun d => ?_)
  cases hd : d.isTrue <;> simp [Eval.fork]

end Term

namespace Lower

open BodyState Assertion

variable {m : Surroundings} {env : Environment} {c : SourceContext}

theorem step_simulates {op : UnaryOp} {location : Option Location} {operand : Term}
    {pre : Assertion} (hminus : op ≠ .minus) (hnot : op ≠ .logicalNot)
    (hterm : (Term.unary location op operand).IsScalar c) :
    Simulates m env c pre (located location (lowerStep env op operand))
      ((Term.unary location op operand).eval m c) (represents m) := by
  cases operand
  case «variable» place name =>
    have hname : (c.lookup name).isSome := by
      cases op <;> first | exact hterm | contradiction
    obtain ⟨x, hx⟩ := Option.isSome_iff_exists.mp hname
    have heval : (Term.unary location op (.variable place name)).eval m c = Eval.step op x := by
      cases op <;> first | contradiction | simp only [Term.eval, hx, Eval.orHalt, pure_bind]
    rw [heval]
    exact .located (lowerStep_simulates hx)
  all_goals cases op <;> first | exact hterm.elim | contradiction

mutual

/-- The code of an expression does what its evaluation does. -/
theorem lowerTerm_simulates (hfunctions : c.functions = env.functions) :
    (term : Term) → term.IsScalar c → ∀ pre : Assertion,
      Simulates m env c pre (lowerTerm env term) (term.eval m c) (represents m)
  | .literal location (.bool b), _ => fun pre => .located (lowerBool_simulates b)
  | .literal location (.number numeral), hterm => fun pre =>
    .located (lowerNumeral_simulates hterm)
  | .literal _ (.string _), hterm => hterm.elim
  | .literal _ .null, hterm => hterm.elim
  | .variable location name, hterm => fun pre => by
    obtain ⟨x, hx⟩ := Option.isSome_iff_exists.mp hterm
    simp only [Term.eval, hx, Eval.orHalt, pure_bind]
    exact .located (lowerVariable_simulates hx)
  | .call location callee args, hterm => fun pre =>
    .located (lowerCall_simulates hfunctions hterm.1 (lowerTerms_simulates hfunctions args hterm.2))
  | .binary location op left right, hterm => fun pre => by
    have hl := lowerTerm_simulates hfunctions left hterm.1
    have hr := lowerTerm_simulates hfunctions right hterm.2
    refine .located ?_
    cases op with
    | logicalAnd =>
      rw [Term.eval_logicalAnd]
      exact lowerShortCircuit_simulates hl hr
    | logicalOr =>
      rw [Term.eval_logicalOr]
      exact lowerShortCircuit_simulates hl hr
    | eagerAnd => exact lowerEager_simulates true hl hr
    | eagerOr => exact lowerEager_simulates false hl hr
    | _ => exact lowerArithmetic_simulates hl hr
  | .unary location .minus operand, hterm => hterm.elim
  | .unary location .logicalNot operand, hterm => fun pre =>
    .located (lowerNot_simulates (lowerTerm_simulates hfunctions operand hterm))
  | .unary _ .preIncrement _, hterm => fun _ => step_simulates (by simp) (by simp) hterm
  | .unary _ .postIncrement _, hterm => fun _ => step_simulates (by simp) (by simp) hterm
  | .unary _ .preDecrement _, hterm => fun _ => step_simulates (by simp) (by simp) hterm
  | .unary _ .postDecrement _, hterm => fun _ => step_simulates (by simp) (by simp) hterm
  | .cast .., hterm => hterm.elim
  | .alloc .., hterm => hterm.elim
  | .assign location target value, hterm => fun pre => by
    cases target
    case «variable» place name =>
      obtain ⟨x, hx⟩ := Option.isSome_iff_exists.mp hterm.1
      simp only [Term.eval, hx, Eval.orHalt, pure_bind]
      exact .located (lowerAssign_simulates hx (lowerTerm_simulates hfunctions value hterm.2))
    all_goals exact hterm.elim
  | .member .., hterm => hterm.elim

theorem lowerTerms_simulates (hfunctions : c.functions = env.functions) :
    (terms : List Term) → Term.AllScalar c terms → ∀ pre : Assertion,
      Simulates m env c pre (lowerTerms env terms) (Term.evals m c terms) fun vs ds =>
        (of (vs.length = terms.length)).and (representAll m vs ds)
  | [], _ => fun pre => .pure fun _ _ _ => ⟨rfl, trivial⟩
  | term :: rest, hterms => fun pre => by
    refine .bind (lowerTerm_simulates hfunctions term hterms.1 pre) fun v d => ?_
    refine .bind (lowerTerms_simulates hfunctions rest hterms.2 _) fun vs ds => ?_
    refine .pure fun ρ k hp => ?_
    obtain ⟨⟨-, hv⟩, hlength : vs.length = rest.length, hvs⟩ := hp
    exact ⟨congrArg (· + 1) hlength, hv, hvs⟩

end

end Lower

/-- Where a binding has its value while a machine runs. -/
def Storage.home? (m : Surroundings) (ρ : Temps) : Storage → Option Home
  | .stack slot => (m.operand? ρ slot).map .cell
  | .global name => some (.cell (m.address name))
  | .direct (.temp t) => some (.fixed (ρ t))
  | .direct _ => none

namespace BodyState

variable {m : Surroundings} {env : Environment} {s : BodyState} {ρ : Temps}

/-- What an expression can refer to in a state, where the temporaries hold some numbers: the
variables in scope that hold truth values or signed integers. -/
def context (m : Surroundings) (env : Environment) (s : BodyState) (ρ : Temps) : SourceContext where
  lookup name := do
    let b ← s.binding? env name
    let home ← b.storage.home? m ρ
    if b.type.IsScalar then some ⟨b.type, b.isMutable, home⟩ else none
  functions := env.functions

/-- What can be read everywhere was drawn before. -/
theorem Steady.lt_nextTemp (hs : s.Steady) {t : Nat} (ht : t ∈ s.builder.base) :
    t < s.builder.nextTemp := by
  obtain ⟨f, done, last, hf⟩ := hs.front
  apply hf.definitions_lt
  rw [FunctionDef.definitions, List.mem_append]
  cases hf.mem_base.mp ht with
  | inl hparam => exact .inl hparam
  | inr hslot =>
    obtain ⟨b, hb, hresult⟩ := List.mem_flatMap.mp hslot
    obtain ⟨i, hi, ht⟩ := List.mem_filterMap.mp hresult
    have hi := (Block.mem_slots.mp hi).1
    exact .inr (List.mem_flatMap.mpr ⟨b, hb, List.mem_filterMap.mpr ⟨i, hi, ht⟩⟩)

theorem Steady.storage_lt (hs : s.Steady) (henv : env.Rooted) {name : String} {b : Binding}
    (hb : s.binding? env name = some b) {t : Nat} (ht : t ∈ b.storage.temps) :
    t < s.builder.nextTemp := by
  rw [binding?] at hb
  cases hfind : s.scope.find? name with
  | some b' =>
    rw [hfind] at hb
    obtain rfl := Option.some.inj hb
    exact hs.lt_nextTemp (hs.scope _ (Scope.mem_of_find? hfind) ht)
  | none =>
    rw [hfind] at hb
    simp [henv _ (mem_of_lookup hb)] at ht

/-- In a steady state all variables in scope live where their bindings say, if the parameters hold
values of their types. -/
theorem Steady.agrees (hs : s.Steady) (henv : env.Rooted)
    (hparams : ∀ {name b t}, s.binding? env name = some b → b.storage = .direct (.temp t) →
      b.type.IsScalar → b.type.Holds (ρ t)) : (s.context m env ρ).Agrees m env s ρ where
  functions := rfl
  bound {name x} hx := by
    simp only [context, Option.bind_eq_bind, Option.bind_eq_some_iff] at hx
    obtain ⟨b, hb, home, hhome, hx⟩ := hx
    by_cases hscalar : b.type.IsScalar
    · rw [if_pos hscalar] at hx
      obtain rfl := Option.some.inj hx
      refine ⟨b, hb, ⟨rfl, rfl, hscalar⟩, ?_⟩
      have htemps {t : Nat} (ht : t ∈ b.storage.temps) := hs.storage_lt henv hb ht
      cases hstorage : b.storage with
      | stack slot =>
        rw [hstorage] at hhome htemps
        obtain ⟨address, hslot, rfl⟩ := Option.map_eq_some_iff.mp hhome
        exact ⟨hslot, fun t ht => htemps ht⟩
      | global symbol =>
        rw [hstorage] at hhome
        obtain rfl := Option.some.inj hhome
        rfl
      | direct value =>
        rw [hstorage] at hhome htemps
        cases value with
        | temp t =>
          obtain rfl := Option.some.inj hhome
          exact ⟨⟨rfl, fun u hu => htemps hu⟩, hparams hb hstorage hscalar⟩
        | _ => simp [Storage.home?] at hhome
    · simp [hscalar] at hx

end BodyState

namespace Lower

variable {m : Surroundings} {env : Environment} {c : SourceContext} {s s' : BodyState}
  {σ : Machine} {g : FunctionDef} {v : TypedValue} {term : Term}

/-- The code of an expression does to the world what the evaluation of the expression does, from
the place where its lowering began to the place where it ended, and the operand that stands for
the expression has its value. -/
theorem lowerTerm_evaluates (hterm : term.IsScalar c)
    (hexec : exec (lowerTerm env term) s = (.ok v, s')) (hg : s'.Inside g) (hσ : s.Reached σ)
    (hc : c.Agrees m env s σ.temps) :
    match exec (term.eval m c) σ.world with
    | (.ok d, w) => ∃ σ', m.Runs g σ σ' ∧ s'.Reached σ' ∧ σ'.world = w ∧ v.type = d.type ∧
        d.type.Holds d.value ∧ m.operand? σ'.temps v.value = some d.value ∧
        c.Agrees m env s' σ'.temps
    | (.error .trap, w) => ∃ σ', m.Runs g σ σ' ∧ m.Stuck g σ' ∧ σ'.world = w
    | (.error .wrong, _) => False := by
  obtain ⟨hs, hrun⟩ := lowerTerm_simulates hc.functions term hterm (.of True) s v s' hexec
  have hgoes := hrun g σ hg hσ hc trivial
  rcases heval : exec (term.eval m c) σ.world with ⟨e | d, w⟩
  all_goals rw [heval] at hgoes
  · cases e <;> exact hgoes
  · obtain ⟨σ', hsteps, hreached, hworld, ⟨htype, hfit, hn⟩, hframe⟩ := hgoes
    exact ⟨σ', hsteps, hreached, hworld, htype, hfit.holds, hn.1, agrees_of_extends hc hs hframe⟩

/-- `flag && count++ < 10` -/
def countIfFlagged : Term :=
  .binary none .logicalAnd (.variable none "flag")
    (.binary none .less (.unary none .postIncrement (.variable none "count"))
      (.literal none (.number "10")))

/-- A function with the parameter `flag` and a stack slot for `count`. -/
def counting : BodyState where
  builder := {
    function := some {
      name := "counting", returnType := .bool, params := [(0, .bool)],
      blocks := [⟨0, some "entry", [.alloca 1 .i32]⟩], isExternal := false, isVararg := false,
      linkage := .external, location := none }
    current := some 0
    nextTemp := 2
    nextLabel := 1 }
  globals := []
  scope := ⟨[("flag", ⟨.direct (.temp 0), .named "bool", .bool, false, false, none⟩),
    ("count", ⟨.stack (.temp 1), .named "i32", .i32, true, false, none⟩)]⟩
  log := default

/-- The flag is set, and the memory holds seven everywhere. -/
def flagged : Machine where
  label := 0
  index := 1
  previous := none
  temps := fun t => if t = 0 then 1 else 100
  world := ⟨fun _ => 7, []⟩

/-- There are no global variables, and functions do nothing. -/
def quietly : Surroundings := ⟨fun _ => 0, fun w _ _ => (0, w.memory)⟩

theorem steady_counting : counting.Steady where
  front := by
    refine ⟨_, [], _, rfl, rfl, rfl, ?_, ?_, ?_, ?_, ?_, ?_⟩
    all_goals decide
  scope entry he := by
    have hentry := List.mem_cons.mp he
    obtain rfl | hentry := hentry
    · rintro t ht
      obtain rfl : t = 0 := by simpa [Storage.temps] using ht
      exact ⟨_, rfl, .inl (by decide)⟩
    · obtain rfl := List.mem_singleton.mp hentry
      rintro t ht
      obtain rfl : t = 1 := by simpa [Storage.temps] using ht
      exact ⟨_, rfl, .inr (by decide)⟩

theorem agrees_counting :
    (counting.context quietly default flagged.temps).Agrees quietly default counting
      flagged.temps := by
  refine steady_counting.agrees (fun _ h => by cases h) fun {name b t} hb hstorage _ => ?_
  have hmem : (name, b) ∈ counting.scope.entries := by
    rw [BodyState.binding?] at hb
    cases hfind : counting.scope.find? name with
    | none =>
      rw [hfind] at hb
      cases hb
    | some b' =>
      rw [hfind] at hb
      obtain rfl := Option.some.inj hb
      exact Scope.mem_of_find? hfind
  obtain hentry | hentry := List.mem_cons.mp hmem
  · obtain ⟨rfl, rfl⟩ := Prod.mk.inj hentry
    obtain rfl : 0 = t := by simpa using hstorage
    exact .inr rfl
  · obtain ⟨rfl, rfl⟩ := Prod.mk.inj (List.mem_singleton.mp hentry)
    simp at hstorage

theorem lowerTerm_evaluates_countIfFlagged : ∃ v s' g σ',
    exec (lowerTerm default countIfFlagged) counting = (.ok v, s') ∧
      s'.builder.function = some g ∧ quietly.Runs g flagged σ' ∧
      σ'.world.events = [.store 100 .i32 8] ∧ quietly.operand? σ'.temps v.value = some 1 := by
  have hcode : (exec (lowerTerm default countIfFlagged) counting).1.isOk ∧
      (exec (lowerTerm default countIfFlagged) counting).2.builder.function.isSome := by
    decide +kernel
  let c := counting.context quietly default flagged.temps
  have heval : (exec (countIfFlagged.eval quietly c) flagged.world).1 = .ok ⟨.bool, 1, false⟩ ∧
      (exec (countIfFlagged.eval quietly c) flagged.world).2.events = [.store 100 .i32 8] := by
    decide +kernel
  have hnames : (c.lookup "flag").isSome ∧ (c.lookup "count").isSome ∧ '.' ∉ "10".toList := by
    decide +kernel
  have hterm : countIfFlagged.IsScalar c := hnames
  have hflagged : counting.Reached flagged := ⟨_, _, ⟨rfl, rfl, rfl⟩, rfl⟩
  rcases hexec : exec (lowerTerm default countIfFlagged) counting with ⟨e | v, s'⟩
  all_goals rw [hexec] at hcode
  · simp [Except.isOk, Except.toBool] at hcode
  obtain ⟨g, hg⟩ := Option.isSome_iff_exists.mp hcode.2
  have hinside : s'.Inside g := by
    intro f l b hw
    obtain rfl := Option.some.inj (hw.function.symm.trans hg)
    exact .refl _
  have hrun := lowerTerm_evaluates hterm hexec hinside hflagged agrees_counting
  rcases hresult : exec (countIfFlagged.eval quietly c) flagged.world with ⟨e | d, w⟩
  all_goals rw [hresult] at heval
  · simp at heval
  rw [hresult] at hrun
  obtain ⟨σ', hsteps, -, hworld, -, -, hn, -⟩ := hrun
  obtain ⟨hd, hw⟩ := heval
  obtain rfl := Except.ok.inj hd
  exact ⟨v, s', g, σ', rfl, hg, hsteps, hworld ▸ hw, hn⟩

end Lower

end SsaLowering
