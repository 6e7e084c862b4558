import SsaLowering.Proofs.Evaluation
import SsaLowering.Proofs.Extension

/-!
# Simulation of evaluation by lowered code

An action of the lowering simulates an evaluation: a machine that runs what the action writes
does to the world what the evaluation does, and it knows about the result of the action what
is known about the result of the evaluation.
-/

namespace SsaLowering

/-- What is known about the temporaries below a number. It stays true when others change. -/
structure Assertion where
  Holds : Temps → Nat → Prop
  stable : ∀ {ρ ρ' : Temps} {k k' : Nat}, Holds ρ k → k ≤ k' → (∀ t < k, ρ' t = ρ t) → Holds ρ' k'

namespace Assertion

/-- What is known anyway. -/
def of (p : Prop) : Assertion := ⟨fun _ _ => p, fun h _ _ => h⟩

/-- Both assertions. -/
def and (P Q : Assertion) : Assertion where
  Holds ρ k := P.Holds ρ k ∧ Q.Holds ρ k
  stable h hk hρ := ⟨P.stable h.1 hk hρ, Q.stable h.2 hk hρ⟩

variable {m : Surroundings} {v : Value} {n : Int}

/-- An operand stands for a number. -/
def denotes (m : Surroundings) (v : Value) (n : Int) : Assertion where
  Holds ρ k := m.operand? ρ v = some n ∧ ∀ t, v = .temp t → t < k
  stable := by
    rintro ρ ρ' k k' ⟨hn, ht⟩ hk hρ
    refine ⟨?_, fun t hv => Nat.lt_of_lt_of_le (ht t hv) hk⟩
    cases v with
    | temp t =>
      have hsame := hρ t (ht t rfl)
      simpa [Surroundings.operand?, hsame] using hn
    | _ => exact hn

/-- Some operands of some types stand for numbers, one for each. -/
def denoteAll (m : Surroundings) : List (MachineType × Value) → List (MachineType × Int) → Assertion
  | [], [] => of True
  | (type, v) :: args, (type', n) :: values =>
    (of (type = type')).and ((denotes m v n).and (denoteAll m args values))
  | _, _ => of False

/-- An operand is fit to stand for a datum. -/
structure IsFit (v : Value) (d : Datum) : Prop where
  isScalar : d.type.IsScalar
  holds : d.type.Holds d.value
  isConstant : d.type ≠ .bool → v.isConstant = d.isConstant
  int : d.type ≠ .bool → d.isConstant = true → ∃ n, v = .int n

/-- An operand stands for a datum. -/
def carries (m : Surroundings) (v : Value) (d : Datum) : Assertion :=
  (of (IsFit v d)).and (denotes m v d.value)

/-- An operand stands for a number that was computed, so it is no constant. -/
def computed (m : Surroundings) (v : Value) (n : Int) : Assertion :=
  (of (v.isConstant = false)).and (denotes m v n)

/-- A typed value stands for a datum. -/
def represents (m : Surroundings) (v : TypedValue) (d : Datum) : Assertion :=
  (of (v.type = d.type)).and (carries m v.value d)

/-- Some typed values stand for data, one for each. -/
def representAll (m : Surroundings) : List TypedValue → List Datum → Assertion
  | [], [] => of True
  | v :: vs, d :: ds => (represents m v d).and (representAll m vs ds)
  | _, _ => of False

/-- A variable has its value where a binding says. -/
def livesIn (m : Surroundings) (type : MachineType) : Storage → Home → Assertion
  | .stack slot, .cell address => denotes m slot address
  | .global name, .cell address => of (address = m.address name)
  | .direct (.temp t), .fixed value => (denotes m (.temp t) value).and (of (type.Holds value))
  | _, _ => of False

/-- A binding is that of a variable. -/
def binds (m : Surroundings) (b : Binding) (x : SourceVariable) : Assertion :=
  (of (x.type = b.type ∧ x.isMutable = b.isMutable ∧ b.type.IsScalar)).and
    (livesIn m b.type b.storage x.home)

variable {ρ : Temps} {t k : Nat} {type : MachineType} {b : Bool}

/-- A result that was just computed. -/
theorem computed_update : (computed m (.temp t) n).Holds (Function.update ρ t n) (t + 1) := by
  refine ⟨rfl, by simp [Surroundings.operand?], ?_⟩
  rintro u ⟨⟩
  exact Nat.lt_succ_self t

theorem carries_of_computed (h : (computed m v n).Holds ρ k) (htype : type.IsScalar)
    (hn : type.Holds n) : (carries m v ⟨type, n, false⟩).Holds ρ k :=
  ⟨⟨htype, hn, fun _ => h.1, fun _ h => by simp at h⟩, h.2⟩

theorem represents_truth (h : (denotes m v b.toInt).Holds ρ k) :
    (represents m (.truth v) (.truth b)).Holds ρ k :=
  ⟨rfl, ⟨trivial, MachineType.holds_bool b, fun h => absurd rfl h, fun h => absurd rfl h⟩, h⟩

theorem denotes_bool : (denotes m (.bool b) b.toInt).Holds ρ k :=
  ⟨rfl, fun _ h => by simp at h⟩

/-- What lives at an address is in memory. -/
theorem cell_of_address? {storage : Storage} {home : Home} {ptr : Value}
    (h : (livesIn m type storage home).Holds ρ k) (hptr : storage.address? = some ptr) :
    ∃ address, home = .cell address ∧ (denotes m ptr address).Holds ρ k := by
  cases storage with
  | stack slot =>
    obtain rfl : slot = ptr := by simpa [Storage.address?] using hptr
    cases home with
    | cell address => exact ⟨address, rfl, h⟩
    | fixed value => exact h.elim
  | global name =>
    obtain rfl : Value.global name = ptr := by simpa [Storage.address?] using hptr
    cases home with
    | cell address =>
      refine ⟨address, rfl, ?_, fun t ht => by simp at ht⟩
      have haddress : address = m.address name := h
      rw [haddress]
      rfl
    | fixed value => exact h.elim
  | direct value => simp [Storage.address?] at hptr

/-- What is bound directly is a parameter. -/
theorem fixed_of_direct {home : Home} (h : (livesIn m type (.direct v) home).Holds ρ k) :
    ∃ n, home = .fixed n ∧ (computed m v n).Holds ρ k ∧ type.Holds n := by
  cases v with
  | temp t =>
    cases home with
    | cell address => exact h.elim
    | fixed n => exact ⟨n, rfl, ⟨rfl, h.1⟩, h.2⟩
  | _ => exact h.elim

theorem operands?_of_denoteAll {args : List (MachineType × Value)}
    {values : List (MachineType × Int)} (h : (denoteAll m args values).Holds ρ k) :
    m.operands? ρ args = some values := by
  induction args generalizing values with
  | nil =>
    cases values with
    | nil => rfl
    | cons value values => exact h.elim
  | cons arg args ih =>
    cases values with
    | nil => exact h.elim
    | cons value values =>
      obtain ⟨htype : arg.1 = value.1, hn, hrest⟩ := h
      simp [Surroundings.operands?, hn.1, ih hrest, htype]

end Assertion

/-- The variables of a context are bound, and live where the bindings say. -/
structure SourceContext.Agrees (m : Surroundings) (env : Environment) (c : SourceContext)
    (s : BodyState) (ρ : Temps) : Prop where
  functions : c.functions = env.functions
  bound : ∀ {name x}, c.lookup name = some x → ∃ b, s.binding? env name = some b ∧
    (Assertion.binds m b x).Holds ρ s.builder.nextTemp

namespace Lower

open BodyState

variable {m : Surroundings} {env : Environment} {c : SourceContext} {α β γ δ : Type}
  {s s' : BodyState} {g : FunctionDef} {σ σ' : Machine}

theorem agrees_of_extends (h : c.Agrees m env s σ.temps) (hs : s.Extends env s')
    (hσ : ∀ t < s.builder.nextTemp, σ'.temps t = σ.temps t) : c.Agrees m env s' σ'.temps where
  functions := h.functions
  bound hx := by
    obtain ⟨b, hb, hbinds⟩ := h.bound hx
    obtain ⟨b', hb', hstorage, htype, hmutable⟩ := hs.bindings hb
    refine ⟨b', hb', ?_⟩
    have hstable := (Assertion.binds m b _).stable hbinds hs.temps hσ
    simpa only [Assertion.binds, hstorage, htype, hmutable] using hstable

/-- How a machine goes on that has executed all before `s`, given the outcome of an evaluation:
to the end of what is written before `s'`, or until it is stuck. -/
def GoesOn (m : Surroundings) (g : FunctionDef) (s s' : BodyState) (σ : Machine)
    (post : β → Assertion) : Except Halt β × World → Prop
  | (.ok b, w) => ∃ σ', m.Runs g σ σ' ∧ s'.Reached σ' ∧ σ'.world = w ∧
    (post b).Holds σ'.temps s'.builder.nextTemp ∧
    ∀ t < s.builder.nextTemp, σ'.temps t = σ.temps t
  | (.error .trap, w) => ∃ σ', m.Runs g σ σ' ∧ m.Stuck g σ' ∧ σ'.world = w
  | (.error .wrong, _) => False

/-- Whenever the action succeeds, what it writes does what the evaluation does. -/
def Simulates (m : Surroundings) (env : Environment) (c : SourceContext) (pre : Assertion)
    (action : Lower α) (meaning : Eval β) (post : α → β → Assertion) : Prop :=
  ∀ s a s', exec action s = (.ok a, s') → s.Extends env s' ∧
    ∀ g σ, s'.Inside g → s.Reached σ → c.Agrees m env s σ.temps →
      pre.Holds σ.temps s.builder.nextTemp →
      GoesOn m g s s' σ (post a) (exec meaning σ.world)

namespace Simulates

variable {pre pre' : Assertion} {x : Lower α} {f : α → Lower γ} {y : Eval β} {k : β → Eval δ}
  {post post' : α → β → Assertion} {post₂ : γ → δ → Assertion}

theorem weaken (h : Simulates m env c pre x y post)
    (hpost : ∀ a b ρ n, pre.Holds ρ n → (post a b).Holds ρ n → (post' a b).Holds ρ n) :
    Simulates m env c pre x y post' := by
  intro s a s' hexec
  obtain ⟨hs, hrun⟩ := h s a s' hexec
  refine ⟨hs, fun g σ hg hσ hc hp => ?_⟩
  have hgoes := hrun g σ hg hσ hc hp
  rcases hy : exec y σ.world with ⟨e | b, w⟩
  all_goals rw [hy] at hgoes
  · cases e <;> exact hgoes
  · obtain ⟨σ', hsteps, hreached, hworld, hholds, hframe⟩ := hgoes
    exact ⟨σ', hsteps, hreached, hworld,
      hpost a b _ _ (pre.stable hp hs.temps hframe) hholds, hframe⟩

/-- Nothing is written for a result that is there already. -/
theorem quiet {a : α} (h : ∀ ρ n, pre.Holds ρ n →
    ∃ b, (∀ w, exec y w = (.ok b, w)) ∧ (post a b).Holds ρ n) :
    Simulates m env c pre (Pure.pure a) y post := by
  rintro s _ _ ⟨⟩
  refine ⟨.refl s, fun g σ hg hσ hc hp => ?_⟩
  obtain ⟨b, hy, hb⟩ := h _ _ hp
  rw [hy]
  exact ⟨σ, .refl, hσ, rfl, hb, fun _ _ => rfl⟩

theorem pure {a : α} {b : β} (h : ∀ ρ n, pre.Holds ρ n → (post a b).Holds ρ n) :
    Simulates m env c pre (Pure.pure a) (Pure.pure b) post :=
  quiet fun ρ n hp => ⟨b, fun _ => rfl, h ρ n hp⟩

theorem throw (e : LoweringError) : Simulates m env c pre (throw e) y post := by
  rintro s a s' ⟨⟩

theorem fail (cause : Cause) : Simulates m env c pre (fail cause) y post := throw _

/-- What is never reached does what any evaluation does. -/
theorem absurd {post₂ : α → δ → Assertion} {z : Eval δ} (h : Simulates m env c pre x y post)
    (hpre : ∀ ρ n, ¬ pre'.Holds ρ n) : Simulates m env c pre' x z post₂ := by
  intro s a s' hexec
  exact ⟨(h s a s' hexec).1, fun g σ hg hσ hc hp => (hpre _ _ hp).elim⟩

theorem bind [Inhabited β] (hx : Simulates m env c pre x y post)
    (hf : ∀ a b, Simulates m env c (pre.and (post a b)) (f a) (k b) post₂) :
    Simulates m env c pre (x >>= f) (y >>= k) post₂ := by
  intro s a s' hexec
  obtain ⟨a₁, s₁, hexec₁, hexec₂⟩ := exec_bind_eq_ok.mp hexec
  obtain ⟨hs₁, hrun₁⟩ := hx s a₁ s₁ hexec₁
  have hs₂ := (hf a₁ default s₁ a s' hexec₂).1
  refine ⟨hs₁.trans hs₂, fun g σ hg hσ hc hp => ?_⟩
  have hgoes := hrun₁ g σ (hg.of_extends hs₂) hσ hc hp
  rw [exec_bind]
  rcases hy : exec y σ.world with ⟨e | b, w⟩
  all_goals rw [hy] at hgoes
  · cases e <;> exact hgoes
  · obtain ⟨σ₁, hsteps, hreached, rfl, hholds, hframe⟩ := hgoes
    have hgoes₂ := (hf a₁ b s₁ a s' hexec₂).2 g σ₁ hg hreached (agrees_of_extends hc hs₁ hframe)
      ⟨pre.stable hp hs₁.temps hframe, hholds⟩
    simp only
    rcases hk : exec (k b) σ₁.world with ⟨e | b', w'⟩
    all_goals rw [hk] at hgoes₂
    · cases e with
      | trap =>
        obtain ⟨σ', hsteps', hstuck⟩ := hgoes₂
        exact ⟨σ', hsteps.trans hsteps', hstuck⟩
      | wrong => exact hgoes₂
    · obtain ⟨σ', hsteps', hreached', hworld, hholds', hframe'⟩ := hgoes₂
      refine ⟨σ', hsteps.trans hsteps', hreached', hworld, hholds', fun t ht => ?_⟩
      rw [hframe' t (Nat.lt_of_lt_of_le ht hs₁.temps), hframe t ht]

/-- An action that has no counterpart in the evaluation. -/
theorem before {y : Eval δ} {post : α → Unit → Assertion}
    (hx : Simulates m env c pre x (Pure.pure ()) post)
    (hf : ∀ a, Simulates m env c (pre.and (post a ())) (f a) y post₂) :
    Simulates m env c pre (x >>= f) y post₂ :=
  bind (k := fun _ => y) hx fun a _ => hf a

/-- A part of the evaluation for which nothing is written. -/
theorem behind [Inhabited β] {x : Lower γ} {post : β → Assertion}
    (hy : ∀ ρ n, pre.Holds ρ n → ∃ b, (∀ w, exec y w = (.ok b, w)) ∧ (post b).Holds ρ n)
    (hk : ∀ b, Simulates m env c (pre.and (post b)) x (k b) post₂) :
    Simulates m env c pre x (y >>= k) post₂ :=
  bind (x := Pure.pure ()) (f := fun _ => x) (quiet hy) fun _ b => hk b

/-- What becomes of the result afterwards. -/
theorem map [Inhabited β] {f : α → γ} {post₂ : γ → β → Assertion}
    (hx : Simulates m env c pre x y post)
    (hf : ∀ a b ρ n, pre.Holds ρ n → (post a b).Holds ρ n → (post₂ (f a) b).Holds ρ n) :
    Simulates m env c pre (x >>= fun a => Pure.pure (f a)) y post₂ := by
  rw [← bind_pure y]
  exact bind hx fun a b => pure fun ρ n hp => hf a b ρ n hp.1 hp.2

theorem located {location : Option Location} (h : Simulates m env c pre x y post) :
    Simulates m env c pre (located location x) y post := by
  intro s a s' hexec
  exact h s a s' (exec_located_eq_ok.mp hexec)

/-- An optional result that is required. -/
theorem orFail {y : Eval δ} {result : Option α} {cause : Cause}
    (h : ∀ a, result = some a → Simulates m env c pre (f a) y post₂) :
    Simulates m env c pre (Lower.orFail result cause >>= f) y post₂ := by
  cases result with
  | none =>
    intro s a s' hexec
    simp [exec_bind] at hexec
  | some a => exact h a rfl

/-- A test that has to succeed. -/
theorem guarded {p : Prop} [Decidable p] {cause : Cause} {x : Lower α}
    (h : p → Simulates m env c pre x y post) :
    Simulates m env c pre (do unless p do Lower.fail cause
                              x) y post := by
  by_cases hp : p
  · simpa [hp] using h hp
  · intro s a s' hexec
    simp [hp, exec_bind] at hexec

end Simulates

/-- An instruction that has a result does what an evaluation does. -/
def Defines (m : Surroundings) (σ : Machine) (t : Nat) (i : Instr) (post : β → Assertion) :
    Except Halt β × World → Prop
  | (.ok b, w) => ∃ n, m.execute? σ i = some (σ.define t n w) ∧
    (post b).Holds (Function.update σ.temps t n) (t + 1)
  | (.error .trap, w) => m.execute? σ i = none ∧ σ.world = w
  | (.error .wrong, _) => False

/-- An instruction that has a result is written for an evaluation. -/
theorem Simulates.define {pre : Assertion} {y : Eval β} {instr : Nat → Instr}
    {post : Value → β → Assertion}
    (h : ∀ σ t, pre.Holds σ.temps t →
      Defines m σ t (instr t) (post (.temp t)) (exec y σ.world)) :
    Simulates m env c pre (build (Build.define instr)) y post := by
  intro s v s' hexec
  obtain ⟨rfl, htemp, hs, hwritten⟩ := exec_define_eq_ok env hexec
  refine ⟨hs, fun g σ hg hσ hc hp => ?_⟩
  obtain ⟨hnext, hreached⟩ := hwritten hg hσ
  have hdefines := h σ _ hp
  rcases hy : exec y σ.world with ⟨e | b, w⟩
  all_goals rw [hy] at hdefines
  · cases e with
    | trap =>
      obtain ⟨hnone, hworld⟩ := hdefines
      exact ⟨σ, .refl, ⟨_, hnext, hnone⟩, hworld⟩
    | wrong => exact hdefines
  · obtain ⟨n, hsome, hholds⟩ := hdefines
    refine ⟨_, .single ⟨_, hnext, hsome⟩, hreached n w, rfl, htemp ▸ hholds, fun t ht => ?_⟩
    exact Function.update_of_ne ht.ne _ _

/-- A store is written for a store. -/
theorem Simulates.store {pre : Assertion} {v ptr : Value} {type type' : MachineType}
    {n address : Int}
    (h : ∀ ρ k, pre.Holds ρ k → type = type' ∧ m.operand? ρ v = some n ∧
      m.operand? ρ ptr = some address) :
    Simulates m env c pre (build (Build.store v ptr type)) (Eval.store address type' n)
      fun _ _ => .of True := by
  intro s _ s' hexec
  have hs : s.Extends env s' := extends_of_emit hexec
  refine ⟨hs, fun g σ hg hσ hc hp => ?_⟩
  obtain ⟨rfl, hv, hptr⟩ := h _ _ hp
  have hsome : m.execute? σ (.store v ptr type) =
      some (σ.pass (σ.world.store address type n)) := by
    rw [Surroundings.execute?, hv, hptr]
    rfl
  exact ⟨_, .single ⟨_, next_of_emit hexec hg hσ, hsome⟩, reached_of_emit hexec hσ rfl rfl, rfl,
    trivial, fun _ _ => rfl⟩

end Lower

end SsaLowering
