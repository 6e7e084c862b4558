import Mathlib.Order.Basic
import SsaLowering.Proofs.Action

/-!
# Two runs side by side

Two actions are carried out side by side, from states that belong together. Which states and
which results belong together may depend on what was added before: a world, which only grows.
Side by side, both actions succeed or both fail with the same error, and they leave states that
belong together.
-/

namespace SsaLowering

variable {ε σ α β W : Type}

/-- Both actions gave results that belong together, or both failed with the same error. -/
inductive Matched (Q : α → α → Prop) : Except ε α → Except ε α → Prop
  | ok {a a' : α} : Q a a' → Matched Q (.ok a) (.ok a')
  | error (e : ε) : Matched Q (.error e) (.error e)

theorem Matched.imp {P Q : α → α → Prop} {r r' : Except ε α} (h : Matched P r r')
    (hPQ : ∀ a a', P a a' → Q a a') : Matched Q r r' := by
  cases h with
  | ok ha => exact .ok (hPQ _ _ ha)
  | error e => exact .error e

/-- From states that belong together, two actions lead to results and states that do. -/
def Parallel [Preorder W] (S : W → σ → σ → Prop) (w : W) (x x' : ExceptT ε (StateM σ) α)
    (Q : W → α → α → Prop) : Prop :=
  ∀ s s', S w s s' → ∃ w', w ≤ w' ∧ S w' (exec x s).2 (exec x' s').2 ∧
    Matched (Q w') (exec x s).1 (exec x' s').1

/-- Two actions that give results without adding anything. -/
def Quiet [Preorder W] (S : W → σ → σ → Prop) (w : W) (x x' : ExceptT ε (StateM σ) α)
    (Q : α → α → Prop) : Prop :=
  Parallel S w x x' fun w' a a' => w' = w ∧ Q a a'

/-- The world of actions that add nothing. -/
inductive Still
  | still

instance : Preorder Still where
  le _ _ := True
  le_refl _ := trivial
  le_trans _ _ _ _ _ := trivial

namespace Parallel

variable [Preorder W] {S : W → σ → σ → Prop} {w : W} {x x' : ExceptT ε (StateM σ) α}
  {f f' : α → ExceptT ε (StateM σ) β} {P Q : W → α → α → Prop} {R : W → β → β → Prop}

theorem pure {a a' : α} (h : Q w a a') :
    Parallel S w (Pure.pure a : ExceptT ε (StateM σ) α) (Pure.pure a') Q :=
  fun _ _ hs => ⟨w, le_rfl, hs, .ok h⟩

theorem throw (e : ε) :
    Parallel S w (MonadExcept.throw e : ExceptT ε (StateM σ) α) (MonadExcept.throw e) Q :=
  fun _ _ hs => ⟨w, le_rfl, hs, .error e⟩

theorem imp (hx : Parallel S w x x' P) (h : ∀ w' a a', w ≤ w' → P w' a a' → Q w' a a') :
    Parallel S w x x' Q := by
  intro s s' hs
  obtain ⟨w', hw, hs₁, hout⟩ := hx s s' hs
  exact ⟨w', hw, hs₁, hout.imp fun a a' ha => h w' a a' hw ha⟩

/-- Sequences of actions go on side by side, in the world that the first actions leave. -/
theorem bind (hx : Parallel S w x x' P)
    (hf : ∀ w' a a', w ≤ w' → P w' a a' → Parallel S w' (f a) (f' a') R) :
    Parallel S w (x >>= f) (x' >>= f') R := by
  intro s s' hs
  obtain ⟨w₁, hw₁, hs₁, hout⟩ := hx s s' hs
  rcases hexec : exec x s with ⟨r, s₁⟩
  rcases hexec' : exec x' s' with ⟨r', s₁'⟩
  rw [hexec, hexec'] at hs₁ hout
  cases hout with
  | ok ha =>
    rw [exec_bind_of_ok hexec, exec_bind_of_ok hexec']
    obtain ⟨w₂, hw₂, hs₂, hout⟩ := hf w₁ _ _ hw₁ ha _ _ hs₁
    exact ⟨w₂, hw₁.trans hw₂, hs₂, hout⟩
  | error e =>
    rw [exec_bind_of_error hexec, exec_bind_of_error hexec']
    exact ⟨w₁, hw₁, hs₁, .error e⟩

theorem throw_bind (e : ε) :
    Parallel S w (MonadExcept.throw e >>= f) (MonadExcept.throw e >>= f') R :=
  fun _ _ hs => ⟨w, le_rfl, hs, .error e⟩

/-- Both actions are guarded by the same condition. -/
theorem guarded {p : Prop} [Decidable p] {e : ε} {next next' : Unit → ExceptT ε (StateM σ) α}
    (h : Parallel S w (next ()) (next' ()) Q) :
    Parallel S w (if p then next () else MonadExcept.throw e >>= next)
      (if p then next' () else MonadExcept.throw e >>= next') Q := by
  split
  · exact h
  · exact throw_bind e

theorem guarded' {p : Prop} [Decidable p] {e : ε} {next next' : Unit → ExceptT ε (StateM σ) α}
    (h : Parallel S w (next ()) (next' ()) Q) :
    Parallel S w (if p then MonadExcept.throw e >>= next else next ())
      (if p then MonadExcept.throw e >>= next' else next' ()) Q := by
  split
  · exact throw_bind e
  · exact h

end Parallel

namespace Quiet

variable [Preorder W] {S : W → σ → σ → Prop} {w : W} {x x' : ExceptT ε (StateM σ) α}
  {f f' : α → ExceptT ε (StateM σ) β} {P Q : α → α → Prop} {R : W → β → β → Prop}

theorem pure {a a' : α} (h : Q a a') :
    Quiet S w (Pure.pure a : ExceptT ε (StateM σ) α) (Pure.pure a') Q :=
  Parallel.pure ⟨rfl, h⟩

/-- Behind actions that add nothing, the world is still the same. -/
theorem bind (hx : Quiet S w x x' P) (hf : ∀ a a', P a a' → Parallel S w (f a) (f' a') R) :
    Parallel S w (x >>= f) (x' >>= f') R := by
  refine Parallel.bind hx ?_
  rintro _ a a' - ⟨rfl, ha⟩
  exact hf a a' ha

theorem imp (hx : Quiet S w x x' P) (h : ∀ a a', P a a' → Q a a') : Quiet S w x x' Q :=
  Parallel.imp hx fun _ a a' _ ha => ⟨ha.1, h a a' ha.2⟩

theorem parallel (hx : Quiet S w x x' P) {Q : W → α → α → Prop} (h : ∀ a a', P a a' → Q w a a') :
    Parallel S w x x' Q := by
  refine Parallel.imp hx ?_
  rintro _ a a' - ⟨rfl, ha⟩
  exact h a a' ha

end Quiet

end SsaLowering
