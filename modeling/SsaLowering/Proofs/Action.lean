import SsaLowering.Lowering.Environment

/-!
# Running actions

An action of the lowering is a function from a state to a result and a state. The
equations here say what it does at a state, one for every way to put actions together.
-/

namespace SsaLowering

variable {ε σ α β : Type}

/-- The result of an action, and the state that it leaves. -/
def exec (action : ExceptT ε (StateM σ) α) (s : σ) : Except ε α × σ := action.run s

@[simp] theorem exec_pure (a : α) (s : σ) :
    exec (pure a : ExceptT ε (StateM σ) α) s = (.ok a, s) := rfl

@[simp] theorem exec_throw (e : ε) (s : σ) :
    exec (throw e : ExceptT ε (StateM σ) α) s = (.error e, s) := rfl

@[simp] theorem exec_get (s : σ) : exec (get : ExceptT ε (StateM σ) σ) s = (.ok s, s) := rfl

@[simp] theorem exec_set (s t : σ) :
    exec (set t : ExceptT ε (StateM σ) Unit) s = (.ok (), t) := rfl

@[simp] theorem exec_modify (change : σ → σ) (s : σ) :
    exec (modify change : ExceptT ε (StateM σ) Unit) s = (.ok (), change s) := rfl

theorem exec_bind (x : ExceptT ε (StateM σ) α) (f : α → ExceptT ε (StateM σ) β) (s : σ) :
    exec (x >>= f) s = match exec x s with
      | (.ok a, s') => exec (f a) s'
      | (.error e, s') => (.error e, s') := by
  simp only [exec, ExceptT.run, bind, ExceptT.bind, ExceptT.mk, StateT.bind]
  rcases x s with ⟨_ | _, _⟩ <;> rfl

theorem exec_map (f : α → β) (x : ExceptT ε (StateM σ) α) (s : σ) :
    exec (f <$> x) s = match exec x s with
      | (.ok a, s') => (.ok (f a), s')
      | (.error e, s') => (.error e, s') := by
  simp only [exec, ExceptT.run, Functor.map, ExceptT.map, ExceptT.mk, StateT.bind, bind]
  rcases x s with ⟨_ | _, _⟩ <;> rfl

/-- A sequence of actions goes on with the result of the first. -/
theorem exec_bind_of_ok {x : ExceptT ε (StateM σ) α} {f : α → ExceptT ε (StateM σ) β} {s s' : σ}
    {a : α} (h : exec x s = (.ok a, s')) : exec (x >>= f) s = exec (f a) s' := by
  rw [exec_bind, h]

/-- A sequence of actions ends where the first one fails. -/
theorem exec_bind_of_error {x : ExceptT ε (StateM σ) α} {f : α → ExceptT ε (StateM σ) β}
    {s s' : σ} {e : ε} (h : exec x s = (.error e, s')) : exec (x >>= f) s = (.error e, s') := by
  rw [exec_bind, h]

/-- A sequence of actions succeeds if each of them does. -/
theorem exec_bind_eq_ok {x : ExceptT ε (StateM σ) α} {f : α → ExceptT ε (StateM σ) β} {s s' : σ}
    {b : β} : exec (x >>= f) s = (.ok b, s') ↔
      ∃ a t, exec x s = (.ok a, t) ∧ exec (f a) t = (.ok b, s') := by
  rw [exec_bind]
  rcases exec x s with ⟨_ | a, t⟩
  · simp
  · constructor
    · intro h
      exact ⟨a, t, rfl, h⟩
    · rintro ⟨a', t', h, h'⟩
      simp only [Prod.mk.injEq, Except.ok.injEq] at h
      obtain ⟨rfl, rfl⟩ := h
      exact h'

/-- Actions that do the same at every state are equal. -/
theorem ext_exec {x y : ExceptT ε (StateM σ) α} (h : ∀ s, exec x s = exec y s) : x = y := funext h

namespace Lower

@[simp] theorem exec_fail (cause : Cause) (s : BodyState) :
    exec (fail cause : Lower α) s = (.error (.unplaced cause), s) := rfl

theorem exec_tryCatch (x : Lower α) (handler : LoweringError → Lower α) (s : BodyState) :
    exec (tryCatch x handler) s = match exec x s with
      | (.ok a, s') => (.ok a, s')
      | (.error e, s') => exec (handler e) s' := by
  simp only [exec, tryCatch, tryCatchThe, MonadExceptOf.tryCatch, ExceptT.tryCatch, ExceptT.run,
    ExceptT.mk, StateT.bind, bind]
  rcases x s with ⟨_ | _, _⟩ <;> rfl

/-- An action of the builder changes nothing but the builder. Its failure is an internal
error. -/
theorem exec_build (action : Build α) (s : BodyState) :
    exec (build action) s = match exec action s.builder with
      | (.ok a, b) => (.ok a, { s with builder := b })
      | (.error e, b) => (.error (.unplaced (.internal e.message)), { s with builder := b }) := by
  rw [build, exec_bind, exec_get]
  rcases hrun : action.run s.builder with ⟨_ | _, _⟩
  all_goals
    simp only [exec, hrun]
    rfl

/-- A sequence of actions of the builder is a sequence of actions. -/
theorem build_bind (x : Build α) (f : α → Build β) :
    build (x >>= f) = build x >>= fun a => build (f a) := by
  apply ext_exec
  intro s
  rw [exec_build, exec_bind, exec_bind, exec_build]
  rcases exec x s.builder with ⟨_ | a, b⟩
  · rfl
  · simp only
    rw [exec_build]

theorem build_pure (a : α) : build (pure a) = (pure a : Lower α) := by
  apply ext_exec
  intro s
  rw [exec_build]
  rfl

theorem exec_build_of_ok {action : Build α} {s : BodyState} {a : α} {b : FunctionBuilder}
    (h : exec action s.builder = (.ok a, b)) :
    exec (build action) s = (.ok a, { s with builder := b }) := by
  rw [exec_build, h]

@[simp] theorem exec_orFail_some (a : α) (cause : Cause) (s : BodyState) :
    exec (orFail (some a) cause) s = (.ok a, s) := rfl

@[simp] theorem exec_orFail_none (cause : Cause) (s : BodyState) :
    exec (orFail none cause : Lower α) s = (.error (.unplaced cause), s) := rfl

/-- Placing an error does not change what an action does otherwise. -/
theorem exec_located (location : Option Location) (x : Lower α) (s : BodyState) :
    exec (located location x) s = match exec x s with
      | (.ok a, s') => (.ok a, s')
      | (.error e, s') => (.error (e.orAt location), s') := by
  rw [located, exec_tryCatch]
  rcases exec x s with ⟨_ | _, _⟩ <;> rfl

@[simp] theorem exec_located_eq_ok {location : Option Location} {x : Lower α}
    {s s' : BodyState} {a : α} :
    exec (located location x) s = (.ok a, s') ↔ exec x s = (.ok a, s') := by
  rw [exec_located]
  rcases exec x s with ⟨_ | _, _⟩ <;> simp

theorem snd_exec_located (location : Option Location) (x : Lower α) (s : BodyState) :
    (exec (located location x) s).2 = (exec x s).2 := by
  rw [exec_located]
  rcases exec x s with ⟨_ | _, _⟩ <;> rfl

/-- A failure that is recovered from leaves a diagnostic. -/
theorem exec_recovering (x : Lower Unit) (s : BodyState) :
    exec (recovering x) s = match exec x s with
      | (.ok (), s') => (.ok (), s')
      | (.error e, s') => (.ok (), { s' with log := s'.log.report e.toDiagnostic }) := by
  rw [recovering, exec_tryCatch]
  rcases exec x s with ⟨_ | _, _⟩ <;> rfl

theorem exec_isTerminated (s : BodyState) :
    exec isTerminated s = (.ok s.builder.isTerminated, s) := rfl

theorem exec_warn (w : Warning) (location : Option Location) (s : BodyState) :
    exec (warn w location) s = (.ok (), { s with log := s.log.report (w.toDiagnostic location) }) :=
  rfl

end Lower

end SsaLowering
