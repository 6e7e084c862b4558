import SsaLowering.Lowering.Statement
import SsaLowering.Proofs.Action
import SsaLowering.Proofs.Ledger

/-!
# Invariants of the lowering of a body

The lowering of a body changes its state in few ways: it adds instructions, binds names and
writes to the log. An invariant says which instructions it admits and how names may be bound.
An action keeps an invariant if it adds only admitted instructions, whether it succeeds or not,
and what is said of its result refers to the ledger that it leaves. There is one rule for each
way to put actions together.
-/

namespace SsaLowering

namespace FunctionDef

variable {f : FunctionDef} {b : Block} {l : Nat}

/-- The entry is a parameter or an instruction of the function. -/
def Lists (f : FunctionDef) : LedgerEntry → Prop
  | .param t type => (t, type) ∈ f.params
  | .instr i => i ∈ f.instrs
  | .global _ => False

/-- A new instruction is added to the instructions of a function. -/
theorem perm_instrs_push (hb : f.block? l = some b) (i : Instr) :
    (f.modifyBlock l (·.push i)).instrs.Perm (i :: f.instrs) := by
  obtain ⟨done, rest, hblocks, hmodify⟩ := exists_modifyBlock hb (·.push i)
  rw [instrs, hmodify, instrs, hblocks]
  simp only [List.flatMap_append, List.flatMap_cons, Block.body_push, List.append_assoc,
    List.singleton_append]
  rw [← List.append_assoc, ← List.append_assoc]
  exact List.perm_middle

theorem mem_instrs_push (hb : f.block? l = some b) (i j : Instr) :
    j ∈ (f.modifyBlock l (·.push i)).instrs ↔ j = i ∨ j ∈ f.instrs :=
  (f.perm_instrs_push hb i).mem_iff.trans List.mem_cons

/-- So is a stack slot. -/
theorem perm_instrs_insertSlot {rest : List Block} (hf : f.blocks = b :: rest) (slot : Instr) :
    { f with blocks := Build.insertSlot slot b :: rest }.instrs.Perm (slot :: f.instrs) := by
  simp only [instrs, hf, List.flatMap_cons, Build.insertSlot, List.append_assoc, List.cons_append]
  refine List.perm_middle.trans (.of_eq ?_)
  rw [← List.append_assoc, List.takeWhile_append_dropWhile]

theorem mem_instrs_insertSlot {rest : List Block} (hf : f.blocks = b :: rest) (slot j : Instr) :
    j ∈ { f with blocks := Build.insertSlot slot b :: rest }.instrs ↔ j = slot ∨ j ∈ f.instrs :=
  (perm_instrs_insertSlot hf slot).mem_iff.trans List.mem_cons

end FunctionDef

namespace FunctionBuilder

/-- What is written down about the function under construction. -/
def entries (b : FunctionBuilder) : Ledger := {e | ∃ f, b.function = some f ∧ f.Lists e}

variable {b b' : FunctionBuilder}

theorem entries_eq (h : b'.function = b.function) : b'.entries = b.entries := by
  rw [entries, h]
  rfl

/-- Between the two states of a builder, some instructions were added. -/
theorem entries_of_added {f f' : FunctionDef} {i : Instr} (hf : b.function = some f)
    (hf' : b'.function = some f') (hparams : f'.params = f.params)
    (hinstrs : ∀ j, j ∈ f'.instrs ↔ j = i ∨ j ∈ f.instrs) :
    b'.entries = insert (.instr i) b.entries := by
  ext e
  simp only [entries, hf, hf', Option.some.injEq, exists_eq_left', Set.mem_ofPred_eq,
    Set.mem_insert_iff]
  cases e with
  | param t type => simp [FunctionDef.Lists, hparams]
  | instr j => simp [FunctionDef.Lists, hinstrs]
  | global g => simp [FunctionDef.Lists]

end FunctionBuilder

namespace Build

variable {b : FunctionBuilder}

theorem exec_function_cases (b : FunctionBuilder) :
    (∃ e, exec function b = (.error e, b)) ∨
      ∃ f, b.function = some f ∧ exec function b = (.ok f, b) := by
  cases hf : b.function with
  | none => exact .inl ⟨.noFunction, by simp [function, exec_bind, hf]⟩
  | some f => exact .inr ⟨f, rfl, by simp [function, exec_bind, hf]⟩

/-- An instruction is pushed onto the current block, which is open, or nothing happens. -/
theorem emit_cases (i : Instr) (b : FunctionBuilder) :
    (∃ e, exec (emit i) b = (.error e, b)) ∨
      ∃ f l block, b.function = some f ∧ b.current = some l ∧ f.block? l = some block ∧
        block.isTerminated = false ∧
        exec (emit i) b = (.ok (), { b with function := some (f.modifyBlock l (·.push i)) }) := by
  rcases exec_function_cases b with ⟨e, he⟩ | ⟨f, hf, hexec⟩
  · exact .inl ⟨e, exec_bind_of_error he⟩
  · rw [emit, exec_bind_of_ok hexec]
    cases hl : b.current with
    | none => exact .inl ⟨.noBlock, by simp [exec_bind, hl]⟩
    | some l =>
      cases hblock : f.block? l with
      | none => exact .inl ⟨.lostBlock, by simp [exec_bind, hl, hblock]⟩
      | some block =>
        cases hterm : block.isTerminated with
        | true => exact .inl ⟨.terminatedBlock l, by simp [exec_bind, hl, hblock, hterm]⟩
        | false =>
          exact .inr ⟨f, l, block, hf, rfl, hblock, hterm, by simp [exec_bind, hl, hblock, hterm]⟩

/-- A stack slot is put into the first block, or only its number is drawn. -/
theorem entryAlloca_cases (type : MachineType) (b : FunctionBuilder) :
    (∃ e, exec (entryAlloca type) b = (.error e, { b with nextTemp := b.nextTemp + 1 })) ∨
      ∃ f entry rest, b.function = some f ∧ f.blocks = entry :: rest ∧
        exec (entryAlloca type) b = (.ok (.temp b.nextTemp), { b with
          function := some { f with
            blocks := insertSlot (.alloca b.nextTemp type) entry :: rest }
          nextTemp := b.nextTemp + 1 }) := by
  have hdraw : exec newTemp b = (.ok b.nextTemp, { b with nextTemp := b.nextTemp + 1 }) := rfl
  rw [entryAlloca, exec_bind_of_ok hdraw]
  rcases exec_function_cases { b with nextTemp := b.nextTemp + 1 } with ⟨e, he⟩ | ⟨f, hf, hexec⟩
  · exact .inl ⟨e, exec_bind_of_error he⟩
  · rw [exec_bind_of_ok hexec]
    cases hblocks : f.blocks with
    | nil => exact .inl ⟨.noEntry, rfl⟩
    | cons entry rest => exact .inr ⟨f, entry, rest, hf, hblocks, rfl⟩

/-- An empty block is added and becomes the current one, or nothing happens. -/
theorem createBlock_cases (label : Nat) (hint : String) (b : FunctionBuilder) :
    (∃ e, exec (createBlock label hint) b = (.error e, b)) ∨
      ∃ f, b.function = some f ∧ f.block? label = none ∧
        exec (createBlock label hint) b = (.ok (), { b with
          function := some { f with blocks := f.blocks ++ [.fresh label hint] }
          current := some label }) := by
  rcases exec_function_cases b with ⟨e, he⟩ | ⟨f, hf, hexec⟩
  · exact .inl ⟨e, exec_bind_of_error he⟩
  · rw [createBlock, exec_bind_of_ok hexec]
    cases hblock : f.block? label with
    | some block => exact .inl ⟨.duplicateBlock label, by simp⟩
    | none => exact .inr ⟨f, hf, hblock, by simp⟩

/-- An instruction is added, or nothing is. -/
theorem entries_emit (i : Instr) (b : FunctionBuilder) :
    (∃ e, exec (emit i) b = (.error e, b)) ∨
      ∃ b', exec (emit i) b = (.ok (), b') ∧ b'.entries = insert (.instr i) b.entries := by
  rcases emit_cases i b with he | ⟨f, l, block, hf, -, hblock, -, hexec⟩
  · exact .inl he
  · exact .inr ⟨_, hexec, FunctionBuilder.entries_of_added hf rfl rfl
      (f.mem_instrs_push hblock i)⟩

/-- The same for an instruction with a result. -/
theorem entries_define (instr : Nat → Instr) (b : FunctionBuilder) :
    (∃ e b', exec (define instr) b = (.error e, b') ∧ b'.entries = b.entries) ∨
      ∃ t b', exec (define instr) b = (.ok (.temp t), b') ∧
        b'.entries = insert (.instr (instr t)) b.entries := by
  let t := b.nextTemp
  have hdraw : exec newTemp b = (.ok t, { b with nextTemp := t + 1 }) := rfl
  have hentries : FunctionBuilder.entries { b with nextTemp := t + 1 } = b.entries :=
    FunctionBuilder.entries_eq rfl
  rw [define, exec_bind_of_ok hdraw]
  rcases entries_emit (instr t) { b with nextTemp := t + 1 } with ⟨e, he⟩ | ⟨b', hexec, hb'⟩
  · exact .inl ⟨e, _, exec_bind_of_error he, hentries⟩
  · exact .inr ⟨t, b', exec_bind_of_ok hexec, hb'.trans (by rw [hentries])⟩

theorem entries_entryAlloca (type : MachineType) (b : FunctionBuilder) :
    (∃ e b', exec (entryAlloca type) b = (.error e, b') ∧ b'.entries = b.entries) ∨
      ∃ t b', exec (entryAlloca type) b = (.ok (.temp t), b') ∧
        b'.entries = insert (.instr (.alloca t type)) b.entries := by
  rcases entryAlloca_cases type b with ⟨e, he⟩ | ⟨f, entry, rest, hf, hblocks, hexec⟩
  · exact .inl ⟨e, _, he, FunctionBuilder.entries_eq rfl⟩
  · exact .inr ⟨b.nextTemp, _, hexec, FunctionBuilder.entries_of_added hf rfl rfl
      (FunctionDef.mem_instrs_insertSlot hblocks (.alloca b.nextTemp type))⟩

/-- Opening a block adds no instruction. -/
theorem entries_createBlock (label : Nat) (hint : String) (b : FunctionBuilder) :
    (exec (createBlock label hint) b).2.entries = b.entries := by
  rcases createBlock_cases label hint b with ⟨e, he⟩ | ⟨f, hf, -, hexec⟩
  · rw [he]
  · rw [hexec]
    ext e
    simp only [FunctionBuilder.entries, hf, Option.some.injEq, exists_eq_left', Set.mem_ofPred_eq]
    cases e <;> simp [FunctionDef.Lists, FunctionDef.instrs, Block.fresh]

end Build

namespace BodyState

/-- What is written down about the function under construction and its unit. -/
def ledger (s : BodyState) : Ledger :=
  {e | e ∈ s.builder.entries ∨ ∃ g ∈ s.globals, e = .global g}

theorem ledger_eq {s s' : BodyState} (hentries : s'.builder.entries = s.builder.entries)
    (hglobals : s'.globals = s.globals) : s'.ledger = s.ledger := by
  rw [ledger, hentries, hglobals]
  rfl

theorem ledger_insert {s : BodyState} {b : FunctionBuilder} {i : Instr}
    (h : b.entries = insert (.instr i) s.builder.entries) :
    { s with builder := b }.ledger = insert (.instr i) s.ledger := by
  ext e
  simp only [ledger, h, Set.mem_insert_iff, Set.mem_ofPred_eq]
  tauto

theorem global_mem_ledger {s : BodyState} {g : GlobalVariable} :
    .global g ∈ s.ledger ↔ g ∈ s.globals := by
  simp [ledger, FunctionBuilder.entries, FunctionDef.Lists]

end BodyState

/-- What holds in all states while a body is lowered. It is decided by what is written down, by
the global variables and by the bindings of names, and admitted instructions keep it. -/
structure Invariant where
  env : Environment
  Holds : BodyState → Prop
  Admits : Ledger → Instr → Prop
  Binds : Ledger → Binding → Prop
  admits_mono : ∀ {L L' : Ledger} {i : Instr}, Admits L i → L ⊆ L' → Admits L' i
  admits_jump : ∀ {L : Ledger} {target : Nat}, Admits L (.jump target)
  binds_used : ∀ {L : Ledger} {b : Binding}, Binds L b → Binds L { b with used := true }
  locals : ∀ {s : BodyState}, Holds s → ∀ entry ∈ s.scope.entries, Binds s.ledger entry.2
  globals : ∀ {s : BodyState}, Holds s → ∀ entry ∈ env.globals, Binds s.ledger entry.2
  rebind : ∀ {s s' : BodyState}, Holds s → s'.ledger = s.ledger → s'.globals = s.globals →
    (∀ entry ∈ s'.scope.entries, Binds s.ledger entry.2) → Holds s'
  insert : ∀ {s : BodyState} {b : FunctionBuilder} {i : Instr}, Holds s →
    b.entries = Insert.insert (.instr i) s.builder.entries → Admits s.ledger i →
    Holds { s with builder := b }

namespace Invariant

/-- Started with a ledger that goes beyond the given one, the action keeps the invariant and
only adds entries. Its result, if it has one, is as stated. -/
def Keeps {α : Type} (I : Invariant) (L : Ledger) (action : Lower α) (post : α → Ledger → Prop) :
    Prop :=
  ∀ s, I.Holds s → L ⊆ s.ledger →
    I.Holds (exec action s).2 ∧ s.ledger ⊆ (exec action s).2.ledger ∧
      ∀ a, (exec action s).1 = .ok a → post a (exec action s).2.ledger

/-- A branch on the value may be added. -/
def Decides (I : Invariant) (value : Value) (L : Ledger) : Prop :=
  ∀ ifTrue ifFalse, I.Admits L (.branch value ifTrue ifFalse)

theorem Decides.mono {I : Invariant} {value : Value} {L L' : Ledger} (h : I.Decides value L)
    (hL : L ⊆ L') : I.Decides value L' :=
  fun ifTrue ifFalse => I.admits_mono (h ifTrue ifFalse) hL

namespace Keeps

open Lower

variable {I : Invariant} {L : Ledger} {α β : Type} {post : α → Ledger → Prop}
  {post' : β → Ledger → Prop} {x : Lower α}

theorem pure {a : α} (h : ∀ L', L ⊆ L' → post a L') : I.Keeps L (Pure.pure a) post := by
  intro s hs hL
  refine ⟨hs, subset_rfl, ?_⟩
  rintro a' ⟨rfl⟩
  exact h _ hL

theorem throw (e : LoweringError) : I.Keeps L (throw e : Lower α) post := by
  intro s hs hL
  exact ⟨hs, subset_rfl, fun a ha => by cases ha⟩

theorem fail (cause : Cause) : I.Keeps L (Lower.fail cause : Lower α) post := throw _

theorem imp {post'' : α → Ledger → Prop} (h : I.Keeps L x post)
    (himp : ∀ a L', L ⊆ L' → post a L' → post'' a L') : I.Keeps L x post'' := by
  intro s hs hL
  obtain ⟨hholds, hsub, hpost⟩ := h s hs hL
  exact ⟨hholds, hsub, fun a ha => himp a _ (hL.trans hsub) (hpost a ha)⟩

/-- The second action may use what the first one says of its result. -/
theorem bind {f : α → Lower β} (hx : I.Keeps L x post)
    (hf : ∀ a L', L ⊆ L' → post a L' → I.Keeps L' (f a) post') :
    I.Keeps L (x >>= f) post' := by
  intro s hs hL
  obtain ⟨hholds, hsub, hpost⟩ := hx s hs hL
  rcases hexec : exec x s with ⟨e | a, s₁⟩
  all_goals rw [hexec] at hholds hsub hpost
  · rw [exec_bind_of_error hexec]
    exact ⟨hholds, hsub, fun b hb => by cases hb⟩
  · rw [exec_bind_of_ok hexec]
    obtain ⟨hholds', hsub', hpost'⟩ := hf a s₁.ledger (hL.trans hsub) (hpost a rfl) s₁ hholds
      subset_rfl
    exact ⟨hholds', hsub.trans hsub', hpost'⟩

/-- A choice is made, or the action fails. -/
theorem orFail_bind {result : Option α} {cause : Cause} {f : α → Lower β}
    (hf : ∀ a, result = some a → I.Keeps L (f a) post') :
    I.Keeps L (orFail result cause >>= f) post' := by
  cases result with
  | none =>
    have hfail : I.Keeps L (Lower.fail cause : Lower α) fun _ _ => False := fail cause
    exact hfail.bind fun a L' hL h => h.elim
  | some a => exact hf a rfl

theorem tryCatch {handler : LoweringError → Lower α} (hx : I.Keeps L x post)
    (hhandler : ∀ e L', L ⊆ L' → I.Keeps L' (handler e) post) :
    I.Keeps L (tryCatch x handler) post := by
  intro s hs hL
  obtain ⟨hholds, hsub, hpost⟩ := hx s hs hL
  rw [exec_tryCatch]
  rcases hexec : exec x s with ⟨e | a, s₁⟩
  all_goals rw [hexec] at hholds hsub hpost
  · obtain ⟨hholds', hsub', hpost'⟩ := hhandler e s₁.ledger (hL.trans hsub) s₁ hholds subset_rfl
    exact ⟨hholds', hsub.trans hsub', hpost'⟩
  · exact ⟨hholds, hsub, hpost⟩

theorem located {location : Option Location} (h : I.Keeps L x post) :
    I.Keeps L (located location x) post :=
  h.tryCatch fun _ _ _ => throw _

/-- Behind a failure, nothing is carried out. -/
theorem throw_bind (e : LoweringError) {f : α → Lower β} :
    I.Keeps L ((MonadExcept.throw e : Lower α) >>= f) post' := by
  have hthrow : I.Keeps L (MonadExcept.throw e : Lower α) fun _ _ => False := throw e
  exact hthrow.bind fun a L' hL h => h.elim

/-- An action that is carried out only if a condition holds. -/
theorem guarded {p : Prop} [Decidable p] {e : LoweringError} {next : Unit → Lower α}
    (h : p → I.Keeps L (next ()) post) :
    I.Keeps L (if p then next () else MonadExcept.throw e >>= next) post := by
  split
  · next hp => exact h hp
  · exact throw_bind e

theorem guarded' {p : Prop} [Decidable p] {e : LoweringError} {next : Unit → Lower α}
    (h : ¬ p → I.Keeps L (next ()) post) :
    I.Keeps L (if p then MonadExcept.throw e >>= next else next ()) post := by
  split
  · exact throw_bind e
  · next hp => exact h hp

/-! ## Actions that add nothing -/

/-- An action that leaves what is written down and bound. -/
theorem of_quiet (h : ∀ s, (exec x s).2.ledger = s.ledger ∧
      (exec x s).2.globals = s.globals ∧ (exec x s).2.scope = s.scope)
    (hpost : ∀ s, I.Holds s → L ⊆ s.ledger → ∀ a, (exec x s).1 = .ok a → post a s.ledger) :
    I.Keeps L x post := by
  intro s hs hL
  obtain ⟨hledger, hglobals, hscope⟩ := h s
  rw [hledger]
  refine ⟨I.rebind hs hledger hglobals ?_, subset_rfl, hpost s hs hL⟩
  rw [hscope]
  exact I.locals hs

theorem get : I.Keeps L (get : Lower BodyState) fun _ _ => True :=
  of_quiet (fun _ => ⟨rfl, rfl, rfl⟩) fun _ _ _ _ _ => trivial

theorem report (d : Diagnostic) : I.Keeps L (report d) fun _ _ => True :=
  of_quiet (fun _ => ⟨rfl, rfl, rfl⟩) fun _ _ _ _ _ => trivial

theorem warn (w : Warning) (location : Option Location) :
    I.Keeps L (Lower.warn w location) fun _ _ => True := report _

theorem recovering {action : Lower Unit} (h : I.Keeps L action fun _ _ => True) :
    I.Keeps L (recovering action) fun _ _ => True :=
  h.tryCatch fun _ _ _ => report _

theorem checkKnown (env : Environment) (type : SourceType) (location : Option Location) :
    I.Keeps L (Lower.checkKnown env type location) fun _ _ => True := by
  rw [Lower.checkKnown]
  split
  · exact pure fun _ _ => trivial
  · exact warn _ location

/-- An action of the builder that adds no instruction. -/
theorem build_of_quiet {action : Build α}
    (h : ∀ b, (exec action b).2.entries = b.entries) :
    I.Keeps L (build action) fun _ _ => True := by
  apply of_quiet
  · intro s
    have hentries := h s.builder
    rw [exec_build]
    rcases hexec : exec action s.builder with ⟨e | a, b⟩
    all_goals rw [hexec] at hentries
    · exact ⟨BodyState.ledger_eq hentries rfl, rfl, rfl⟩
    · exact ⟨BodyState.ledger_eq hentries rfl, rfl, rfl⟩
  · exact fun _ _ _ _ _ => trivial

theorem newLabel : I.Keeps L (build Build.newLabel) fun _ _ => True :=
  build_of_quiet fun _ => FunctionBuilder.entries_eq rfl

theorem createBlock (label : Nat) (hint : String) :
    I.Keeps L (build (Build.createBlock label hint)) fun _ _ => True :=
  build_of_quiet (Build.entries_createBlock label hint)

theorem appendBlock (hint : String) :
    I.Keeps L (build (Build.appendBlock hint)) fun _ _ => True := by
  rw [Build.appendBlock, build_bind]
  refine newLabel.bind fun label L₁ _ _ => ?_
  rw [build_bind]
  refine (createBlock label hint).bind fun _ L₂ _ _ => ?_
  rw [build_pure]
  exact pure fun _ _ => trivial

/-! ## Actions that add an instruction -/

theorem emit {i : Instr} (h : I.Admits L i) :
    I.Keeps L (build (Build.emit i)) fun _ _ => True := by
  intro s hs hL
  rw [exec_build]
  rcases Build.entries_emit i s.builder with ⟨e, he⟩ | ⟨b, hexec, hb⟩
  · rw [he]
    exact ⟨hs, subset_rfl, fun _ _ => trivial⟩
  · rw [hexec]
    refine ⟨I.insert hs hb (I.admits_mono h hL), ?_, fun _ _ => trivial⟩
    rw [BodyState.ledger_insert hb]
    exact Set.subset_insert _ _

/-- The result of the instruction is a temporary. -/
theorem of_defining {action : Build Value} {instr : Nat → Instr}
    (haction : ∀ b, (∃ e b', exec action b = (.error e, b') ∧ b'.entries = b.entries) ∨
      ∃ t b', exec action b = (.ok (.temp t), b') ∧
        b'.entries = Insert.insert (.instr (instr t)) b.entries)
    (h : ∀ t, I.Admits L (instr t)) :
    I.Keeps L (build action) fun v L' => ∃ t, v = .temp t ∧ .instr (instr t) ∈ L' := by
  intro s hs hL
  rw [exec_build]
  rcases haction s.builder with ⟨e, b, hexec, hb⟩ | ⟨t, b, hexec, hb⟩
  · rw [hexec]
    have hledger : { s with builder := b }.ledger = s.ledger := BodyState.ledger_eq hb rfl
    refine ⟨I.rebind hs hledger rfl (I.locals hs), hledger.ge, fun v hv => by cases hv⟩
  · rw [hexec]
    rw [BodyState.ledger_insert hb]
    refine ⟨I.insert hs hb (I.admits_mono (h t) hL), Set.subset_insert _ _, ?_⟩
    rintro v ⟨rfl⟩
    exact ⟨t, rfl, Set.mem_insert _ _⟩

theorem define {instr : Nat → Instr} (h : ∀ t, I.Admits L (instr t)) :
    I.Keeps L (build (Build.define instr))
      fun v L' => ∃ t, v = .temp t ∧ .instr (instr t) ∈ L' :=
  of_defining (Build.entries_define instr) h

theorem entryAlloca {type : MachineType} (h : ∀ t, I.Admits L (.alloca t type)) :
    I.Keeps L (build (Build.entryAlloca type))
      fun v L' => ∃ t, v = .temp t ∧ .instr (.alloca t type) ∈ L' :=
  of_defining (Build.entries_entryAlloca type) h

/-! ## Leaving blocks -/

theorem jumpTo (target label : Nat) (hint : String) :
    I.Keeps L (jumpTo target label hint) fun _ _ => True :=
  (emit I.admits_jump).bind fun _ _ _ _ => createBlock label hint

theorem branchTo {condition : Value} (h : I.Decides condition L)
    (ifTrue ifFalse label : Nat) (hint : String) :
    I.Keeps L (branchTo condition ifTrue ifFalse label hint) fun _ _ => True :=
  (emit (h ifTrue ifFalse)).bind fun _ _ _ _ => createBlock label hint

theorem isTerminated : I.Keeps L isTerminated fun _ _ => True :=
  get.bind fun _ _ _ _ => pure fun _ _ => trivial

theorem proceedTo (target label : Nat) (hint : String) :
    I.Keeps L (proceedTo target label hint) fun _ _ => True := by
  have hjump : I.Keeps L (fallThrough target) fun _ _ => True := by
    refine isTerminated.bind fun terminated L' _ _ => ?_
    split
    · exact pure fun _ _ => trivial
    · exact emit I.admits_jump
  exact hjump.bind fun _ _ _ _ => createBlock label hint

theorem openIfTerminated : I.Keeps L Lower.openIfTerminated fun _ _ => True := by
  refine isTerminated.bind fun terminated L₁ _ _ => ?_
  split
  · exact (appendBlock "dead").bind fun _ _ _ _ => pure fun _ _ => trivial
  · exact pure fun _ _ => trivial

/-! ## Control -/

theorem openFork (isAnd : Bool) {lhs : Value} (h : I.Decides lhs L) :
    I.Keeps L (Lower.openFork isAnd lhs) fun _ _ => True := by
  unfold Lower.openFork
  refine newLabel.bind fun _ L₁ hL₁ _ => newLabel.bind fun _ L₂ hL₂ _ => ?_
  exact (branchTo (h.mono (hL₁.trans hL₂)) _ _ _ _).bind fun _ _ _ _ => pure fun _ _ => trivial

theorem openBranch {value : Value} (h : I.Decides value L) :
    I.Keeps L (Lower.openBranch value) fun _ _ => True := by
  unfold Lower.openBranch
  refine newLabel.bind fun _ L₁ hL₁ _ => newLabel.bind fun _ L₂ hL₂ _ =>
    newLabel.bind fun _ L₃ hL₃ _ => ?_
  have hvalue := h.mono (hL₁.trans (hL₂.trans hL₃))
  exact (branchTo hvalue _ _ _ _).bind fun _ _ _ _ => pure fun _ _ => trivial

theorem lowerBranch {condition : Lower Value} {thenBranch elseBranch : Lower Unit}
    (hcondition : I.Keeps L condition I.Decides)
    (hthen : ∀ L, I.Keeps L thenBranch fun _ _ => True)
    (helse : ∀ L, I.Keeps L elseBranch fun _ _ => True) :
    I.Keeps L (Lower.lowerBranch condition thenBranch elseBranch) fun _ _ => True := by
  refine hcondition.bind fun value L₁ _ hvalue => (openBranch hvalue).bind fun labels L₂ _ _ => ?_
  refine (hthen L₂).bind fun _ L₃ _ _ => (proceedTo _ _ _).bind fun _ L₄ _ _ => ?_
  exact (helse L₄).bind fun _ _ _ _ => proceedTo _ _ _

theorem openWhile : I.Keeps L Lower.openWhile fun _ _ => True := by
  unfold Lower.openWhile
  refine newLabel.bind fun _ _ _ _ => newLabel.bind fun _ _ _ _ => newLabel.bind fun _ _ _ _ => ?_
  exact (jumpTo _ _ _).bind fun _ _ _ _ => pure fun _ _ => trivial

theorem openFor : I.Keeps L Lower.openFor fun _ _ => True := by
  unfold Lower.openFor
  refine newLabel.bind fun _ _ _ _ => newLabel.bind fun _ _ _ _ => newLabel.bind fun _ _ _ _ =>
    newLabel.bind fun _ _ _ _ => ?_
  exact (jumpTo _ _ _).bind fun _ _ _ _ => pure fun _ _ => trivial

theorem enterBody {condition : Option (Lower Value)} (labels : LoopLabels) (hint : String)
    (hcondition : ∀ test, condition = some test → I.Keeps L test I.Decides) :
    I.Keeps L (Lower.enterBody condition labels hint) fun _ _ => True := by
  cases condition with
  | none => exact jumpTo _ _ hint
  | some condition =>
    exact (hcondition condition rfl).bind fun _ _ _ hvalue => branchTo hvalue _ _ _ hint

theorem lowerWhile {condition : Lower Value} {body : Lower Unit}
    (hcondition : ∀ L, I.Keeps L condition I.Decides)
    (hbody : ∀ L, I.Keeps L body fun _ _ => True) :
    I.Keeps L (Lower.lowerWhile condition body) fun _ _ => True := by
  refine openWhile.bind fun labels L₁ _ _ => ?_
  refine (enterBody labels _ fun test htest => ?_).bind fun _ L₂ _ _ => ?_
  · obtain rfl := Option.some.inj htest
    exact hcondition L₁
  · exact (hbody L₂).bind fun _ _ _ _ => proceedTo _ _ _

theorem lowerFor {init update body : Lower Unit} {condition : Option (Lower Value)}
    (hinit : ∀ L, I.Keeps L init fun _ _ => True)
    (hcondition : ∀ L, ∀ test, condition = some test → I.Keeps L test I.Decides)
    (hupdate : ∀ L, I.Keeps L update fun _ _ => True)
    (hbody : ∀ L, I.Keeps L body fun _ _ => True) :
    I.Keeps L (Lower.lowerFor init condition update body) fun _ _ => True := by
  refine (hinit L).bind fun _ L₁ _ _ => openFor.bind fun labels L₂ _ _ => ?_
  refine (enterBody labels _ (hcondition L₂)).bind fun _ L₃ _ _ => ?_
  refine (hbody L₃).bind fun _ L₄ _ _ => (proceedTo _ _ _).bind fun _ L₅ _ _ => ?_
  exact (hupdate L₅).bind fun _ _ _ _ => jumpTo _ _ _

/-- One statement of a block, in a new block if the current one is terminated, and the rest. -/
theorem blockStep {first rest : Lower Unit} (hfirst : ∀ L, I.Keeps L first fun _ _ => True)
    (hrest : ∀ L, I.Keeps L rest fun _ _ => True) :
    I.Keeps L
      (do
        let opened ← MonadExcept.tryCatch (do Lower.openIfTerminated; return true) fun e => do
          Lower.report e.toDiagnostic
          return false
        if opened then
          Lower.recovering first
          rest) fun _ _ => True := by
  have hopen : I.Keeps L
      (MonadExcept.tryCatch (do Lower.openIfTerminated; return true) fun e => do
        Lower.report e.toDiagnostic
        return false) fun _ _ => True :=
    (openIfTerminated.bind fun _ _ _ _ => pure fun _ _ => trivial).tryCatch fun e L₁ _ =>
      (report e.toDiagnostic).bind fun _ _ _ _ => pure fun _ _ => trivial
  refine hopen.bind fun opened L₁ _ _ => ?_
  split
  · exact (recovering (hfirst L₁)).bind fun _ L₂ _ _ => hrest L₂
  · exact pure fun _ _ => trivial

/-! ## Names -/

theorem binds_markUsed {scope : Scope} (name : String)
    (h : ∀ entry ∈ scope.entries, I.Binds L entry.2) :
    ∀ entry ∈ (scope.markUsed name).entries, I.Binds L entry.2 := by
  intro entry he
  obtain ⟨old, hold, rfl⟩ := List.mem_map.mp he
  dsimp only
  split
  · exact I.binds_used (h old hold)
  · exact h old hold

theorem binds_lookup {entries : List (String × Binding)} {name : String} {b : Binding}
    (h : ∀ entry ∈ entries, I.Binds L entry.2) (hb : entries.lookup name = some b) :
    I.Binds L b := by
  obtain ⟨front, rest, rfl, -⟩ := List.lookup_eq_some_iff.mp hb
  exact h (name, b) (by simp)

theorem readBinding? (name : String) :
    I.Keeps L (Lower.readBinding? I.env name) fun result L' => ∀ b, result = some b →
      I.Binds L' b := by
  intro s hs hL
  have hlocals := binds_markUsed name (I.locals hs)
  have hholds : I.Holds { s with scope := s.scope.markUsed name } := I.rebind hs rfl rfl hlocals
  simp only [Lower.readBinding?, exec_bind, exec_get, exec_set, Scope.read]
  cases hfind : (s.scope.markUsed name).find? name with
  | some b =>
    refine ⟨hholds, subset_rfl, ?_⟩
    rintro _ ⟨rfl⟩ b' ⟨rfl⟩
    exact binds_lookup hlocals hfind
  | none =>
    refine ⟨hholds, subset_rfl, ?_⟩
    rintro _ ⟨rfl⟩ b' hb'
    exact binds_lookup (I.globals hholds) hb'

theorem peekBinding? (name : String) :
    I.Keeps L (Lower.peekBinding? I.env name) fun result L' => ∀ b, result = some b →
      I.Binds L' b := by
  intro s hs hL
  simp only [Lower.peekBinding?, exec_bind, exec_get]
  cases hfind : s.scope.find? name with
  | some b =>
    refine ⟨hs, subset_rfl, ?_⟩
    rintro _ ⟨rfl⟩ b' ⟨rfl⟩
    exact binds_lookup (I.locals hs) hfind
  | none =>
    refine ⟨hs, subset_rfl, ?_⟩
    rintro _ ⟨rfl⟩ b' hb'
    exact binds_lookup (I.globals hs) hb'

/-- A new binding of a name to a slot of its own. -/
theorem declareLocal {decl : VariableDecl Term} {source : SourceType} {type : MachineType}
    {slot : Value}
    (h : ∀ L', L ⊆ L' →
      I.Binds L' ⟨.stack slot, source, type, decl.isMutable, false, decl.location⟩) :
    I.Keeps L (Lower.declareLocal decl source type slot) fun _ _ => True := by
  intro s hs hL
  refine ⟨I.rebind hs rfl rfl fun entry he => ?_, subset_rfl, fun _ _ => trivial⟩
  rcases List.mem_append.mp he with he | he
  · exact I.locals hs entry (List.mem_filter.mp he).1
  · obtain rfl := List.mem_singleton.mp he
    exact h s.ledger hL

end Keeps

end Invariant

end SsaLowering
