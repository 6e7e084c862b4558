import SsaLowering.Proofs.ExpressionCode
import SsaLowering.Proofs.Likeness
import SsaLowering.Proofs.StringPool

/-!
# Two bodies side by side

The lowering of a body does not depend on what the log and the pool of string literals held
before. To see this, it is carried out twice side by side. The values in the two runs are the same,
apart from the addresses of string literals: the literals at the same places have the same texts,
but their constants may have different numbers.
-/

namespace SsaLowering

open StringPool

/-- The warning about a variable that is never read. -/
def Diagnostic.IsUnused (d : Diagnostic) : Prop :=
  ∃ name location, (Warning.unusedVariable name).toDiagnostic location = d

theorem LoweringError.not_isUnused (e : LoweringError) : ¬ e.toDiagnostic.IsUnused := by
  rintro ⟨name, location, h⟩
  cases congrArg Diagnostic.severity h

/-- Only that warning comes with a remark. -/
theorem Warning.not_isUnused {w : Warning} (hw : w.remarks = []) (location : Option Location) :
    ¬ (w.toDiagnostic location).IsUnused := by
  rintro ⟨name, location', h⟩
  have hremarks : (Warning.unusedVariable name).remarks = w.remarks := congrArg Diagnostic.notes h
  rw [hw] at hremarks
  cases hremarks

/-- Signatures that call for the same types, whoever owns the functions. -/
def Signature.SameFace (s s' : Signature) : Prop := s' = { s with owner := s'.owner }

theorem Signature.sameFace_rel (result : Option Signature) :
    Option.Rel Signature.SameFace result result := by
  cases result with
  | none => exact .none
  | some signature => exact .some rfl

/-- The texts in the pools of two runs. -/
structure PoolTexts where
  left : List String
  right : List String

/-- Both pools only grow at their ends. -/
instance : Preorder PoolTexts where
  le w w' := w.left <+: w'.left ∧ w.right <+: w'.right
  le_refl _ := ⟨List.prefix_rfl, List.prefix_rfl⟩
  le_trans _ _ _ h h' := ⟨h.1.trans h'.1, h.2.trans h'.2⟩

/-- What two runs have in common, and what they do not. -/
structure Comparison where
  /-- The diagnostics that were there before the first run. -/
  before : List Diagnostic
  /-- Those that were there before the second run. -/
  before' : List Diagnostic
  /-- The global variables that are the same in both runs. -/
  shared : String → Prop
  /-- Whether both runs begin with the same pool. -/
  exact : Prop

namespace Comparison

/-- The value means the same in both runs. -/
def Fixed (c : Comparison) (v : Value) : Prop := ∀ name, v = .global name → c.shared name

/-- What a name is bound to means the same in both runs. -/
def FixedPlace (c : Comparison) : Storage → Prop
  | .stack v | .direct v => c.Fixed v
  | .global name => c.shared name

/-- The values are the same, or they are the addresses of two constants with the same text. -/
inductive Like (c : Comparison) (w : PoolTexts) : Value → Value → Prop
  | same {v : Value} : c.Fixed v → Like c w v v
  | literal {text : String} {number number' : Nat} : w.left.idxOf? text = some number →
    w.right.idxOf? text = some number' →
      Like c w (.global (nameOf number)) (.global (nameOf number'))

/-- Two values of the same types. -/
def LikeTyped (c : Comparison) (w : PoolTexts) (v v' : TypedValue) : Prop :=
  ∃ value, c.Like w v.value value ∧ v' = { v with value }

/-- The states of two runs, side by side. -/
structure Coupled (c : Comparison) (w : PoolTexts) (s s' : BodyState) : Prop where
  left : texts s.globals = w.left
  right : texts s'.globals = w.right
  exact : c.exact → s'.globals = s.globals
  builder : s.builder.Like (c.Like w) s'.builder
  scope : s'.scope = s.scope
  places : ∀ entry ∈ s.scope.entries, c.FixedPlace entry.2.storage
  log : ∃ reported, s.log.entries = c.before ++ reported ∧
    s'.log.entries = c.before' ++ reported ∧ ∀ d ∈ reported, ¬ d.IsUnused

/-- What the two bodies can refer to is the same, but for who owns a function that is called. The
second body is lowered with a table of functions of its own. -/
structure Meets (c : Comparison) (env : Environment) (functions : List (String × Signature)) :
    Prop where
  functions : ∀ name,
    Option.Rel Signature.SameFace (env.functions.lookup name) (functions.lookup name)
  globals : ∀ entry ∈ env.globals, c.FixedPlace entry.2.storage

variable {c : Comparison} {w w' : PoolTexts} {v v' : Value} {s s' : BodyState}

theorem fixed_of_ne (h : ∀ name, v ≠ .global name) : c.Fixed v :=
  fun name hname => absurd hname (h name)

theorem fixed_temp {t : Nat} (h : v = .temp t) : c.Fixed v := by
  rw [h]
  exact fixed_of_ne fun _ => Value.noConfusion

theorem Like.of_ne (h : ∀ name, v ≠ .global name) : c.Like w v v := .same (fixed_of_ne h)

/-- The number of a text in the pool stays the same. -/
theorem idxOf?_of_isPrefix {l l' : List String} {text : String} {number : Nat} (h : l <+: l')
    (hindex : l.idxOf? text = some number) : l'.idxOf? text = some number := by
  obtain ⟨rest, rfl⟩ := h
  rw [List.idxOf?] at hindex ⊢
  rw [List.findIdx?_append, hindex]
  rfl

theorem Like.mono (h : c.Like w v v') (hw : w ≤ w') : c.Like w' v v' := by
  cases h with
  | same h => exact .same h
  | literal hleft hright =>
    exact .literal (idxOf?_of_isPrefix hw.1 hleft) (idxOf?_of_isPrefix hw.2 hright)

theorem LikeTyped.mono {v v' : TypedValue} (h : c.LikeTyped w v v') (hw : w ≤ w') :
    c.LikeTyped w' v v' :=
  ⟨h.choose, h.choose_spec.1.mono hw, h.choose_spec.2⟩

/-! ## Actions side by side -/

section Actions

variable {α β : Type} {x x' : Lower α} {Q : PoolTexts → α → α → Prop}
  {R : PoolTexts → β → β → Prop}

theorem fail (cause : Cause) :
    Parallel c.Coupled w (Lower.fail cause) (Lower.fail cause) Q := .throw _

theorem orFail_bind {result : Option α} {cause : Cause} {f f' : α → Lower β}
    (h : ∀ a, result = some a → Parallel c.Coupled w (f a) (f' a) R) :
    Parallel c.Coupled w (Lower.orFail result cause >>= f)
      (Lower.orFail result cause >>= f') R := by
  cases result with
  | none => exact .throw_bind _
  | some a => exact h a rfl

theorem get : Quiet c.Coupled w (get : Lower BodyState) get (c.Coupled w) :=
  fun _ _ hs => ⟨w, le_rfl, hs, .ok ⟨rfl, hs⟩⟩

/-- A builder that is alike takes the place of the other. -/
theorem Coupled.withBuilder (hs : c.Coupled w s s') {b b' : FunctionBuilder}
    (hb : b.Like (c.Like w) b') :
    c.Coupled w { s with builder := b } { s' with builder := b' } :=
  ⟨hs.left, hs.right, hs.exact, hb, hs.scope, hs.places, hs.log⟩

theorem build {x x' : Build α} {Q : α → α → Prop} (h : Build.Like (c.Like w) x x' Q) :
    Quiet c.Coupled w (Lower.build x) (Lower.build x') Q := by
  intro s s' hs
  obtain ⟨_, -, hb, hout⟩ := h _ _ hs.builder
  refine ⟨w, le_rfl, ?_⟩
  rw [Lower.exec_build, Lower.exec_build]
  rcases hexec : exec x s.builder with ⟨r, b⟩
  rcases hexec' : exec x' s'.builder with ⟨r', b'⟩
  rw [hexec, hexec'] at hb hout
  cases hout with
  | ok ha => exact ⟨hs.withBuilder hb, .ok ⟨rfl, ha⟩⟩
  | error e => exact ⟨hs.withBuilder hb, .error _⟩

/-- The same is reported in both runs. -/
theorem Coupled.report (hs : c.Coupled w s s') {d : Diagnostic} (hd : ¬ d.IsUnused) :
    c.Coupled w { s with log := s.log.report d } { s' with log := s'.log.report d } := by
  obtain ⟨reported, hlog, hlog', hreported⟩ := hs.log
  refine ⟨hs.left, hs.right, hs.exact, hs.builder, hs.scope, hs.places, reported ++ [d],
    ?_, ?_, ?_⟩
  · rw [DiagnosticLog.entries_report, hlog, List.append_assoc]
  · rw [DiagnosticLog.entries_report, hlog', List.append_assoc]
  · exact List.forall_mem_append.mpr ⟨hreported, by simpa using hd⟩

theorem report {d : Diagnostic} (hd : ¬ d.IsUnused) :
    Quiet c.Coupled w (Lower.report d) (Lower.report d) fun _ _ => True :=
  fun _ _ hs => ⟨w, le_rfl, hs.report hd, .ok ⟨rfl, trivial⟩⟩

theorem warn {warning : Warning} (h : warning.remarks = []) (location : Option Location) :
    Quiet c.Coupled w (Lower.warn warning location) (Lower.warn warning location)
      fun _ _ => True :=
  report (Warning.not_isUnused h location)

theorem tryCatch {handler handler' : LoweringError → Lower α} (hx : Parallel c.Coupled w x x' Q)
    (hhandler : ∀ w' e, w ≤ w' → Parallel c.Coupled w' (handler e) (handler' e) Q) :
    Parallel c.Coupled w (tryCatch x handler) (tryCatch x' handler') Q := by
  intro s s' hs
  obtain ⟨w₁, hw₁, hs₁, hout⟩ := hx s s' hs
  rw [Lower.exec_tryCatch, Lower.exec_tryCatch]
  rcases hexec : exec x s with ⟨r, s₁⟩
  rcases hexec' : exec x' s' with ⟨r', s₁'⟩
  rw [hexec, hexec'] at hs₁ hout
  cases hout with
  | ok ha => exact ⟨w₁, hw₁, hs₁, .ok ha⟩
  | error e =>
    obtain ⟨w₂, hw₂, hs₂, hout⟩ := hhandler w₁ e hw₁ _ _ hs₁
    exact ⟨w₂, hw₁.trans hw₂, hs₂, hout⟩

theorem located {location : Option Location} (h : Parallel c.Coupled w x x' Q) :
    Parallel c.Coupled w (Lower.located location x) (Lower.located location x') Q :=
  tryCatch h fun _ _ _ => .throw _

theorem recovering {x x' : Lower Unit} (h : Parallel c.Coupled w x x' fun _ _ _ => True) :
    Parallel c.Coupled w (Lower.recovering x) (Lower.recovering x') fun _ _ _ => True :=
  tryCatch h fun _ e _ => (report e.not_isUnused).parallel fun _ _ _ => trivial

/-! ### Blocks -/

theorem isTerminated :
    Quiet c.Coupled w Lower.isTerminated Lower.isTerminated fun b b' => b' = b :=
  get.bind fun _ _ hs => Quiet.pure hs.builder.isTerminated

theorem fallThrough (target : Nat) :
    Quiet c.Coupled w (Lower.fallThrough target) (Lower.fallThrough target) fun _ _ => True := by
  refine isTerminated.bind fun b b' hb => ?_
  rw [hb]
  split
  · exact Quiet.pure trivial
  · exact build (Build.like_emit (.jump target))

theorem proceedTo (target label : Nat) (hint : String) :
    Quiet c.Coupled w (Lower.proceedTo target label hint) (Lower.proceedTo target label hint)
      fun _ _ => True :=
  (fallThrough target).bind fun _ _ _ => build (Build.like_createBlock label hint)

theorem jumpTo (target label : Nat) (hint : String) :
    Quiet c.Coupled w (Lower.jumpTo target label hint) (Lower.jumpTo target label hint)
      fun _ _ => True :=
  (build (Build.like_emit (.jump target))).bind fun _ _ _ =>
    build (Build.like_createBlock label hint)

theorem branchTo (h : c.Like w v v') (ifTrue ifFalse label : Nat) (hint : String) :
    Quiet c.Coupled w (Lower.branchTo v ifTrue ifFalse label hint)
      (Lower.branchTo v' ifTrue ifFalse label hint) fun _ _ => True :=
  (build (Build.like_emit (.branch ifTrue ifFalse h))).bind fun _ _ _ =>
    build (Build.like_createBlock label hint)

end Actions

/-! ## Names -/

section Names

/-- A binding that means the same in both runs. -/
def FixedBinding (c : Comparison) (result result' : Option Binding) : Prop :=
  result' = result ∧ ∀ b, result = some b → c.FixedPlace b.storage

theorem fixedBinding_of_mem {entries : List (String × Binding)}
    (h : ∀ entry ∈ entries, c.FixedPlace entry.2.storage) (name : String) :
    c.FixedBinding (entries.lookup name) (entries.lookup name) :=
  ⟨rfl, fun _ hb => h _ (mem_of_lookup hb)⟩

/-- Marking a name leaves what it is bound to. -/
theorem Coupled.markUsed (hs : c.Coupled w s s') (name : String) :
    c.Coupled w { s with scope := s.scope.markUsed name }
      { s' with scope := s'.scope.markUsed name } := by
  refine ⟨hs.left, hs.right, hs.exact, hs.builder, by rw [hs.scope], ?_, hs.log⟩
  intro entry hentry
  obtain ⟨old, hold, -, hstorage⟩ := Scope.exists_of_mem_markUsed hentry
  exact hstorage ▸ hs.places old hold

variable {env : Environment} {functions : List (String × Signature)}

theorem readBinding? (hmeets : c.Meets env functions) (name : String) :
    Quiet c.Coupled w (Lower.readBinding? env name)
      (Lower.readBinding? { env with functions } name) c.FixedBinding := by
  intro s s' hs
  have hmarked := hs.markUsed name
  have hlocal := fixedBinding_of_mem hmarked.places name
  rw [hs.scope] at hmarked
  refine ⟨w, le_rfl, ?_⟩
  simp only [Lower.readBinding?, exec_bind, exec_get, exec_set, Scope.read, hs.scope]
  cases hfind : (s.scope.markUsed name).find? name with
  | some b => exact ⟨hmarked, .ok ⟨trivial, hfind ▸ hlocal⟩⟩
  | none => exact ⟨hmarked, .ok ⟨trivial, fixedBinding_of_mem hmeets.globals name⟩⟩

theorem peekBinding? (hmeets : c.Meets env functions) (name : String) :
    Quiet c.Coupled w (Lower.peekBinding? env name)
      (Lower.peekBinding? { env with functions } name) c.FixedBinding := by
  refine get.bind fun s s' hs => ?_
  rw [hs.scope]
  have hlocal := fixedBinding_of_mem hs.places name
  cases hfind : s.scope.find? name with
  | some b => exact Quiet.pure (hfind ▸ hlocal)
  | none => exact Quiet.pure (fixedBinding_of_mem hmeets.globals name)

theorem checkKnown (type : SourceType) (location : Option Location) :
    Quiet c.Coupled w (Lower.checkKnown env type location)
      (Lower.checkKnown { env with functions } type location) fun _ _ => True := by
  unfold Lower.checkKnown
  dsimp only
  split
  · exact Quiet.pure trivial
  · exact warn rfl location

end Names

end Comparison

end SsaLowering
