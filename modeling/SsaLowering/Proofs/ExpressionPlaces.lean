import SsaLowering.Proofs.Diagnostics
import SsaLowering.Proofs.ExpressionCode

/-!
# Where the findings about expressions are placed

An action that fails mostly does not know where it stands. Every expression places the errors of
what it does by itself, and hands on those that its parts have placed. So whatever is found while
an expression is lowered stands at the expression or at an expression inside it. There is one rule
for each way to put actions together, and one statement for each action.
-/

namespace SsaLowering

mutual

/-- The places of an expression and of all expressions inside it. -/
def Term.locations : Term → List (Option Location)
  | .literal location _ | .variable location _ | .alloc location _ => [location]
  | .call location _ args => location :: Term.allLocations args
  | .unary location _ part | .cast location _ part | .member location part _ =>
    location :: part.locations
  | .binary location _ first second | .assign location first second =>
    location :: (first.locations ++ second.locations)
termination_by structural term => term

def Term.allLocations : List Term → List (Option Location)
  | [] => []
  | term :: rest => term.locations ++ Term.allLocations rest
termination_by structural terms => terms

end

theorem LoweringError.location_orAt (e : LoweringError) (location : Option Location) :
    (e.orAt location).location = e.location.or location := by
  obtain ⟨cause, _ | place⟩ := e <;> rfl

theorem LoweringError.location_orAt_mem {e : LoweringError} {location : Option Location}
    {places : List (Option Location)} (he : e.location = none ∨ e.location ∈ places)
    (hlocation : location ∈ places) : (e.orAt location).location ∈ places := by
  rw [e.location_orAt]
  cases hplace : e.location with
  | none => exact hlocation
  | some place => simpa [hplace] using he

/-- Errors about numerals are not placed. -/
theorem location_of_lowerNumeral {numeral : String} {e : LoweringError}
    (h : lowerNumeral numeral = .error e) : e.location = none := by
  unfold lowerNumeral at h
  split at h <;> split at h <;> cases h <;> rfl

/-- From one state to the other, whatever was reported and every new variable stands at one of the
places. A variable that is not read yet was declared before, or it is new. -/
structure BodyState.Confined (places : List (Option Location)) (s s' : BodyState) : Prop where
  log : s.log.Extends (·.location ∈ places) s'.log
  scope : ∀ entry ∈ s'.scope.entries, entry.2.used = false →
    entry ∈ s.scope.entries ∨ entry.2.location ∈ places

namespace BodyState.Confined

variable {places places' : List (Option Location)} {s s' s'' : BodyState}

/-- Neither the log nor the scope has changed. -/
theorem of_eq (hlog : s'.log = s.log) (hscope : s'.scope = s.scope) : s.Confined places s' :=
  ⟨.of_eq hlog, fun _ hentry _ => .inl (hscope ▸ hentry)⟩

theorem refl (s : BodyState) : s.Confined places s := of_eq rfl rfl

theorem trans (h : s.Confined places s') (h' : s'.Confined places s'') :
    s.Confined places s'' where
  log := h.log.trans h'.log
  scope := fun entry hentry hused =>
    (h'.scope entry hentry hused).elim (fun hmem => h.scope entry hmem hused) .inr

theorem mono (h : s.Confined places s') (hsub : places ⊆ places') : s.Confined places' s' where
  log := h.log.mono fun _ hd => hsub hd
  scope := fun entry hentry hused => (h.scope entry hentry hused).imp_right fun hmem => hsub hmem

theorem report {d : Diagnostic} (h : s.Confined places s') (hd : d.location ∈ places) :
    s.Confined places { s' with log := s'.log.report d } :=
  ⟨h.log.trans (DiagnosticLog.extends_report _ hd), h.scope⟩

/-- A variable that is not read yet was not read before. -/
theorem markUsed (s : BodyState) (name : String) :
    s.Confined places { s with scope := s.scope.markUsed name } := by
  refine ⟨.refl _, fun entry hentry hused => .inl ?_⟩
  obtain ⟨⟨other, binding⟩, hmem, rfl⟩ := List.mem_map.mp hentry
  dsimp only at hused ⊢
  split at hused
  · cases hused
  · next hne =>
    rw [if_neg hne]
    exact hmem

end BodyState.Confined

namespace Lower

/-- Started in the state, the action finds something at the given places only. If it fails, then
the error is at one of these places, or it is not placed yet. -/
def Confines {α : Type} (places : List (Option Location)) (x : Lower α) (s : BodyState) : Prop :=
  s.Confined places (exec x s).2 ∧
    ∀ e, (exec x s).1 = .error e → e.location = none ∨ e.location ∈ places

/-- Started in the state, the action finds something at the given places only, and if it fails,
the error is at one of these places, too. -/
def Places {α : Type} (places : List (Option Location)) (x : Lower α) (s : BodyState) : Prop :=
  s.Confined places (exec x s).2 ∧ ∀ e, (exec x s).1 = .error e → e.location ∈ places

variable {α β : Type} {places places' : List (Option Location)} {s : BodyState}
  {env : Environment}

namespace Places

variable {x : Lower α}

theorem mono (h : Places places x s) (hsub : places ⊆ places') : Places places' x s :=
  ⟨h.1.mono hsub, fun e he => hsub (h.2 e he)⟩

/-- As a part of an action at more places. -/
theorem within (h : Places places x s) (hsub : places ⊆ places') : Confines places' x s :=
  ⟨h.1.mono hsub, fun e he => .inr (hsub (h.2 e he))⟩

theorem confines (h : Places places x s) : Confines places x s := h.within fun _ hl => hl

theorem recovering {x : Lower Unit} (h : Places places x s) :
    Places places (recovering x) s := by
  obtain ⟨hstate, herror⟩ := h
  rw [Places, exec_recovering]
  rcases hexec : exec x s with ⟨e | ⟨⟩, s'⟩
  all_goals rw [hexec] at hstate herror
  · exact ⟨hstate.report (herror e rfl), nofun⟩
  · exact ⟨hstate, nofun⟩

end Places

namespace Confines

/-! ## Rules -/

theorem mono {x : Lower α} (h : Confines places x s) (hsub : places ⊆ places') :
    Confines places' x s :=
  ⟨h.1.mono hsub, fun e he => (h.2 e he).imp_right fun hmem => hsub hmem⟩

/-- Where an action succeeds, only its report and its variables count. -/
theorem of_ok {x : Lower α} {a : α} {s' : BodyState} (hexec : exec x s = (.ok a, s'))
    (h : s.Confined places s') : Confines places x s := by
  rw [Confines, hexec]
  exact ⟨h, nofun⟩

theorem pure (a : α) : Confines places (Pure.pure a : Lower α) s := of_ok rfl (.refl s)

theorem throw {e : LoweringError} (he : e.location = none ∨ e.location ∈ places) :
    Confines places (throw e : Lower α) s := by
  refine ⟨.refl s, ?_⟩
  rintro _ ⟨⟩
  exact he

theorem fail (cause : Cause) : Confines places (Lower.fail cause : Lower α) s := throw (.inl rfl)

theorem bind {x : Lower α} {f : α → Lower β} (hx : Confines places x s)
    (hf : ∀ a s', exec x s = (.ok a, s') → Confines places (f a) s') :
    Confines places (x >>= f) s := by
  obtain ⟨hstate, herror⟩ := hx
  rcases hexec : exec x s with ⟨e | a, s₁⟩
  all_goals rw [hexec] at hstate herror
  · rw [Confines, exec_bind_of_error hexec]
    exact ⟨hstate, by rintro _ ⟨⟩; exact herror e rfl⟩
  · rw [Confines, exec_bind_of_ok hexec]
    obtain ⟨hstate', herror'⟩ := hf a s₁ hexec
    exact ⟨hstate.trans hstate', herror'⟩

theorem orFail (result : Option α) (cause : Cause) :
    Confines places (Lower.orFail result cause) s := by
  cases result with
  | none => exact fail cause
  | some a => exact pure a

/-- An action that is carried out only if a condition holds. -/
theorem guarded {c : Prop} [Decidable c] {e : LoweringError} {next : Unit → Lower α}
    (he : e.location = none ∨ e.location ∈ places) (h : Confines places (next ()) s) :
    Confines places (if c then next () else MonadExcept.throw e >>= next) s := by
  split
  · exact h
  · exact (throw he).bind fun _ _ hexec => by cases hexec

theorem guarded' {c : Prop} [Decidable c] {e : LoweringError} {next : Unit → Lower α}
    (he : e.location = none ∨ e.location ∈ places) (h : Confines places (next ()) s) :
    Confines places (if c then MonadExcept.throw e >>= next else next ()) s := by
  split
  · exact (throw he).bind fun _ _ hexec => by cases hexec
  · exact h

theorem tryCatch {x : Lower α} {handler : LoweringError → Lower α} (hx : Confines places x s)
    (hhandler : ∀ e s', e.location = none ∨ e.location ∈ places →
      Confines places (handler e) s') : Confines places (tryCatch x handler) s := by
  obtain ⟨hstate, herror⟩ := hx
  rw [Confines, exec_tryCatch]
  rcases hexec : exec x s with ⟨e | a, s₁⟩
  all_goals rw [hexec] at hstate herror
  · obtain ⟨hstate', herror'⟩ := hhandler e s₁ (herror e rfl)
    exact ⟨hstate.trans hstate', herror'⟩
  · exact ⟨hstate, nofun⟩

/-- A node places what has no place yet. -/
theorem located {location : Option Location} {x : Lower α} (h : Confines places x s)
    (hlocation : location ∈ places) : Places places (located location x) s := by
  obtain ⟨hstate, herror⟩ := h
  rw [Places, exec_located]
  rcases hexec : exec x s with ⟨e | a, s'⟩
  all_goals rw [hexec] at hstate herror
  · exact ⟨hstate, by rintro _ ⟨⟩; exact LoweringError.location_orAt_mem (herror e rfl) hlocation⟩
  · exact ⟨hstate, nofun⟩

/-- Actions of the builder report nothing, and their errors are not placed. -/
theorem build (action : Build α) : Confines places (build action) s := by
  rw [Confines, exec_build]
  rcases exec action s.builder with ⟨_ | a, b⟩
  · refine ⟨.of_eq rfl rfl, ?_⟩
    rintro _ ⟨⟩
    exact .inl rfl
  · exact ⟨.of_eq rfl rfl, nofun⟩

theorem get : Confines places (get : Lower BodyState) s := of_ok rfl (.refl s)

theorem warn (w : Warning) {location : Option Location} (h : location ∈ places) :
    Confines places (Lower.warn w location) s :=
  of_ok (exec_warn w location s) ((BodyState.Confined.refl s).report h)

theorem checkKnown (type : SourceType) {location : Option Location} (h : location ∈ places) :
    Confines places (Lower.checkKnown env type location) s := by
  unfold Lower.checkKnown
  split
  · exact pure ()
  · exact warn _ h

/-! ## Control flow -/

theorem jumpTo (target label : Nat) (hint : String) :
    Confines places (Lower.jumpTo target label hint) s := (build _).bind fun _ _ _ => build _

theorem branchTo (condition : Value) (ifTrue ifFalse label : Nat) (hint : String) :
    Confines places (Lower.branchTo condition ifTrue ifFalse label hint) s :=
  (build _).bind fun _ _ _ => build _

theorem proceedTo (target label : Nat) (hint : String) :
    Confines places (Lower.proceedTo target label hint) s := by
  have hterminated : Confines places isTerminated s := of_ok (exec_isTerminated s) (.refl s)
  refine (hterminated.bind fun terminated s₁ _ => ?_).bind fun _ _ _ => build _
  split
  · exact pure ()
  · exact build _

theorem openFork (isAnd : Bool) (lhs : Value) : Confines places (Lower.openFork isAnd lhs) s :=
  (build _).bind fun _ _ _ => (build _).bind fun _ _ _ => (branchTo _ _ _ _ _).bind fun _ _ _ =>
    pure _

/-! ## Names and types -/

theorem readBinding? (name : String) : Confines places (Lower.readBinding? env name) s := by
  have hread : Confines places (Lower.readBinding? env name) s ↔
      s.Confined places { s with scope := s.scope.markUsed name } := by
    simp only [Confines, Lower.readBinding?, exec_bind, exec_get, exec_set, Scope.read]
    split <;> simp
  exact hread.mpr (.markUsed s name)

theorem peekBinding? (name : String) : Confines places (Lower.peekBinding? env name) s := by
  refine get.bind fun t _ _ => ?_
  split
  · exact pure _
  · exact pure _

theorem lowerLiteral (literal : Literal) :
    Confines places (SsaLowering.lowerLiteral literal) s := by
  cases literal with
  | number numeral =>
    cases h : lowerNumeral numeral with
    | ok v =>
      rw [SsaLowering.lowerLiteral, h]
      exact pure v
    | error e =>
      rw [SsaLowering.lowerLiteral, h]
      exact throw (.inl (location_of_lowerNumeral h))
  | string text => exact of_ok rfl (.of_eq rfl rfl)
  | bool b => exact pure _
  | null => exact pure _

theorem convert? (v : TypedValue) (target : MachineType) :
    Confines places (Lower.convert? v target) s := by
  unfold Lower.convert?
  split
  · exact pure _
  · split
    · exact pure _
    · exact (build _).bind fun _ _ _ => pure _
    · exact pure _

theorem coerce (v : TypedValue) (source : SourceType) (target : MachineType) (use : String) :
    Confines places (Lower.coerce v source target use) s := by
  refine (convert? v target).bind fun result _ _ => ?_
  cases result with
  | some value => exact pure _
  | none => exact fail _

theorem toBool (v : TypedValue) : Confines places (Lower.toBool v) s := by
  unfold Lower.toBool
  split
  · exact pure _
  · exact pure _
  · exact pure _
  · exact pure _
  · exact build _
  · exact build _
  · exact build _
  · exact fail _

theorem adaptLeft? (l r : TypedValue) : Confines places (Lower.adaptLeft? l r) s :=
  (convert? l r.type).bind fun _ _ _ => pure _

theorem adaptRight? (l r : TypedValue) : Confines places (Lower.adaptRight? l r) s :=
  (convert? r l.type).bind fun _ _ _ => pure _

theorem unify? (l r : TypedValue) : Confines places (Lower.unify? l r) s := by
  unfold Lower.unify?
  split
  · exact pure _
  · split
    · refine (adaptLeft? l r).bind fun result _ _ => ?_
      cases result with
      | some operands => exact pure _
      | none => exact adaptRight? l r
    · refine (adaptRight? l r).bind fun result _ _ => ?_
      cases result with
      | some operands => exact pure _
      | none => exact adaptLeft? l r

/-! ## Members -/

theorem visibleField (layout : StructLayout) (name : String) :
    Confines places (Lower.visibleField env layout name) s :=
  (orFail _ _).bind fun _ _ _ => guarded' (.inl rfl) (pure _)

theorem loadField (place : StructPlace) (field : FieldLayout) :
    Confines places (Lower.loadField place field) s := by
  cases place with
  | memory ptr layout writable =>
    exact (build _).bind fun _ _ _ => (build _).bind fun _ _ _ => pure _
  | aggregate value layout => exact (build _).bind fun _ _ _ => pure _

theorem variablePlace (name : String) : Confines places (Lower.variablePlace env name) s := by
  unfold Lower.variablePlace
  refine (readBinding? name).bind fun _ _ _ => (orFail _ _).bind fun binding _ _ => ?_
  refine (orFail _ _).bind fun layout s₁ _ => ?_
  have hmemory (address : Value) : Confines places (if binding.source.isPointer = true then do
      return .memory (← Lower.build (Build.load address .ptr)) layout true
    else return .memory address layout binding.isMutable : Lower StructPlace) s₁ := by
    split
    · exact (build _).bind fun _ _ _ => pure _
    · exact pure _
  dsimp only
  split
  · split
    · exact pure _
    · exact pure _
  · exact hmemory _
  · exact hmemory _

theorem fieldPlace (outer : StructPlace) (name : String) :
    Confines places (Lower.fieldPlace env outer name) s := by
  unfold Lower.fieldPlace
  refine (visibleField _ name).bind fun field _ _ => (orFail _ _).bind fun inner _ _ => ?_
  split
  · exact (loadField outer field).bind fun _ _ _ => pure _
  · cases outer with
    | memory ptr layout writable => exact (build _).bind fun _ _ _ => pure _
    | aggregate value layout => exact (build _).bind fun _ _ _ => pure _

theorem structPlace (object : Term) : Confines places (Lower.structPlace env object) s := by
  fun_induction Lower.structPlace env object generalizing s with
  | case1 location name => exact (variablePlace name).bind fun _ _ _ => pure _
  | case2 location object field ih =>
    exact ih.bind fun place _ _ => (fieldPlace place.1 field).bind fun _ _ _ => pure _
  | case3 => exact fail _

theorem lowerMember (object : Term) (name : String) :
    Confines places (Lower.lowerMember env object name) s :=
  (structPlace object).bind fun place _ _ =>
    (visibleField _ name).bind fun field _ _ => loadField place.1 field

theorem memberAddress (object : Term) (name : String) :
    Confines places (Lower.memberAddress env object name) s := by
  refine (structPlace object).bind fun place _ _ => (visibleField _ name).bind fun field _ _ => ?_
  split
  · exact (build _).bind fun _ _ _ => pure _
  · exact fail _

/-! ## Operators -/

theorem lowerVariable (name : String) : Confines places (Lower.lowerVariable env name) s := by
  unfold Lower.lowerVariable
  refine (readBinding? name).bind fun _ _ _ => (orFail _ _).bind fun binding _ _ => ?_
  cases binding.storage with
  | direct value => exact pure _
  | stack slot => exact (build _).bind fun _ _ _ => pure _
  | global symbol => exact (build _).bind fun _ _ _ => pure _

theorem lowerStep (op : UnaryOp) (operand : Term) :
    Confines places (Lower.lowerStep env op operand) s := by
  unfold Lower.lowerStep
  split
  · refine (readBinding? _).bind fun _ _ _ => (orFail _ _).bind fun binding _ _ => ?_
    refine guarded (.inl rfl) ((orFail _ _).bind fun address _ _ => ?_)
    refine (orFail _ _).bind fun step _ _ => (build _).bind fun old _ _ => ?_
    exact (build _).bind fun new _ _ => (build _).bind fun _ _ _ => pure _
  · exact fail _

theorem promoteVariadic (v : TypedValue) (callee : String) :
    Confines places (Lower.promoteVariadic v callee) s := by
  unfold Lower.promoteVariadic
  split
  · exact (build _).bind fun _ _ _ => pure _
  · exact fail _
  · exact fail _
  · exact pure _

theorem passArguments (callee : String) (number : Nat) (sources : List SourceType)
    (types : List MachineType) (values : List TypedValue) :
    Confines places (Lower.passArguments callee number sources types values) s := by
  fun_induction Lower.passArguments callee number sources types values generalizing s with
  | case1 => exact pure _
  | case2 number source sources type types v rest use =>
    rename_i ih
    exact (coerce v source type use).bind fun _ _ _ => ih.bind fun _ _ _ => pure _
  | case3 number sources types v rest _ ih =>
    exact (promoteVariadic v callee).bind fun _ _ _ => ih.bind fun _ _ _ => pure _

theorem lowerAlloc {location : Option Location} (target : SourceType) (h : location ∈ places) :
    Confines places (Lower.lowerAlloc env location target) s := by
  unfold Lower.lowerAlloc
  refine (checkKnown target h).bind fun _ _ _ => (orFail _ _).bind fun signature _ _ => ?_
  refine (build _).bind fun result _ _ => (orFail _ _).bind fun raw _ _ => ?_
  split
  · exact pure _
  · exact (build _).bind fun _ _ _ => pure _

theorem assignVariable (name : String) (v : TypedValue) :
    Confines places (Lower.assignVariable env name v) s := by
  unfold Lower.assignVariable
  refine (peekBinding? name).bind fun _ _ _ => (orFail _ _).bind fun binding _ _ => ?_
  refine guarded (.inl rfl) ((orFail _ _).bind fun address _ _ => ?_)
  exact (coerce _ _ _ _).bind fun _ _ _ => (build _).bind fun _ _ _ => pure _

theorem assignMember (object : Term) (name : String) (v : TypedValue) :
    Confines places (Lower.assignMember env object name v) s :=
  (memberAddress object name).bind fun _ _ _ =>
    (coerce _ _ _ _).bind fun _ _ _ => (build _).bind fun _ _ _ => pure _

section

variable {left right operand : Lower TypedValue} (hl : ∀ s, Confines places left s)
  (hr : ∀ s, Confines places right s) (h : ∀ s, Confines places operand s)

include h in
theorem truthOf (s : BodyState) : Confines places (Lower.truthOf operand) s :=
  (h s).bind fun v _ _ => toBool v

include hl hr in
theorem lowerArithmetic (op : BinaryOp) :
    Confines places (Lower.lowerArithmetic op left right) s := by
  refine (hl _).bind fun l _ _ => (hr _).bind fun r _ _ => (unify? l r).bind fun result _ _ => ?_
  refine (orFail _ _).bind fun operands _ _ => (orFail _ _).bind fun code _ _ => ?_
  refine (build _).bind fun value _ _ => ?_
  split
  · exact pure _
  · exact pure _

include hr in
/-- The error of the right operand passes through, behind the block where the paths meet. -/
theorem lowerFork (isAnd : Bool) (lhs : Value) :
    Confines places (Lower.lowerFork isAnd lhs right) s := by
  refine get.bind fun t _ _ => (orFail _ _).bind fun start _ _ => ?_
  refine (openFork isAnd lhs).bind fun mergeLabel _ _ => ?_
  refine ((truthOf hr _).tryCatch fun e _ he => ?_).bind fun rhs _ _ => ?_
  · exact (proceedTo _ _ _).bind fun _ _ _ => throw he
  · refine get.bind fun t _ _ => (orFail _ _).bind fun stop _ _ => ?_
    exact (jumpTo _ _ _).bind fun _ _ _ => (build _).bind fun _ _ _ => pure _

include hl hr in
theorem lowerShortCircuit (isAnd : Bool) :
    Confines places (Lower.lowerShortCircuit isAnd left right) s := by
  refine (truthOf hl _).bind fun lhs _ _ => ?_
  split
  · split
    · exact pure _
    · exact (truthOf hr _).bind fun _ _ _ => pure _
  · exact lowerFork hr isAnd lhs

include hl hr in
theorem lowerEager (isAnd : Bool) : Confines places (Lower.lowerEager isAnd left right) s := by
  refine (truthOf hl _).bind fun lhs _ _ => (truthOf hr _).bind fun rhs _ _ => ?_
  split
  · exact pure _
  · exact (build _).bind fun _ _ _ => pure _

include hl hr in
theorem lowerBinary (op : BinaryOp) : Confines places (Lower.lowerBinary op left right) s := by
  cases op
  case logicalAnd => exact lowerShortCircuit hl hr true
  case logicalOr => exact lowerShortCircuit hl hr false
  case eagerAnd => exact lowerEager hl hr true
  case eagerOr => exact lowerEager hl hr false
  all_goals exact lowerArithmetic hl hr _

include h

theorem lowerNot : Confines places (Lower.lowerNot operand) s := by
  refine (truthOf h _).bind fun truth _ _ => ?_
  split
  · exact pure _
  · exact (build _).bind fun _ _ _ => pure _

theorem lowerNegate : Confines places (Lower.lowerNegate operand) s := by
  refine (h _).bind fun v _ _ => ?_
  split
  · exact pure _
  · exact pure _
  · exact (build _).bind fun _ _ _ => pure _
  · exact (build _).bind fun _ _ _ => pure _
  · exact fail _

theorem lowerCast {location : Option Location} (target : SourceType) (hl : location ∈ places) :
    Confines places (Lower.lowerCast env location target operand) s := by
  refine (checkKnown target hl).bind fun _ _ _ => (h _).bind fun v _ _ => ?_
  split
  · exact pure _
  · exact fail _

theorem lowerAssign (target : Term) : Confines places (Lower.lowerAssign env target operand) s := by
  refine (h _).bind fun v _ _ => ?_
  split
  · exact assignVariable _ v
  · exact assignMember _ _ v
  · exact fail _

end

theorem lowerCall (callee : String) (count : Nat) {args : Lower (List TypedValue)}
    (h : ∀ s, Confines places args s) :
    Confines places (Lower.lowerCall env callee count args) s := by
  unfold Lower.lowerCall
  refine (orFail _ _).bind fun signature _ _ => guarded (.inl rfl) ?_
  refine (h _).bind fun values _ _ => (passArguments _ _ _ _ _).bind fun passed _ _ => ?_
  refine (build _).bind fun result _ _ => ?_
  cases result with
  | some result => exact pure _
  | none => exact pure _

end Confines

/-! ## All expressions -/

mutual

/-- What is found while an expression is lowered is found at the expression or inside it, by
recursion on the expression. -/
theorem places_lowerTerm (env : Environment) :
    (term : Term) → ∀ s, Places term.locations (lowerTerm env term) s
  | .literal .., _ => (Confines.lowerLiteral _).located List.mem_cons_self
  | .variable .., _ => (Confines.lowerVariable _).located List.mem_cons_self
  | .call _ _ args, _ =>
    have hargs s := (confines_lowerTerms env args s).mono (List.subset_cons_self _ _)
    (Confines.lowerCall _ _ hargs).located List.mem_cons_self
  | .binary _ op left right, _ =>
    have hleft s := (places_lowerTerm env left s).within
      (List.subset_cons_of_subset _ (List.subset_append_left _ _))
    have hright s := (places_lowerTerm env right s).within
      (List.subset_cons_of_subset _ (List.subset_append_right _ _))
    (Confines.lowerBinary hleft hright op).located List.mem_cons_self
  | .unary _ .logicalNot operand, _ =>
    have hoperand s := (places_lowerTerm env operand s).within (List.subset_cons_self _ _)
    (Confines.lowerNot hoperand).located List.mem_cons_self
  | .unary _ .minus operand, _ =>
    have hoperand s := (places_lowerTerm env operand s).within (List.subset_cons_self _ _)
    (Confines.lowerNegate hoperand).located List.mem_cons_self
  | .unary _ .preIncrement operand, _ | .unary _ .postIncrement operand, _
  | .unary _ .preDecrement operand, _ | .unary _ .postDecrement operand, _ =>
    (Confines.lowerStep _ operand).located List.mem_cons_self
  | .cast _ target operand, _ =>
    have hoperand s := (places_lowerTerm env operand s).within (List.subset_cons_self _ _)
    (Confines.lowerCast hoperand target List.mem_cons_self).located List.mem_cons_self
  | .alloc .., _ => (Confines.lowerAlloc _ List.mem_cons_self).located List.mem_cons_self
  | .assign _ target value, _ =>
    have hvalue s := (places_lowerTerm env value s).within
      (List.subset_cons_of_subset _ (List.subset_append_right _ _))
    (Confines.lowerAssign hvalue target).located List.mem_cons_self
  | .member _ object field, _ =>
    (Confines.lowerMember object field).located List.mem_cons_self

theorem confines_lowerTerms (env : Environment) :
    (terms : List Term) → ∀ s, Confines (Term.allLocations terms) (lowerTerms env terms) s
  | [], _ => .pure _
  | term :: rest, _ =>
    have hrest s := (confines_lowerTerms env rest s).mono (List.subset_append_right _ _)
    ((places_lowerTerm env term _).within (List.subset_append_left _ _)).bind fun _ _ _ =>
      (hrest _).bind fun _ _ _ => .pure _

end

end Lower

end SsaLowering
