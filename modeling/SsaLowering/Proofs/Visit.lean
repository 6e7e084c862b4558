import SsaLowering.Proofs.ExpressionSteps

/-!
# Visits

The lowering of a body visits its parts in turn: each visit has a part and the state in which its
lowering begins. Between the visits to the parts of a node there are only steps, and what the
node does by itself: a string literal puts a text into the pool, and the declaration of a
variable binds its name to a new slot. So what holds of these moves holds from the beginning of
a body to every visit and from every visit to the end, whatever fails in between.
-/

namespace SsaLowering

open Lower BodyState

/-- A part of a body that has a lowering of its own. -/
inductive Node where
  | term (term : Term)
  | terms (terms : List Term)
  | statement (statement : Statement)
  | block (body : List Statement)

/-- A part of a body, and a state in which its lowering begins. -/
structure Visit where
  node : Node
  state : BodyState

namespace Visit

section

variable (env : Environment) (context : FunctionContext)

/-- The state that the lowering leaves, whether it succeeds or not. -/
def after (v : Visit) : BodyState :=
  match v.node with
  | .term term => (exec (lowerTerm env term) v.state).2
  | .terms terms => (exec (lowerTerms env terms) v.state).2
  | .statement statement => (exec (lowerStatement env context statement) v.state).2
  | .block body => (exec (lowerBlock env context body) v.state).2

/-- What is visited behind an action, provided that it succeeds. -/
def behind {α : Type} (x : Lower α) (s : BodyState) (visits : α → BodyState → List Visit) :
    List Visit :=
  match exec x s with
  | (.ok a, s') => visits a s'
  | (.error _, _) => []

/-- The right operand of a logical operator is visited unless the left one decides. -/
def partsOfFork (isAnd : Bool) (right : Term) (lhs : Value) (s : BodyState) : List Visit :=
  match lhs.bool?, s.builder.current with
  | some decided, _ => if decided == !isAnd then [] else [⟨.term right, s⟩]
  | none, some _ => behind (openFork isAnd lhs) s fun _ s₁ => [⟨.term right, s₁⟩]
  | none, none => []

/-- The right operand is visited if the left one has a value of the kind that the operator
needs. -/
def partsOfBinary (op : BinaryOp) (left right : Term) (s : BodyState) : List Visit :=
  ⟨.term left, s⟩ :: match op with
    | .logicalAnd => behind (truthOf (lowerTerm env left)) s (partsOfFork true right)
    | .logicalOr => behind (truthOf (lowerTerm env left)) s (partsOfFork false right)
    | .eagerAnd | .eagerOr =>
      behind (truthOf (lowerTerm env left)) s fun _ s₁ => [⟨.term right, s₁⟩]
    | _ => behind (lowerTerm env left) s fun _ s₁ => [⟨.term right, s₁⟩]

/-- The arguments of a call are visited if their number fits. -/
def partsOfCall (callee : String) (args : List Term) (s : BodyState) : List Visit :=
  match env.functions.lookup callee with
  | some signature =>
    let expected := signature.params.length
    let fits :=
      if signature.isVararg then decide (expected ≤ args.length) else args.length == expected
    if fits then [⟨.terms args, s⟩] else []
  | none => []

def partsOfTerm (s : BodyState) : Term → List Visit
  | .call _ callee args => partsOfCall env callee args s
  | .binary _ op left right => partsOfBinary env op left right s
  | .unary _ .logicalNot operand | .unary _ .minus operand => [⟨.term operand, s⟩]
  | .cast location target operand =>
    behind (checkKnown env target location) s fun _ s₁ => [⟨.term operand, s₁⟩]
  | .assign _ _ value => [⟨.term value, s⟩]
  | _ => []

def partsOfTerms (s : BodyState) : List Term → List Visit
  | [] => []
  | term :: rest => ⟨.term term, s⟩ :: behind (lowerTerm env term) s fun _ s₁ => [⟨.terms rest, s₁⟩]

/-- The warning about the declared type of a variable comes before its initializer. -/
def warnUnknown (decl : VariableDecl Term) : Lower Unit :=
  if decl.type.isInferred || env.structs.isKnown decl.type then pure ()
  else warn (.unknownVariableType decl.type decl.name) decl.location

def partsOfVariable (decl : VariableDecl Term) (s : BodyState) : List Visit :=
  match decl.initializer with
  | some initializer => behind (warnUnknown env decl) s fun _ s₁ => [⟨.term initializer, s₁⟩]
  | none => []

def partsOfElse (s : BodyState) : Option Statement → List Visit
  | some statement => [⟨.statement statement, s⟩]
  | none => []

def partsOfBranch (condition : Term) (thenBranch : Statement) (elseBranch : Option Statement)
    (s : BodyState) : List Visit :=
  ⟨.term condition, s⟩ :: behind (lowerCondition env condition) s fun value s₁ =>
    behind (openBranch value) s₁ fun labels s₂ =>
      ⟨.statement thenBranch, s₂⟩ ::
        behind (recovering (lowerStatement env context thenBranch)) s₂ fun _ s₃ =>
          behind (proceedTo labels.merge labels.other "else") s₃ fun _ s₄ =>
            partsOfElse s₄ elseBranch

def partsOfWhile (condition : Term) (body : Statement) (s : BodyState) : List Visit :=
  behind openWhile s fun labels s₁ => ⟨.term condition, s₁⟩ ::
    behind (enterBody (some (lowerCondition env condition)) labels "while.body") s₁
      fun _ s₂ => [⟨.statement body, s₂⟩]

def partsOfOptional (s : BodyState) : Option Term → List Visit
  | some term => [⟨.term term, s⟩]
  | none => []

/-- The part of a loop that runs once before it. -/
def lowerInit : Option Statement → Lower Unit
  | some statement => lowerStatement env context statement
  | none => pure ()

def partsOfFor (init : Option Statement) (condition update : Option Term) (body : Statement)
    (s : BodyState) : List Visit :=
  partsOfElse s init ++ behind (lowerInit env context init) s fun _ s₁ =>
    behind openFor s₁ fun labels s₂ =>
      partsOfOptional s₂ condition ++
        behind (enterBody (condition.map (lowerCondition env)) labels "for.body") s₂ fun _ s₃ =>
          ⟨.statement body, s₃⟩ ::
            behind (recovering (lowerStatement env context body)) s₃ fun _ s₄ =>
              behind (proceedTo labels.update labels.update "for.inc") s₄ fun _ s₅ =>
                partsOfOptional s₅ update

def partsOfStatement (s : BodyState) : Statement → List Visit
  | .block _ body => [⟨.block body, s⟩]
  | .expression _ value => [⟨.term value, s⟩]
  | .variable _ decl => partsOfVariable env decl s
  | .branch _ condition thenBranch elseBranch =>
    partsOfBranch env context condition thenBranch elseBranch s
  | .whileLoop _ condition body => partsOfWhile env condition body s
  | .forLoop _ init condition update body => partsOfFor env context init condition update body s
  | .ret _ (some value) => if context.returnType = .void then [] else [⟨.term value, s⟩]
  | .ret _ none => []

/-- The rest of a block is visited even if a statement fails. -/
def partsOfBlock (s : BodyState) : List Statement → List Visit
  | [] => []
  | statement :: rest => behind openIfTerminated s fun _ s₁ =>
    ⟨.statement statement, s₁⟩ ::
      behind (recovering (lowerStatement env context statement)) s₁ fun _ s₂ =>
        [⟨.block rest, s₂⟩]

/-- The visits to the parts of a node, in turn. -/
def parts (v : Visit) : List Visit :=
  match v.node with
  | .term term => partsOfTerm env v.state term
  | .terms terms => partsOfTerms env v.state terms
  | .statement statement => partsOfStatement env context v.state statement
  | .block body => partsOfBlock env context v.state body

/-- A visit to a node, to one of its parts, to one of the parts of that, and so on. -/
def Contains : Visit → Visit → Prop :=
  Relation.ReflTransGen fun v w => w ∈ v.parts env context

/-- A change of the state that the lowering of a node makes by itself. -/
inductive Move (v : Visit) : BodyState → BodyState → Prop
  | step {s s' : BodyState} : s.Step env s' → Move v s s'
  | intern {s : BodyState} {location : Option Location} {text : String} :
    v.node = .term (.literal location (.string text)) →
    Move v s { s with globals := (StringPool.intern s.globals text).2 }
  | bind {s : BodyState} {location : Option Location} {decl : VariableDecl Term}
      {source : SourceType} {type : MachineType} {initial : Option Value} :
    v.node = .statement (.variable location decl) →
    exec (variableValue env decl) v.state = (.ok (source, type, initial), s) →
    Move v s (exec (bindVariable decl source type initial) s).2

/-- Any number of changes that a node makes by itself. -/
abbrev Moves (v : Visit) : BodyState → BodyState → Prop := Relation.ReflTransGen (v.Move env)

/-- One of the smallest changes that a node makes by itself. The declaration of a variable gets a
slot, stores the first value there and binds the name, one after the other, and between any two of
these it may fail. -/
inductive Change (v : Visit) : BodyState → BodyState → Prop
  | step {s s' : BodyState} : s.TidyStep env s' → Change v s s'
  | intern {s : BodyState} {location : Option Location} {text : String} :
    v.node = .term (.literal location (.string text)) →
    Change v s { s with globals := (StringPool.intern s.globals text).2 }
  | slot {s : BodyState} {location : Option Location} {decl : VariableDecl Term}
      {source : SourceType} {type : MachineType} {initial : Option Value} :
    v.node = .statement (.variable location decl) →
    exec (variableValue env decl) v.state = (.ok (source, type, initial), s) →
    Change v s (exec (build (Build.entryAlloca type)) s).2
  | initial {s s₁ : BodyState} {location : Option Location} {decl : VariableDecl Term}
      {source : SourceType} {type : MachineType} {initial : Option Value} {slot : Value} :
    v.node = .statement (.variable location decl) →
    exec (variableValue env decl) v.state = (.ok (source, type, initial), s) →
    exec (build (Build.entryAlloca type)) s = (.ok slot, s₁) →
    Change v s₁ (exec (storeInitial slot type initial) s₁).2
  | declare {s s₁ s₂ : BodyState} {location : Option Location} {decl : VariableDecl Term}
      {source : SourceType} {type : MachineType} {initial : Option Value} {slot : Value} :
    v.node = .statement (.variable location decl) →
    exec (variableValue env decl) v.state = (.ok (source, type, initial), s) →
    exec (build (Build.entryAlloca type)) s = (.ok slot, s₁) →
    exec (storeInitial slot type initial) s₁ = (.ok (), s₂) →
    Change v s₂ (exec (declareLocal decl source type slot) s₂).2

/-- Any number of the smallest changes. -/
abbrev Changes (v : Visit) : BodyState → BodyState → Prop := Relation.ReflTransGen (v.Change env)

/-- From one state to another, as a node goes on by itself. -/
def Passes (v : Visit) (s s' : BodyState) : Prop := v.Moves env s s' ∧ v.Changes env s s'

/-- From one state to another through some visits: in between, the states are related. -/
def Course (R : BodyState → BodyState → Prop) : BodyState → List Visit → BodyState → Prop
  | s, [], s' => R s s'
  | s, w :: rest, s' => R s w.state ∧ Course R (w.after env context) rest s'

/-- An action that, as a part of a visit, takes its course through some visits. -/
def Follows {α : Type} (v : Visit) (x : Lower α) (s : BodyState) (visits : List Visit) : Prop :=
  Course env context (v.Passes env) s visits (exec x s).2

end

variable {env : Environment} {context : FunctionContext} {v w : Visit} {s s' s'' : BodyState}
  {α β : Type} {x : Lower α} {f : α → Lower β} {visits visits' : List Visit}

theorem mem_behind {l : α → BodyState → List Visit} (h : w ∈ behind x s l) :
    ∃ a s', exec x s = (.ok a, s') ∧ w ∈ l a s' := by
  unfold behind at h
  split at h
  · next hexec => exact ⟨_, _, hexec, h⟩
  · cases h

theorem behind_of_ok {l : α → BodyState → List Visit} {a : α} (h : exec x s = (.ok a, s')) :
    behind x s l = l a s' := by
  rw [behind, h]

theorem behind_of_error {l : α → BodyState → List Visit} {e : LoweringError}
    (h : exec x s = (.error e, s')) : behind x s l = [] := by
  rw [behind, h]

/-! ## Courses -/

namespace Course

variable {R S : BodyState → BodyState → Prop}

theorem head (hR : ∀ a b c, R a b → R b c → R a c) (h : R s s')
    (hcourse : Course env context R s' visits s'') : Course env context R s visits s'' := by
  cases visits with
  | nil => exact hR _ _ _ h hcourse
  | cons w rest => exact ⟨hR _ _ _ h hcourse.1, hcourse.2⟩

theorem append (hR : ∀ a b c, R a b → R b c → R a c) (h : Course env context R s visits s')
    (h' : Course env context R s' visits' s'') :
    Course env context R s (visits ++ visits') s'' := by
  induction visits generalizing s with
  | nil => exact head hR h h'
  | cons w rest ih => exact ⟨h.1, ih h.2⟩

theorem mono (hRS : ∀ a b, R a b → S a b) (h : Course env context R s visits s') :
    Course env context S s visits s' := by
  induction visits generalizing s with
  | nil => exact hRS _ _ h
  | cons w rest ih => exact ⟨hRS _ _ h.1, ih h.2⟩

/-- What holds of the changes in between and of the visits holds of the whole course. -/
theorem rel (hS : ∀ a b c, S a b → S b c → S a c) (hRS : ∀ a b, R a b → S a b)
    (hcourse : Course env context R s visits s')
    (hvisits : ∀ w ∈ visits, S w.state (w.after env context)) : S s s' := by
  induction visits generalizing s with
  | nil => exact hRS _ _ hcourse
  | cons w rest ih =>
    have hrest := ih hcourse.2 fun u hu => hvisits u (List.mem_cons_of_mem _ hu)
    exact hS _ _ _ (hRS _ _ hcourse.1) (hS _ _ _ (hvisits w List.mem_cons_self) hrest)

/-- It holds up to every visit, too, and from every visit on. -/
theorem rel_around (hS : ∀ a b c, S a b → S b c → S a c) (hRS : ∀ a b, R a b → S a b)
    (hcourse : Course env context R s visits s')
    (hvisits : ∀ w ∈ visits, S w.state (w.after env context)) (hw : w ∈ visits) :
    S s w.state ∧ S (w.after env context) s' := by
  induction visits generalizing s with
  | nil => cases hw
  | cons u rest ih =>
    have hrest : ∀ u ∈ rest, S u.state (u.after env context) :=
      fun u hu => hvisits u (List.mem_cons_of_mem _ hu)
    rcases List.mem_cons.mp hw with rfl | hw
    · exact ⟨hRS _ _ hcourse.1, hcourse.2.rel hS hRS hrest⟩
    · obtain ⟨hbefore, hafter⟩ := ih hcourse.2 hrest hw
      exact ⟨hS _ _ _ (hRS _ _ hcourse.1) (hS _ _ _ (hvisits u List.mem_cons_self) hbefore), hafter⟩

/-- Of two visits, the one comes before the other. -/
theorem rel_between (hS : ∀ a b c, S a b → S b c → S a c) (hRS : ∀ a b, R a b → S a b)
    {u : Visit} (hcourse : Course env context R s visits s')
    (hvisits : ∀ w ∈ visits, S w.state (w.after env context)) (hw : w ∈ visits)
    (hu : u ∈ visits) :
    w = u ∨ S (w.after env context) u.state ∨ S (u.after env context) w.state := by
  induction visits generalizing s with
  | nil => cases hw
  | cons x rest ih =>
    have hrest : ∀ y ∈ rest, S y.state (y.after env context) :=
      fun y hy => hvisits y (List.mem_cons_of_mem _ hy)
    rcases List.mem_cons.mp hw with rfl | hw'
    all_goals rcases List.mem_cons.mp hu with rfl | hu'
    · exact .inl rfl
    · exact .inr (.inl (hcourse.2.rel_around hS hRS hrest hu').1)
    · exact .inr (.inr (hcourse.2.rel_around hS hRS hrest hw').1)
    · exact ih hcourse.2 hrest hw' hu'

/-- What holds in the beginning and is kept by all changes in between holds at all visits. -/
theorem holds {P : BodyState → Prop} (hP : ∀ a b, R a b → P a → P b)
    (hcourse : Course env context R s visits s') (hs : P s)
    (hvisits : ∀ w ∈ visits, P w.state → P (w.after env context)) :
    P s' ∧ ∀ w ∈ visits, P w.state := by
  induction visits generalizing s with
  | nil => exact ⟨hP _ _ hcourse hs, by simp⟩
  | cons w rest ih =>
    have hw := hP _ _ hcourse.1 hs
    obtain ⟨hend, hrest⟩ := ih hcourse.2 (hvisits w List.mem_cons_self hw)
      fun u hu => hvisits u (List.mem_cons_of_mem _ hu)
    exact ⟨hend, List.forall_mem_cons.mpr ⟨hw, hrest⟩⟩

end Course

/-! ## Actions and their courses -/

namespace Passes

theorem refl (s : BodyState) : v.Passes env s s := ⟨.refl, .refl⟩

theorem trans (h : v.Passes env s s') (h' : v.Passes env s' s'') : v.Passes env s s'' :=
  ⟨h.1.trans h'.1, h.2.trans h'.2⟩

theorem of_steps (h : s.TidySteps env s') : v.Passes env s s' :=
  ⟨Relation.ReflTransGen.mono (fun _ _ hstep => .step hstep.1) _ _ h,
    Relation.ReflTransGen.mono (fun _ _ => Change.step) _ _ h⟩

/-- A name is bound in one move, and in three of the smallest changes at most. -/
theorem bind {location : Option Location} {decl : VariableDecl Term} {source : SourceType}
    {type : MachineType} {initial : Option Value}
    (hv : v.node = .statement (.variable location decl))
    (hvalue : exec (variableValue env decl) v.state = (.ok (source, type, initial), s)) :
    v.Passes env s (exec (bindVariable decl source type initial) s).2 := by
  refine ⟨.single (.bind hv hvalue), ?_⟩
  have hslot : v.Change env s (exec (build (Build.entryAlloca type)) s).2 := .slot hv hvalue
  rw [bindVariable]
  rcases hexec : exec (build (Build.entryAlloca type)) s with ⟨e | slot, s₁⟩
  · rw [exec_bind_of_error hexec]
    exact .single (by rwa [hexec] at hslot)
  · rw [exec_bind_of_ok hexec]
    rw [hexec] at hslot
    have hinitial : v.Change env s₁ (exec (storeInitial slot type initial) s₁).2 :=
      .initial hv hvalue hexec
    rcases hstore : exec (storeInitial slot type initial) s₁ with ⟨e | ⟨⟩, s₂⟩
    · rw [exec_bind_of_error hstore]
      rw [hstore] at hinitial
      exact .tail (.single hslot) hinitial
    · rw [exec_bind_of_ok hstore]
      rw [hstore] at hinitial
      exact .tail (.tail (.single hslot) hinitial) (.declare hv hvalue hexec hstore)

end Passes

namespace Follows

theorem of_steps (h : TakesSteps env x s fun _ _ => True) : v.Follows env context x s [] :=
  Passes.of_steps h.1

theorem pure (a : α) : v.Follows env context (Pure.pure a) s [] := Passes.refl s

theorem fail (cause : Cause) : v.Follows env context (Lower.fail cause : Lower α) s [] :=
  Passes.refl s

theorem throw (e : LoweringError) :
    v.Follows env context (MonadExcept.throw e : Lower α) s [] := Passes.refl s

/-- The lowering of a part is a visit. -/
theorem term (term : Term) : v.Follows env context (lowerTerm env term) s [⟨.term term, s⟩] :=
  ⟨.refl _, Passes.refl _⟩

theorem terms (terms : List Term) :
    v.Follows env context (lowerTerms env terms) s [⟨.terms terms, s⟩] := ⟨.refl _, Passes.refl _⟩

theorem statement (statement : Statement) :
    v.Follows env context (lowerStatement env context statement) s [⟨.statement statement, s⟩] :=
  ⟨.refl _, Passes.refl _⟩

theorem block (body : List Statement) :
    v.Follows env context (lowerBlock env context body) s [⟨.block body, s⟩] :=
  ⟨.refl _, Passes.refl _⟩

/-- Behind the visits of the first action come those of the second, if it is carried out. -/
theorem bind {l : α → BodyState → List Visit} (hx : v.Follows env context x s visits)
    (hf : ∀ a s', exec x s = (.ok a, s') → v.Follows env context (f a) s' (l a s')) :
    v.Follows env context (x >>= f) s (visits ++ behind x s l) := by
  rcases hexec : exec x s with ⟨e | a, s₁⟩
  · rw [Follows, hexec] at hx
    rw [Follows, exec_bind_of_error hexec, behind_of_error hexec, List.append_nil]
    exact hx
  · have hrest := hf a s₁ hexec
    rw [Follows, hexec] at hx
    rw [Follows, exec_bind_of_ok hexec, behind_of_ok hexec]
    exact Course.append (R := v.Passes env) (fun _ _ _ => .trans) hx hrest

theorem bind_steps (hx : v.Follows env context x s visits)
    (hf : ∀ a s', exec x s = (.ok a, s') → v.Follows env context (f a) s' []) :
    v.Follows env context (x >>= f) s visits := by
  have h := hx.bind (l := fun _ _ => []) hf
  have hbehind : behind x s (fun _ _ => []) = [] := by
    unfold behind
    split <;> rfl
  rwa [hbehind, List.append_nil] at h

theorem steps_bind {l : α → BodyState → List Visit} (hx : TakesSteps env x s fun _ _ => True)
    (hf : ∀ a s', exec x s = (.ok a, s') → v.Follows env context (f a) s' (l a s')) :
    v.Follows env context (x >>= f) s (behind x s l) := (of_steps hx).bind hf

/-- An action that is carried out only if a condition holds. -/
theorem guarded {p : Prop} [Decidable p] {e : LoweringError} {next : Unit → Lower α}
    (h : v.Follows env context (next ()) s visits) :
    v.Follows env context (if p then next () else MonadExcept.throw e >>= next) s
      (if p then visits else []) := by
  split
  · exact h
  · exact (throw e).bind_steps fun _ _ hexec => by cases hexec

theorem tryCatch {handler : LoweringError → Lower α} (hx : v.Follows env context x s visits)
    (hhandler : ∀ e s', v.Follows env context (handler e) s' []) :
    v.Follows env context (tryCatch x handler) s visits := by
  rw [Follows] at hx ⊢
  rw [exec_tryCatch]
  rcases hexec : exec x s with ⟨e | a, s₁⟩
  all_goals rw [hexec] at hx
  · have h := Course.append (R := v.Passes env) (fun _ _ _ => .trans) hx (hhandler e s₁)
    rwa [List.append_nil] at h
  · exact hx

theorem located {location : Option Location} (h : v.Follows env context x s visits) :
    v.Follows env context (located location x) s visits := h.tryCatch fun _ _ => throw _

theorem recovering {action : Lower Unit} (h : v.Follows env context action s visits) :
    v.Follows env context (recovering action) s visits :=
  h.tryCatch fun e _ => of_steps (.report e.toDiagnostic)

end Follows

end Visit

end SsaLowering
