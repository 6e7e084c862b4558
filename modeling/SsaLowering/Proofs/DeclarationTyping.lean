import SsaLowering.Proofs.StatementTyping
import SsaLowering.Proofs.Unit

/-!
# Declarations keep to a setting

Once the structs of a unit are laid out, a global variable and a signature have the machine
types that the table gives to their source types. The initializer of a global variable is a
constant that fits its type. These facts hold of a regular unit and stay true while more of
the program is declared.
-/

namespace SsaLowering

/-- No field of a struct is an unsigned integer. -/
def StructTable.IsSigned (table : StructTable) : Prop :=
  ∀ layout ∈ table.layouts, ∀ field ∈ layout.fields, field.type.isUnsigned = false

namespace Signature

variable {table : StructTable} {params : List SourceType} {source : SourceType} {isVararg : Bool}
  {owner : Option String}

theorem resolves_ofSource (table : StructTable) (params : List SourceType) (source : SourceType)
    (isVararg : Bool) (owner : Option String) :
    (ofSource table params source isVararg owner).Resolves table := ⟨rfl, rfl⟩

theorem isSigned_ofSource (hc : table.Consistent)
    (h : ∀ type ∈ source :: params, type.isUnsigned = false) :
    (ofSource table params source isVararg owner).IsSigned := by
  intro type htype
  rcases List.mem_cons.mp htype with rfl | htype
  · show (table.resolveReturn source).isUnsigned = false
    rw [StructTable.resolveReturn]
    split
    · rfl
    · rw [hc.isUnsigned_resolve]
      exact h source (by simp)
  · obtain ⟨param, hparam, rfl⟩ := List.mem_map.mp htype
    rw [hc.isUnsigned_resolve]
    exact h param (by simp [hparam])

end Signature

/-! ## Initializers -/

namespace Fold

/-- Some string literals were added to the global variables. -/
structure Pools (globals globals' : List GlobalVariable) : Prop where
  subset : globals ⊆ globals'
  added : ∀ g ∈ globals', g ∈ globals ∨ ∃ text, g.initializer = some (.bytes text)

theorem Pools.refl (globals : List GlobalVariable) : Pools globals globals :=
  ⟨List.Subset.refl globals, fun _ h => .inl h⟩

theorem Pools.trans {globals globals' globals'' : List GlobalVariable}
    (h : Pools globals globals') (h' : Pools globals' globals'') : Pools globals globals'' where
  subset := List.Subset.trans h.subset h'.subset
  added := fun g hg => (h'.added g hg).elim (h.added g) .inr

/-- What an initializer denotes is of no unsigned type. If the initializer is tame, its
integer constants fit. -/
structure Denotes (exact : Prop) (term : Term) (v : TypedValue) : Prop where
  signed : v.inferredType.isUnsigned = false
  fits : exact → v.value.Fits v.type
  opposable : exact → term.isOpposable = true → v.IsOpposable

/-- A value without an integer. -/
theorem denotes_of_ne_int {exact : Prop} {term : Term} {v : TypedValue}
    (hsigned : v.inferredType.isUnsigned = false) (h : ∀ n, v.value ≠ .int n) :
    Denotes exact term v :=
  ⟨hsigned, fun _ n hn => absurd hn (h n), fun _ _ n hn => absurd hn (h n)⟩

theorem denotes_numeral {exact : Prop} {location : Option Location} {numeral : String}
    {v : TypedValue} (h : lowerNumeral numeral = .ok v) :
    Denotes exact (.literal location (.number numeral)) v := by
  rcases lowerNumeral_cases h with ⟨x, rfl⟩ | ⟨n, w, hn, rfl, hfits, hopposite⟩
  · exact denotes_of_ne_int rfl fun n => by simp [TypedValue.plain]
  · refine ⟨by cases w <;> rfl, ?_, ?_⟩
    · rintro - m ⟨rfl⟩
      exact hfits
    · rintro - hterm m ⟨rfl⟩
      have hne : n ≠ -2147483648 := by simpa [Term.isOpposable, hn] using hterm
      exact hopposite hne

/-- The opposite of a constant. -/
theorem Denotes.negate {exact : Prop} {term : Term} {v : TypedValue} {n : Int64}
    (h : Denotes exact term v) (hv : v.value = .int n) (hterm : exact → term.isOpposable = true)
    (location : Option Location) :
    Denotes exact (.unary location .minus term) { v with value := .int (-n) } where
  signed := h.signed
  fits := by
    rintro hexact m ⟨rfl⟩
    exact h.opposable hexact (hterm hexact) n hv
  opposable := by
    rintro hexact - m ⟨rfl⟩
    rw [Int64.neg_neg]
    exact h.fits hexact n hv

/-- The action adds at most string literals to the global variables, and its result, if it has
one, is as stated. -/
def Ensures (action : Fold TypedValue) (post : TypedValue → Prop) : Prop :=
  ∀ globals, Pools globals (exec action globals).2 ∧
    ∀ v, (exec action globals).1 = .ok v → post v

section

variable {x : Fold TypedValue} {v : TypedValue} {post post' : TypedValue → Prop}

theorem Ensures.pure (h : post v) : Ensures (Pure.pure v) post := by
  intro globals
  refine ⟨.refl globals, ?_⟩
  rintro _ ⟨rfl⟩
  exact h

theorem Ensures.throw (e : LoweringError) : Ensures (throw e) post :=
  fun globals => ⟨.refl globals, fun v hv => by cases hv⟩

theorem Ensures.bind {f : TypedValue → Fold TypedValue} (hx : Ensures x post)
    (hf : ∀ v, post v → Ensures (f v) post') : Ensures (x >>= f) post' := by
  intro globals
  obtain ⟨hpools, hpost⟩ := hx globals
  rcases hexec : exec x globals with ⟨e | v, globals'⟩
  all_goals rw [hexec] at hpools hpost
  · rw [exec_bind_of_error hexec]
    exact ⟨hpools, fun v hv => by cases hv⟩
  · rw [exec_bind_of_ok hexec]
    obtain ⟨hpools', hpost'⟩ := hf v (hpost v rfl) globals'
    exact ⟨hpools.trans hpools', hpost'⟩

end

/-- The constant that an initializer denotes, by recursion on the initializer. -/
theorem initializer_denotes {exact : Prop} (name : String) : (term : Term) →
    (exact → term.isTame = true) → Ensures (initializer name term) (Denotes exact term)
  | .literal location (.number numeral), _ => by
    rw [initializer]
    cases h : lowerNumeral numeral with
    | error e => exact .throw _
    | ok v => exact .pure (denotes_numeral h)
  | .literal _ (.string text), _ => by
    intro globals
    refine ⟨⟨StringPool.subset_intern, fun g hg => ?_⟩, ?_⟩
    · exact (StringPool.mem_or_of_mem_intern hg).imp_right fun h => ⟨text, h⟩
    · rintro _ ⟨rfl⟩
      exact denotes_of_ne_int rfl fun n => by simp [stringValue]
  | .literal _ (.bool b), _ => .pure (denotes_of_ne_int rfl fun n => by simp [TypedValue.truth])
  | .literal _ .null, _ => .pure (denotes_of_ne_int rfl fun n => by simp [TypedValue.null])
  | .unary location .minus operand, htame => by
    have hboth : exact → operand.isOpposable = true ∧ operand.isTame = true :=
      fun hexact => by simpa only [Term.isTame, Bool.and_eq_true] using htame hexact
    rw [initializer]
    apply (initializer_denotes name operand fun hexact => (hboth hexact).2).bind
    intro v hv
    cases hvalue : v.value with
    | int n => exact .pure (hv.negate hvalue (fun hexact => (hboth hexact).1) location)
    | float x => exact .pure (denotes_of_ne_int hv.signed fun n => by simp)
    | _ => exact .throw _
  | .cast location target operand, htame => by
    rw [initializer]
    split
    · next hpointer =>
      apply (initializer_denotes name operand
        fun hexact => by simpa only [Term.isTame] using htame hexact).bind
      intro v hv
      split
      · next hptr =>
        -- A constant that is a pointer is no integer.
        have hsigned : target.isUnsigned = false := by simp [SourceType.isUnsigned, hpointer]
        apply Ensures.pure
        refine ⟨hsigned, fun hexact => hptr ▸ hv.fits hexact, fun hexact _ n hn => ?_⟩
        have hfits := hv.fits hexact n hn
        rw [hptr] at hfits
        cases hfits
      · exact .throw _
    · exact .throw _
  | .variable .., _ | .call .., _ | .binary .., _ | .unary _ .logicalNot _, _
  | .unary _ .preIncrement _, _ | .unary _ .preDecrement _, _ | .unary _ .postIncrement _, _
  | .unary _ .postDecrement _, _ | .alloc .., _ | .assign .., _ | .member .., _ => .throw _

end Fold

/-! ## Regular units -/

namespace FunctionDef

/-- What is written down about a finished function and its unit. -/
def ledger (f : FunctionDef) (globals : List GlobalVariable) : Ledger :=
  {e | f.Lists e ∨ ∃ g ∈ globals, e = .global g}

/-- Each temporary is defined once, and each instruction is admitted in a setting for the
structs of the unit and the return type of the function. -/
structure Admitted (exact : Prop) (table : StructTable) (globals : List GlobalVariable)
    (f : FunctionDef) : Prop where
  definitions : f.definitions.Nodup
  code : ∀ i ∈ f.instrs, ∃ c : Setting, c.exact = exact ∧ c.env.structs = table ∧
    c.returnType = f.returnType ∧ c.Admits (f.ledger globals) i

variable {exact : Prop} {table : StructTable} {globals globals' : List GlobalVariable}
  {f : FunctionDef}

theorem ledger_mono (h : globals ⊆ globals') : f.ledger globals ⊆ f.ledger globals' := by
  rintro e (he | ⟨g, hg, rfl⟩)
  · exact .inl he
  · exact .inr ⟨g, h hg, rfl⟩

/-- More global variables make no difference. -/
theorem Admitted.mono (h : f.Admitted exact table globals) (hglobals : globals ⊆ globals') :
    f.Admitted exact table globals' where
  definitions := h.definitions
  code := by
    intro i hi
    obtain ⟨c, hexact, htable, hreturn, hadmits⟩ := h.code i hi
    exact ⟨c, hexact, htable, hreturn, hadmits.mono (ledger_mono hglobals)⟩

/-- A temporary that is written down has one type only. -/
theorem typeOf?_of_defines (h : f.definitions.Nodup) {t : Nat} {type : MachineType}
    (ht : (f.ledger globals).Defines t type) : f.typeOf? t = some type := by
  rcases ht with (ht | ⟨g, -, hg⟩) | ⟨i, hi | ⟨g, -, hg⟩, hresult, htype⟩
  · exact typeOf?_of_param h ht
  · cases hg
  · exact typeOf?_of_instr h hi hresult htype
  · cases hg

/-- Admitted instructions read every operand at the type with which it was defined. -/
theorem Admitted.wellTyped (h : f.Admitted exact table globals) : f.WellTyped := by
  intro i hi
  obtain ⟨c, -, -, hreturn, hadmits⟩ := h.code i hi
  rw [← hreturn]
  exact hadmits.wellTyped.imp fun t own ht => typeOf?_of_defines h.definitions ht

/-- A declaration has no instructions. -/
theorem admitted_declaration (name : String) (returnType : MachineType)
    (params : List MachineType) (isVararg : Bool) (location : Option Location) :
    (declaration name returnType params isVararg location).Admitted exact table globals where
  definitions := by
    simp [declaration, definitions, parameters, results, Function.comp_def, List.nodup_range']
  code := by simp [declaration, instrs]

end FunctionDef

namespace UnitState

/-- What is written down about the global variables of a unit. -/
def ledger (s : UnitState) : Ledger := {e | ∃ g ∈ s.code.globals, e = .global g}

/-- The struct table is finished, names have the machine types that it gives to their source
types, and the functions are made of admitted instructions. In an exact unit, there are no
unsigned integers, and the integers that global variables start with fit their types. -/
structure Regular (exact : Prop) (table : StructTable) (s : UnitState) : Prop where
  structs : s.structs = table
  consistent : table.Consistent
  signed : exact → table.IsSigned
  functions : ∀ entry ∈ s.functions, entry.2.Resolves table ∧ (exact → entry.2.IsSigned)
  globals : ∀ entry ∈ s.globals, s.ledger.Houses entry.2.storage entry.2.type ∧
    entry.2.type = table.resolve entry.2.source ∧ (exact → entry.2.source.isUnsigned = false)
  initializers : exact → ∀ g ∈ s.code.globals, ∀ v, g.initializer = some v → v.Fits g.type
  code : ∀ f ∈ s.code.functions, f.Admitted exact table s.code.globals

namespace Regular

variable {exact : Prop} {table : StructTable} {s : UnitState}

/-- Only global variables were added that start with integers that fit. -/
theorem of_grown (h : s.Regular exact table) {s' : UnitState} (hstructs : s'.structs = s.structs)
    (hfunctions : s'.functions = s.functions) (hglobals : s'.globals = s.globals)
    (hgrown : s.code.globals ⊆ s'.code.globals) (hcode : s'.code.functions = s.code.functions)
    (hfits : exact → ∀ g ∈ s'.code.globals, ∀ v, g.initializer = some v → v.Fits g.type) :
    s'.Regular exact table where
  structs := hstructs.trans h.structs
  consistent := h.consistent
  signed := h.signed
  functions := hfunctions ▸ h.functions
  globals := by
    have hledger : s.ledger ⊆ s'.ledger := by
      rintro e ⟨g, hg, rfl⟩
      exact ⟨g, hgrown hg, rfl⟩
    rw [hglobals]
    intro entry he
    obtain ⟨hhouses, htype, hsigned⟩ := h.globals entry he
    exact ⟨hhouses.mono hledger, htype, hsigned⟩
  initializers := hfits
  code := by
    rw [hcode]
    exact fun f hf => (h.code f hf).mono hgrown

/-- What a unit reports makes no difference. -/
theorem of_log (h : s.Regular exact table) (log : DiagnosticLog) :
    { s with log }.Regular exact table :=
  h.of_grown rfl rfl rfl (List.Subset.refl _) rfl h.initializers

/-- A global variable is added under its name. -/
theorem bindGlobal (h : s.Regular exact table) (name : String) {g : GlobalVariable} {b : Binding}
    (hstorage : b.storage = .global g.name) (htype : b.type = g.type)
    (hresolve : g.type = table.resolve b.source) (hsigned : exact → b.source.isUnsigned = false)
    (hfits : exact → ∀ v, g.initializer = some v → v.Fits g.type) :
    { s with code := s.code.addGlobal g, globals := (name, b) :: s.globals }.Regular
      exact table where
  structs := h.structs
  consistent := h.consistent
  signed := h.signed
  functions := h.functions
  globals := by
    have hlast : g ∈ (s.code.addGlobal g).globals := by simp [CodeModule.addGlobal]
    rintro entry (_ | ⟨_, he⟩)
    · refine ⟨?_, htype.trans hresolve, hsigned⟩
      rw [hstorage, htype]
      exact .global ⟨g, hlast, rfl⟩
    · obtain ⟨hhouses, htype, hsigned⟩ := h.globals entry he
      refine ⟨hhouses.mono ?_, htype, hsigned⟩
      rintro e ⟨g', hg', rfl⟩
      exact ⟨g', by simp [CodeModule.addGlobal, hg'], rfl⟩
  initializers := by
    intro hexact g' hg'
    rcases List.mem_append.mp hg' with hg' | hg'
    · exact h.initializers hexact g' hg'
    · obtain rfl := List.mem_singleton.mp hg'
      exact hfits hexact
  code := fun f hf => (h.code f hf).mono (List.subset_append_left _ _)

/-- A function takes a place in the module. -/
theorem replaceFunction (h : s.Regular exact table) {f : FunctionDef}
    (hf : f.Admitted exact table s.code.globals) :
    { s with code := s.code.replaceFunction f }.Regular exact table where
  structs := h.structs
  consistent := h.consistent
  signed := h.signed
  functions := h.functions
  globals := h.globals
  initializers := h.initializers
  code := by
    intro g hg
    rcases CodeModule.eq_or_mem_of_mem_replaceIn hg with rfl | hg
    · exact hf
    · exact h.code g hg

end Regular

end UnitState

namespace Declare

open UnitState

variable {α β : Type} {exact : Prop} {table : StructTable}

/-- The action leaves a regular unit regular, whether it succeeds or not, and its result is as
stated. -/
def Upholds (exact : Prop) (table : StructTable) (action : Declare α) (post : α → Prop) : Prop :=
  ∀ s : UnitState, s.Regular exact table → (exec action s).2.Regular exact table ∧
    ∀ a, (exec action s).1 = .ok a → post a

namespace Upholds

variable {x : Declare α} {post : α → Prop} {post' : β → Prop}

theorem pure {a : α} (h : post a) : Upholds exact table (pure a) post := by
  intro s hs
  refine ⟨hs, ?_⟩
  rintro _ ⟨rfl⟩
  exact h

theorem throw (e : LoweringError) : Upholds exact table (throw e : Declare α) post :=
  fun _ hs => ⟨hs, fun a ha => by cases ha⟩

theorem get : Upholds exact table (get : Declare UnitState) fun s => s.structs = table := by
  intro s hs
  refine ⟨hs, ?_⟩
  rintro _ ⟨rfl⟩
  exact hs.structs

theorem bind {f : α → Declare β} (hx : Upholds exact table x post)
    (hf : ∀ a, post a → Upholds exact table (f a) post') :
    Upholds exact table (x >>= f) post' := by
  intro s hs
  obtain ⟨hregular, hpost⟩ := hx s hs
  rcases hexec : exec x s with ⟨e | a, s'⟩
  all_goals rw [hexec] at hregular hpost
  · rw [exec_bind_of_error hexec]
    exact ⟨hregular, fun b hb => by cases hb⟩
  · rw [exec_bind_of_ok hexec]
    exact hf a (hpost a rfl) s' hregular

theorem warn (w : Warning) (location : Option Location) :
    Upholds exact table (Declare.warn w location) fun _ => True :=
  fun _ hs => ⟨hs.of_log _, fun _ _ => trivial⟩

theorem checkKnown (type : SourceType) (w : Warning) (location : Option Location) :
    Upholds exact table (Declare.checkKnown type w location) fun _ => True := by
  refine get.bind fun s _ => ?_
  split
  · exact pure trivial
  · exact warn w location

theorem forM {f : α → Declare Unit} (hf : ∀ a, Upholds exact table (f a) fun _ => True)
    (l : List α) : Upholds exact table (l.forM f) fun _ => True := by
  induction l with
  | nil => exact pure trivial
  | cons a l ih => exact (hf a).bind fun _ _ => ih

/-- The initializer of a global variable may add string literals. -/
theorem fold_initializer (name : String) {term : Term} (htame : exact → term.isTame = true) :
    Upholds exact table (Declare.fold (Fold.initializer name term))
      (Fold.Denotes exact term) := by
  intro s hs
  obtain ⟨hpools, hdenotes⟩ := Fold.initializer_denotes name term htame s.code.globals
  have heq : exec (Declare.fold (Fold.initializer name term)) s =
      exec (match exec (Fold.initializer name term) s.code.globals with
        | (result, globals) => do
          set { s with code := { s.code with globals := globals } }
          liftExcept result) s := rfl
  rw [heq]
  generalize exec (Fold.initializer name term) s.code.globals = outcome at hpools hdenotes ⊢
  obtain ⟨result, globals⟩ := outcome
  have hregular : UnitState.Regular exact table
      { s with code := { s.code with globals := globals } } := by
    refine hs.of_grown rfl rfl rfl hpools.subset rfl fun hexact g hg v hv => ?_
    rcases hpools.added g hg with hg | ⟨text, htext⟩
    · exact hs.initializers hexact g hg v hv
    · obtain rfl := Option.some.inj (hv.symm.trans htext)
      intro n hn
      cases hn
  cases result with
  | error e => exact ⟨hregular, fun v hv => by cases hv⟩
  | ok v =>
    refine ⟨hregular, ?_⟩
    rintro _ ⟨rfl⟩
    exact hdenotes v rfl

variable {decl : VariableDecl Term}

theorem globalType (hsigned : exact → decl.type.isUnsigned = false) {initial : Option TypedValue}
    (hinitial : ∀ v, initial = some v → v.inferredType.isUnsigned = false) :
    Upholds exact table (Declare.globalType decl initial)
      fun source => exact → source.isUnsigned = false := by
  unfold Declare.globalType
  split
  · cases initial with
    | some v => exact pure fun _ => hinitial v rfl
    | none => exact throw _
  · refine get.bind fun s _ => ?_
    split
    · exact pure hsigned
    · exact (warn _ decl.location).bind fun _ _ => pure hsigned

theorem globalValue (source : SourceType) (type : MachineType) {initial : Option TypedValue}
    (hinitial : exact → ∀ v, initial = some v → v.value.Fits v.type) :
    Upholds exact table (Declare.globalValue decl source type initial)
      fun value => exact → ∀ v, value = some v → v.Fits type := by
  cases initial with
  | none => exact pure fun _ v hv => by cases hv
  | some v =>
    rw [Declare.globalValue]
    cases hvalue : convertConstant? v type with
    | none => exact throw _
    | some value =>
      refine pure fun hexact _ heq => ?_
      obtain rfl := Option.some.inj heq
      exact fits_of_convertConstant? (hinitial hexact v rfl) hvalue

/-- A global variable is written down with the type of its name. -/
theorem globalVariable (hsigned : exact → decl.type.isUnsigned = false)
    (htame : exact → ∀ term, decl.initializer = some term → term.isTame = true) :
    Upholds exact table (Declare.globalVariable decl) fun _ => True := by
  unfold Declare.globalVariable
  refine get.bind fun s _ => ?_
  split
  · exact throw _
  · have hinitial : Upholds exact table
        (decl.initializer.mapM fun term => Declare.fold (Fold.initializer decl.name term))
        fun initial => ∀ v, initial = some v → v.inferredType.isUnsigned = false ∧
          (exact → v.value.Fits v.type) := by
      cases hterm : decl.initializer with
      | none => exact pure fun v hv => by cases hv
      | some term =>
        refine (fold_initializer decl.name fun hexact => htame hexact term hterm).bind
          fun v hv => pure fun _ heq => ?_
        obtain rfl := Option.some.inj heq
        exact ⟨hv.signed, hv.fits⟩
    refine hinitial.bind fun initial hinitial => ?_
    refine (globalType hsigned fun v hv => (hinitial v hv).1).bind fun source hsource => ?_
    refine get.bind fun s hs => ?_
    refine (globalValue source _ fun hexact v hv => (hinitial v hv).2 hexact).bind
      fun value hvalue s' hs' => ⟨?_, fun _ _ => trivial⟩
    exact hs'.bindGlobal decl.name rfl rfl (congrArg (·.resolve source) hs) hsource hvalue

/-- A function is declared with the signature for which its declaration stands. -/
theorem function (names : List String) {decl : FunctionDecl Statement}
    (hsigned : exact → ∀ type ∈ decl.returnType :: decl.params.map (·.type),
      type.isUnsigned = false) :
    Upholds exact table (Declare.function names decl) fun d => d.decl = decl ∧
      d.signature =
        .ofSource table (decl.params.map (·.type)) decl.returnType false decl.owner := by
  unfold Declare.function
  split
  · exact throw _
  · have hreturn : Upholds exact table (Declare.checkKnown decl.returnType
        (.unknownReturnType decl.returnType decl.name) decl.location) fun _ => True :=
      checkKnown _ _ _
    have hparams : Upholds exact table (decl.params.forM fun param =>
        Declare.checkKnown param.type (.unknownParameterType param.type param.name decl.name)
          decl.location) fun _ => True :=
      forM (fun param => checkKnown _ _ _) decl.params
    refine hreturn.bind fun _ _ => hparams.bind fun _ _ => ?_
    refine get.bind fun s hs s' hs' => ⟨⟨hs'.structs, hs'.consistent, hs'.signed, ?_,
      hs'.globals, hs'.initializers, ?_⟩, ?_⟩
    · rintro entry (_ | ⟨_, he⟩)
      · rw [hs]
        exact ⟨Signature.resolves_ofSource .., fun hexact =>
          Signature.isSigned_ofSource hs'.consistent (hsigned hexact)⟩
      · exact hs'.functions entry he
    · exact (hs'.replaceFunction (FunctionDef.admitted_declaration ..)).code
    · rintro _ ⟨rfl⟩
      exact ⟨rfl, by rw [hs]⟩

end Upholds

end Declare

end SsaLowering
