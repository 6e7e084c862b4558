import SsaLowering.Proofs.Calls

/-!
# Accepted global variables

The declarations of global variables are tried one after the other. The accepted ones have
different names, and they are bound in the order in which they were accepted, whatever was refused
in between.
-/

namespace SsaLowering

namespace UnitState

open StringPool

variable {s : UnitState} {decl : VariableDecl Term}

/-- The declarations of global variables that are accepted, one after the other. -/
def accepted (s : UnitState) : List (VariableDecl Term) → List (VariableDecl Term)
  | [] => []
  | decl :: rest =>
    if s.accepts decl then decl :: (s.addGlobal decl).accepted rest
    else (s.addGlobal decl).accepted rest

theorem accepted_append (s : UnitState) (decls : List (VariableDecl Term))
    (decl : VariableDecl Term) : s.accepted (decls ++ [decl]) =
      s.accepted decls ++ if (decls.foldl UnitState.addGlobal s).accepts decl then [decl] else [] := by
  induction decls generalizing s with
  | nil =>
    rw [List.nil_append, accepted, accepted, accepted]
    rfl
  | cons first rest ih =>
    rw [List.cons_append, accepted, accepted, ih]
    split <;> rfl

theorem accepted_subset (s : UnitState) (decls : List (VariableDecl Term)) :
    s.accepted decls ⊆ decls := by
  induction decls generalizing s with
  | nil => exact List.Subset.refl []
  | cons decl rest ih =>
    rw [accepted]
    split
    · exact List.cons_subset_cons decl (ih _)
    · exact List.subset_cons_of_subset decl (ih _)

/-- A declaration that is refused is reported. -/
theorem count_addGlobal_of_refused (h : s.accepts decl = false) :
    s.log.count .error < (s.addGlobal decl).log.count .error := by
  have hreport : ∃ log e, s.log.Warned log ∧ (s.addGlobal decl).log =
      log.report (LoweringError.toDiagnostic e) := by
    cases hlookup : s.globals.lookup decl.name with
    | some binding =>
      exact ⟨s.log, _, .refl _, by rw [addGlobal_of_repeated (by rw [hlookup]; rfl)]; rfl⟩
    | none =>
      obtain ⟨log, hlog, ⟨-, e, -, heq⟩ | ⟨haccepted, -⟩⟩ := addGlobal_of_new hlookup rfl
      · exact ⟨log, e, hlog, by rw [heq]; rfl⟩
      · rw [h] at haccepted
        cases haccepted
  obtain ⟨log, e, hlog, heq⟩ := hreport
  have hle := hlog.judges.count_le .error
  rw [heq, DiagnosticLog.count_report]
  simp only [LoweringError.toDiagnostic, Diagnostic.error, if_true]
  omega

/-- If none is reported, then all are accepted. -/
theorem accepted_of_clean (s : UnitState) (decls : List (VariableDecl Term))
    (h : (decls.foldl UnitState.addGlobal s).log.count .error ≤ s.log.count .error) :
    s.accepted decls = decls := by
  induction decls generalizing s with
  | nil => rfl
  | cons decl rest ih =>
    have hstep := (judges_addGlobal s decl).count_le .error
    have hrest := (judges_foldl_addGlobal (s.addGlobal decl) rest).count_le .error
    rw [List.foldl_cons] at h
    rw [accepted, ih _ (h.trans hstep)]
    cases haccepts : s.accepts decl with
    | true => rfl
    | false => exact absurd (hrest.trans h) (Nat.not_le.mpr (count_addGlobal_of_refused haccepts))

/-- What is remembered of a global variable: its name, where it lives, and whether it may be
written. -/
def globalKey (entry : String × Binding) : String × Storage × Bool :=
  (entry.1, entry.2.storage, entry.2.isMutable)

/-- What a declaration makes of it. -/
def declaredKey (decl : VariableDecl Term) : String × Storage × Bool :=
  (decl.name, .global decl.name, decl.isMutable)

theorem accepts_of_repeated (h : (s.globals.lookup decl.name).isSome = true) :
    s.accepts decl = false := by
  rw [accepts, Declare.exec_globalVariable_of_repeated h]
  rfl

/-- An accepted variable is bound in front of the others, under a new name. -/
theorem keys_addGlobal_of_accepts (h : s.accepts decl = true) :
    s.globals.lookup decl.name = none ∧
      (s.addGlobal decl).globals.map globalKey = declaredKey decl :: s.globals.map globalKey := by
  cases hlookup : s.globals.lookup decl.name with
  | some binding => rw [accepts_of_repeated (by rw [hlookup]; rfl)] at h; cases h
  | none =>
    obtain ⟨log, -, ⟨hrefused, -⟩ | ⟨-, source, value, -, -, -, heq⟩⟩ := addGlobal_of_new hlookup rfl
    · rw [h] at hrefused
      cases hrefused
    · rw [heq]
      exact ⟨rfl, rfl⟩

/-- A variable that is refused is not bound. -/
theorem globals_addGlobal_of_refused (h : s.accepts decl = false) :
    (s.addGlobal decl).globals = s.globals := by
  cases hlookup : s.globals.lookup decl.name with
  | some binding =>
    rw [addGlobal_of_repeated (by rw [hlookup]; rfl)]
    rfl
  | none =>
    obtain ⟨log, -, ⟨-, e, -, heq⟩ | ⟨haccepted, -⟩⟩ := addGlobal_of_new hlookup rfl
    · rw [heq]
      rfl
    · rw [h] at haccepted
      cases haccepted

/-- The bindings of global variables are the accepted ones, the last in front. -/
theorem keys_foldl_addGlobal (s : UnitState) (decls : List (VariableDecl Term)) :
    (decls.foldl UnitState.addGlobal s).globals.map globalKey =
      ((s.accepted decls).map declaredKey).reverse ++ s.globals.map globalKey := by
  induction decls generalizing s with
  | nil => rfl
  | cons decl rest ih =>
    rw [List.foldl_cons, ih, accepted]
    split
    · next h =>
      rw [(keys_addGlobal_of_accepts h).2]
      simp
    · next h => rw [globals_addGlobal_of_refused (by simpa using h)]

/-- Global variables are bound under different names. -/
theorem nodup_foldl_addGlobal (s : UnitState) (decls : List (VariableDecl Term))
    (h : (s.globals.map Prod.fst).Nodup) :
    ((decls.foldl UnitState.addGlobal s).globals.map Prod.fst).Nodup := by
  refine List.foldlRecOn (motive := fun s : UnitState => (s.globals.map Prod.fst).Nodup)
    decls _ h fun s hs decl _ => ?_
  cases haccepts : s.accepts decl with
  | false =>
    rw [globals_addGlobal_of_refused haccepts]
    exact hs
  | true =>
    obtain ⟨hnew, hkeys⟩ := keys_addGlobal_of_accepts haccepts
    have hnames := congrArg (List.map Prod.fst) hkeys
    simp only [List.map_map, List.map_cons] at hnames
    rw [show (Prod.fst ∘ globalKey : String × Binding → String) = Prod.fst from rfl] at hnames
    rw [hnames]
    refine List.nodup_cons.mpr ⟨fun hmem => ?_, hs⟩
    obtain ⟨entry, hentry, hname⟩ := List.mem_map.mp hmem
    have hne := List.lookup_eq_none_iff.mp hnew entry hentry
    exact absurd hname.symm (bne_iff_ne.mp hne)

/-! ## Entries of the module -/

/-- A global variable that is in the module for a declaration. If the initializer comes to a text,
then the variable starts with the address of the constant of that text, which comes before it. -/
structure Enters (table : StructTable) (globals : List GlobalVariable) (g : GlobalVariable)
    (decl : VariableDecl Term) : Prop where
  name : g.name = decl.name
  isConstant : g.isConstant = !decl.isMutable
  linkage : g.linkage = .external
  type : ∃ source, (decl.type.isInferred = false → source = decl.type) ∧
    g.type = table.resolve source
  text : ∀ text, decl.literalText? = some text → ∃ before after, globals = before ++ g :: after ∧
    ∃ c ∈ before, text? c = some text ∧ g.initializer = some (.global c.name)

theorem Enters.mono {table : StructTable} {globals globals' : List GlobalVariable}
    {g : GlobalVariable} (h : Enters table globals g decl) (hglobals : globals <+: globals') :
    Enters table globals' g decl where
  name := h.name
  isConstant := h.isConstant
  linkage := h.linkage
  type := h.type
  text := by
    intro text htext
    obtain ⟨before, after, rfl, c, hc⟩ := h.text text htext
    obtain ⟨more, rfl⟩ := hglobals
    exact ⟨before, after ++ more, by simp, c, hc⟩

/-- A declaration that is no repetition has an initializer that comes to the text. -/
def Needs (s : UnitState) (decls : List (VariableDecl Term)) (text : String) : Prop :=
  ∃ before decl after, decls = before ++ decl :: after ∧
    (before.foldl UnitState.addGlobal s).globals.lookup decl.name = none ∧
    decl.literalText? = some text

theorem needs_append {decls : List (VariableDecl Term)} {text : String} :
    s.Needs (decls ++ [decl]) text ↔ s.Needs decls text ∨
      (decls.foldl UnitState.addGlobal s).globals.lookup decl.name = none ∧
        decl.literalText? = some text := by
  constructor
  · rintro ⟨before, other, after, heq, hnew, htext⟩
    rcases List.eq_nil_or_concat after with rfl | ⟨after, last, rfl⟩
    · obtain ⟨rfl, hlast⟩ := List.append_inj' heq rfl
      obtain rfl := List.singleton_inj.mp hlast
      exact .inr ⟨hnew, htext⟩
    · rw [List.concat_eq_append, ← List.cons_append, ← List.append_assoc] at heq
      obtain ⟨rfl, -⟩ := List.append_inj' heq rfl
      exact .inl ⟨before, other, after, rfl, hnew, htext⟩
  · rintro (⟨before, other, after, rfl, hnew, htext⟩ | ⟨hnew, htext⟩)
    · exact ⟨before, other, after ++ [decl], by simp, hnew, htext⟩
    · exact ⟨decls, decl, [], rfl, hnew, htext⟩

/-- The global variables of a unit are those that were declared, in order, and between them the
constants of the texts that were reached. -/
structure Lists (s : UnitState) (decls : List (VariableDecl Term)) (reached : String → Prop) :
    Prop where
  pooled : Pooled s.code.globals
  entries : List.Forall₂ (Enters s.structs s.code.globals)
    (s.code.globals.filter fun g => (text? g).isNone) decls
  texts : ∀ text, text ∈ texts s.code.globals ↔ reached text

namespace Lists

variable {decls : List (VariableDecl Term)} {reached : String → Prop}

/-- Only structs and global variables matter. -/
theorem of_eq {s' : UnitState} (h : s.Lists decls reached) (hstructs : s'.structs = s.structs)
    (hglobals : s'.code.globals = s.code.globals) : s'.Lists decls reached where
  pooled := hglobals ▸ h.pooled
  entries := by
    rw [hstructs, hglobals]
    exact h.entries
  texts := by
    rw [hglobals]
    exact h.texts

/-- Some texts are reached. -/
theorem intern (h : s.Lists decls reached) {globals : List GlobalVariable}
    (hglobals : Interned s.code.globals globals) :
    { s with code := { s.code with globals } }.Lists decls (· ∈ StringPool.texts globals) where
  pooled := hglobals.pooled h.pooled
  entries := by
    show List.Forall₂ _ (globals.filter fun g => (text? g).isNone) decls
    rw [hglobals.filter_eq]
    exact h.entries.imp fun _ _ henters => henters.mono hglobals.isPrefix_of
  texts := fun _ => Iff.rfl

/-- A variable is added, whose initializer may come to a text. -/
theorem add (h : s.Lists decls reached) {g : GlobalVariable} (hg : text? g = none)
    (hname : g.name = decl.name) (hconstant : g.isConstant = !decl.isMutable)
    (hlinkage : g.linkage = .external) (htype : ∃ source,
      (decl.type.isInferred = false → source = decl.type) ∧ g.type = s.structs.resolve source)
    (htext : ∀ text, decl.literalText? = some text →
      ∃ c ∈ s.code.globals, text? c = some text ∧ g.initializer = some (.global c.name)) :
    { s with code := { s.code with globals := s.code.globals ++ [g] } }.Lists
      (decls ++ [decl]) reached where
  pooled := h.pooled.append hg
  entries := by
    show List.Forall₂ _ ((s.code.globals ++ [g]).filter fun g => (text? g).isNone) _
    rw [List.filter_append, show [g].filter (fun g => (text? g).isNone) = [g] by simp [hg]]
    refine List.rel_append (h.entries.imp fun _ _ henters => henters.mono (List.prefix_append ..))
      (.cons ⟨hname, hconstant, hlinkage, htype, fun text ht => ?_⟩ .nil)
    exact ⟨s.code.globals, [], rfl, htext text ht⟩
  texts := by
    intro text
    show text ∈ StringPool.texts (s.code.globals ++ [g]) ↔ reached text
    rw [← h.texts text]
    simp [StringPool.texts, hg]

theorem imp (h : s.Lists decls reached) {reached' : String → Prop}
    (hreached : ∀ text, reached text ↔ reached' text) : s.Lists decls reached' :=
  ⟨h.pooled, h.entries, fun text => (h.texts text).trans (hreached text)⟩

/-- One more declaration is tried. If its name is new then its text is reached, and the variable is
added if it is accepted. -/
theorem addGlobal (h : s.Lists decls reached) (decl : VariableDecl Term) :
    (s.addGlobal decl).structs = s.structs ∧
      (s.addGlobal decl).Lists (decls ++ if s.accepts decl then [decl] else []) fun text =>
        reached text ∨ s.globals.lookup decl.name = none ∧ decl.literalText? = some text := by
  cases hlookup : s.globals.lookup decl.name with
  | some binding =>
    have hrepeated : (s.globals.lookup decl.name).isSome = true := by rw [hlookup]; rfl
    rw [accepts_of_repeated hrepeated, addGlobal_of_repeated hrepeated]
    have hkept : (s.reportError ⟨.redefinition .global decl.name, decl.location⟩).Lists
      decls reached := h.of_eq rfl rfl
    refine ⟨rfl, ?_⟩
    rw [if_neg Bool.false_ne_true, List.append_nil]
    exact hkept.imp fun text => by simp
  | none =>
    simp only [true_and]
    have hheld : { s with code := { s.code with
        globals := hold s.code.globals decl.literalText? } }.Lists decls
        fun text => reached text ∨ decl.literalText? = some text :=
      (h.intern (interned_hold _ _)).imp fun text => by
        rw [mem_texts_hold, h.texts]
        simp [or_comm]
    obtain ⟨log, -, ⟨haccepts, e, -, heq⟩ |
      ⟨haccepts, source, value, hsource, hvalue, haddress, heq⟩⟩ := addGlobal_of_new hlookup rfl
    all_goals
      rw [heq, haccepts]
      refine ⟨rfl, ?_⟩
    · rw [if_neg Bool.false_ne_true, List.append_nil]
      exact hheld.of_eq rfl rfl
    · have htext : text? ⟨decl.name, s.structs.resolve source, !decl.isMutable, value,
          .external⟩ = none := text?_eq_none fun text ht => (hvalue _ ht).plain text rfl
      rw [if_pos rfl]
      refine (hheld.add htext rfl rfl rfl ⟨source, hsource, rfl⟩ fun text ht => ?_).of_eq rfl rfl
      obtain ⟨c, hc, hctext, hname⟩ := h.pooled.exists_constant text
      refine ⟨c, ?_, hctext, hname ▸ haddress text ht⟩
      show c ∈ hold _ decl.literalText?
      rw [ht]
      exact hc

end Lists

/-- The accepted variables are listed, whatever was refused in between. -/
theorem lists_foldl_addGlobal (hs : s.code.globals = []) (decls : List (VariableDecl Term)) :
    (decls.foldl UnitState.addGlobal s).structs = s.structs ∧
      (decls.foldl UnitState.addGlobal s).Lists (s.accepted decls) (s.Needs decls) := by
  induction decls using List.reverseRecOn with
  | nil =>
    refine ⟨rfl, ⟨?_, ?_, ?_⟩⟩
    all_goals rw [List.foldl_nil, hs]
    · exact pooled_nil
    · exact .nil
    · intro text
      simp [StringPool.texts, Needs]
  | append_singleton decls decl ih =>
    obtain ⟨hstructs, hlists⟩ := ih
    obtain ⟨hstep, hadded⟩ := hlists.addGlobal decl
    rw [List.foldl_append, List.foldl_cons, List.foldl_nil, accepted_append]
    exact ⟨hstep.trans hstructs, hadded.imp fun text => needs_append.symm⟩

theorem globals_addBody (options : LoweringOptions) (s : UnitState) (d : DeclaredFunction)
    (body : Statement) : (s.addBody options d body).globals = s.globals := by
  unfold addBody
  dsimp only
  split
  · rfl
  · split <;> rfl

end UnitState

namespace Program

open UnitState

variable {p : Program} {options : LoweringOptions} {log : DiagnosticLog} {s : UnitState}
  {d : DeclaredFunction} {body : Statement}

/-- The declarations of global variables of a program that are accepted. -/
def acceptedGlobals (p : Program) (moduleName : String) (log : DiagnosticLog) :
    List (VariableDecl Term) :=
  (p.laidOut moduleName log).accepted p.globals

/-- Behind the declarations of a program, the accepted variables are bound. -/
theorem keys_declare (p : Program) (moduleName : String) (log : DiagnosticLog) :
    (p.declare moduleName log).1.globals.map globalKey =
      ((p.acceptedGlobals moduleName log).map declaredKey).reverse := by
  have hlaid : (p.laidOut moduleName log).Bare False := p.bare_laidOut False.elim moduleName log
  have hglobals := keys_foldl_addGlobal (p.laidOut moduleName log) p.globals
  rw [hlaid.globals, List.map_nil, List.append_nil] at hglobals
  refine List.foldlRecOn (motive := fun acc : UnitState × List DeclaredFunction =>
    acc.1.globals.map globalKey = ((p.acceptedGlobals moduleName log).map declaredKey).reverse)
    p.functions UnitState.addFunction hglobals ?_
  rintro ⟨s, declared⟩ hs decl -
  rcases s.addFunction_cases declared decl with ⟨-, e, -, heq⟩ | ⟨-, d, log, -, -, -, heq⟩
  all_goals
    rw [heq]
    exact hs

/-- Accepted variables have different names. -/
theorem nodup_acceptedGlobals (p : Program) (moduleName : String) (log : DiagnosticLog) :
    ((p.acceptedGlobals moduleName log).map (·.name)).Nodup := by
  have hlaid : (p.laidOut moduleName log).Bare False := p.bare_laidOut False.elim moduleName log
  have hkeys := keys_foldl_addGlobal (p.laidOut moduleName log) p.globals
  have hnodup := nodup_foldl_addGlobal (p.laidOut moduleName log) p.globals
    (by simp [hlaid.globals])
  have hnames := congrArg (List.map Prod.fst) hkeys
  rw [hlaid.globals, List.map_nil, List.append_nil, List.map_reverse, List.map_map,
    List.map_map] at hnames
  exact List.nodup_reverse.mp (hnames ▸ hnodup)

/-- Bodies declare no global variables. -/
theorem Turn.globals_eq (h : p.Turn options log s d body) :
    s.globals = (p.declare options.moduleName log).1.globals :=
  (p.induction_turns options log
    (motive := fun s => s.globals = (p.declare options.moduleName log).1.globals) rfl
    fun s d body _ hs => (globals_addBody options s d body).trans hs).1 s d body h

/-- What a body can refer to as a global variable was accepted. -/
theorem Turn.exists_accepted (h : p.Turn options log s d body) {entry : String × Binding}
    (hentry : entry ∈ s.globals) :
    ∃ decl ∈ p.acceptedGlobals options.moduleName log, declaredKey decl = globalKey entry := by
  have hkey : globalKey entry ∈ s.globals.map globalKey := List.mem_map_of_mem hentry
  rw [h.globals_eq, p.keys_declare, List.mem_reverse] at hkey
  exact List.mem_map.mp hkey

end Program

end SsaLowering
