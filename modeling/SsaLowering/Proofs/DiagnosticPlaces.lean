import SsaLowering.Proofs.DeclarationPlaces
import SsaLowering.Proofs.FirstDeclarations
import SsaLowering.Proofs.Handles

/-!
# No diagnostic without a place

If every node of a unit has a place, then its trees have no other places, and so every diagnostic
has one. Where a statement fails, the place of the error is that of the statement or of something
inside it.
-/

namespace SsaLowering

/-- Where a declaration stands. -/
def Declaration.location {ε σ : Type} : Declaration ε σ → Option Location
  | .interface decl => decl.location
  | .struct decl => decl.location
  | .function decl => decl.location
  | .variable decl => decl.location

/-- Every expression, every statement, every variable and every declaration of the unit has a
place. -/
structure Arena.Located (arena : Arena) : Prop where
  exprs : ∀ e ∈ arena.exprs, e.location.isSome
  stmts : ∀ s ∈ arena.stmts, s.location.isSome
  locals : ∀ s ∈ arena.stmts, ∀ decl, s.node = .variable decl → decl.location.isSome
  items : ∀ item ∈ arena.items, item.location.isSome

/-- Wherever the lowering of a part of a body fails, and whatever it reports before it is recovered
from, the place is known and stands inside the part. -/
structure Visit.FailsInside (env : Environment) (context : FunctionContext) (w : Visit) : Prop where
  reported : ∀ statement, w.node = .statement statement →
    w.state.log.Extends (fun d => d.location.isSome ∧ d.location ∈ statement.locations)
      (exec (Lower.recovering (Lower.lowerStatement env context statement)) w.state).2.log
  statement : ∀ statement e s', w.node = .statement statement →
    exec (Lower.lowerStatement env context statement) w.state = (.error e, s') →
      e.location.isSome ∧ e.location ∈ statement.locations
  term : ∀ term e s', w.node = .term term →
    exec (Lower.lowerTerm env term) w.state = (.error e, s') →
      e.location.isSome ∧ e.location ∈ term.locations

/-! ## Trees of nodes that have places -/

theorem none_notMem_cons {location : Option Location} {rest : List (Option Location)}
    (h : location.isSome) (hrest : none ∉ rest) : none ∉ location :: rest := by
  rw [List.mem_cons, not_or]
  exact ⟨fun heq => by simp [← heq] at h, hrest⟩

section

variable {child root : ExprId → Term → Prop} {part : StmtId → Statement → Prop}

theorem Term.none_notMem_allLocations {args : List ExprId} {terms : List Term}
    (hchild : ∀ id t, child id t → none ∉ t.locations) (h : List.Forall₂ child args terms) :
    none ∉ Term.allLocations terms := by
  induction h with
  | nil => exact List.not_mem_nil
  | cons hterm _ ih => exact fun hmem => (List.mem_append.mp hmem).elim (hchild _ _ hterm) ih

theorem Term.none_notMem_optionalLocations {o : Option ExprId} {term : Option Term}
    (hroot : ∀ id t, root id t → none ∉ t.locations) (h : Option.Rel root o term) :
    none ∉ Term.optionalLocations term := by
  cases h with
  | none => exact List.not_mem_nil
  | some hterm => exact hroot _ _ hterm

/-- An expression that has a place spells a tree of places, if its operands do. -/
theorem Expr.Spells.none_notMem {e : Expr} {term : Term} (h : e.Spells child term)
    (he : e.location.isSome) (hchild : ∀ id t, child id t → none ∉ t.locations) :
    none ∉ term.locations := by
  cases h with
  | literal | name | alloc => exact none_notMem_cons he List.not_mem_nil
  | call hargs => exact none_notMem_cons he (Term.none_notMem_allLocations hchild hargs)
  | unary hoperand | cast hoperand | member hoperand =>
    exact none_notMem_cons he (hchild _ _ hoperand)
  | binary hleft hright | assign hleft hright =>
    refine none_notMem_cons he fun hmem => ?_
    exact (List.mem_append.mp hmem).elim (hchild _ _ hleft) (hchild _ _ hright)

theorem VariableDecl.Spells.none_notMem {decl : VariableDecl ExprId} {tree : VariableDecl Term}
    (h : decl.Spells root tree) (hdecl : decl.location.isSome)
    (hroot : ∀ id t, root id t → none ∉ t.locations) : none ∉ tree.locations := by
  obtain ⟨initializer, hinitializer, rfl⟩ := h
  exact none_notMem_cons hdecl (Term.none_notMem_optionalLocations hroot hinitializer)

theorem Statement.none_notMem_allLocations {ids : List StmtId} {body : List Statement}
    (hpart : ∀ id t, part id t → none ∉ t.locations) (h : List.Forall₂ part ids body) :
    none ∉ Statement.allLocations body := by
  induction h with
  | nil => exact List.not_mem_nil
  | cons hterm _ ih => exact fun hmem => (List.mem_append.mp hmem).elim (hpart _ _ hterm) ih

theorem Statement.none_notMem_optionalLocations {o : Option StmtId} {statement : Option Statement}
    (hpart : ∀ id t, part id t → none ∉ t.locations) (h : Option.Rel part o statement) :
    none ∉ Statement.optionalLocations statement := by
  cases h with
  | none => exact List.not_mem_nil
  | some hstatement => exact hpart _ _ hstatement

/-- A statement that has a place spells a tree of places, if its parts do. -/
theorem Stmt.Spells.none_notMem {s : Stmt} {statement : Statement}
    (h : s.Spells root part statement) (hs : s.location.isSome)
    (hdecl : ∀ decl, s.node = .variable decl → decl.location.isSome)
    (hroot : ∀ id t, root id t → none ∉ t.locations)
    (hpart : ∀ id t, part id t → none ∉ t.locations) : none ∉ statement.locations := by
  cases h with
  | block hbody => exact none_notMem_cons hs (Statement.none_notMem_allLocations hpart hbody)
  | expression hvalue => exact none_notMem_cons hs (hroot _ _ hvalue)
  | declaration htree => exact none_notMem_cons hs (htree.none_notMem (hdecl _ rfl) hroot)
  | branch hcondition hthen helse =>
    refine none_notMem_cons hs ?_
    simp only [List.mem_append, not_or]
    exact ⟨⟨hroot _ _ hcondition, hpart _ _ hthen⟩,
      Statement.none_notMem_optionalLocations hpart helse⟩
  | whileLoop hcondition hbody =>
    refine none_notMem_cons hs ?_
    simp only [List.mem_append, not_or]
    exact ⟨hroot _ _ hcondition, hpart _ _ hbody⟩
  | forLoop hinit hcondition hupdate hbody =>
    refine none_notMem_cons hs ?_
    simp only [List.mem_append, not_or]
    exact ⟨⟨⟨Statement.none_notMem_optionalLocations hpart hinit,
      Term.none_notMem_optionalLocations hroot hcondition⟩,
      Term.none_notMem_optionalLocations hroot hupdate⟩, hpart _ _ hbody⟩
  | ret hvalue => exact none_notMem_cons hs (Term.none_notMem_optionalLocations hroot hvalue)

/-- So does a declaration. -/
theorem Declaration.Spells.none_notMem {item : Declaration ExprId StmtId}
    {tree : Declaration Term Statement} (h : item.Spells root part tree)
    (hitem : item.location.isSome) (hroot : ∀ id t, root id t → none ∉ t.locations)
    (hpart : ∀ id t, part id t → none ∉ t.locations) : none ∉ tree.locations := by
  cases h with
  | interface | struct => exact none_notMem_cons hitem List.not_mem_nil
  | global hdecl => exact hdecl.none_notMem hitem hroot
  | function hdecl =>
    obtain ⟨body, hbody, rfl⟩ := hdecl
    exact none_notMem_cons hitem (Statement.none_notMem_optionalLocations hpart hbody)

end

namespace Arena

open Expansion Lower

variable {arena : Arena} {terms : Array Term} {parts : Array Statement} {p : Program}

namespace Located

variable (h : arena.Located)

include h

/-- By induction on the position, since an expression is behind its operands. -/
theorem none_notMem_term (hterms : Expansion.terms arena.exprs = .ok terms) (k : Nat) {t : Term}
    (ht : terms[k]? = some t) : none ∉ t.locations := by
  induction k using Nat.strong_induction_on generalizing t with
  | _ k ih =>
    obtain ⟨e, done, he, -, hterm, hdone⟩ := exists_of_getElem?_foldlM hterms ht
    refine (spells_of_term hterm).none_notMem (h.exprs e (Array.mem_of_getElem? he)) ?_
    intro id u hu
    obtain ⟨hless, hu⟩ := hdone _ _ (operand_eq_ok hu).1
    exact ih _ hless hu

theorem none_notMem_statement (hterms : Expansion.terms arena.exprs = .ok terms)
    (hparts : Expansion.statements terms arena.stmts = .ok parts) (k : Nat) {t : Statement}
    (ht : parts[k]? = some t) : none ∉ t.locations := by
  induction k using Nat.strong_induction_on generalizing t with
  | _ k ih =>
    obtain ⟨s, done, hs, -, hstatement, hdone⟩ := exists_of_getElem?_foldlM hparts ht
    have hmem := Array.mem_of_getElem? hs
    refine (spells_of_statement hstatement).none_notMem (h.stmts s hmem) (h.locals s hmem)
      (fun _ _ hroot => h.none_notMem_term hterms _ (rootTerm_eq_ok hroot)) ?_
    intro id u hu
    obtain ⟨hless, hu⟩ := hdone _ _ (part_eq_ok hu).1
    exact ih _ hless hu

/-- In the program of a unit whose nodes have places there is no other place. -/
theorem none_notMem_locations (hexpand : arena.expand = .ok p) : none ∉ p.locations := by
  obtain ⟨terms, parts, hterms, hparts, hspells⟩ := exists_spells hexpand
  intro hmem
  obtain ⟨tree, htree, hmem⟩ := List.mem_flatMap.mp hmem
  obtain ⟨item, hitem, hspells⟩ := exists_of_forall₂ hspells.flip htree
  exact hspells.none_notMem (h.items item hitem) (fun _ _ => h.none_notMem_term hterms _)
    (fun _ _ => h.none_notMem_statement hterms hparts _) hmem

end Located

/-- In a valid unit whose nodes have places, every diagnostic has a place in the program, and
whatever part of a body fails, the error is placed inside this part. -/
theorem diagnostics_located (hvalid : arena.validate = .ok ()) (h : arena.Located)
    (options : LoweringOptions) (log : DiagnosticLog) :
    ∃ p, arena.expand = .ok p ∧
      log.Extends (fun d => d.location.isSome ∧ d.location ∈ p.locations)
        (p.generate options log).2 ∧
      ∀ s d body, p.Turn options log s d body → ∀ w,
        (s.bodyVisit d body).Contains (s.environment d) (UnitState.context d) w →
        w.FailsInside (s.environment d) (UnitState.context d) := by
  obtain ⟨p, hexpand, -⟩ := bind_eq_ok.mp hvalid
  have hnone := h.none_notMem_locations hexpand
  have hplace {location : Option Location} {places : List (Option Location)}
      (hsub : places ⊆ p.locations) (hmem : location ∈ places) :
      location.isSome ∧ location ∈ places := by
    refine ⟨Option.isSome_iff_ne_none.mpr ?_, hmem⟩
    rintro rfl
    exact hnone (hsub hmem)
  refine ⟨p, hexpand, (p.extends_generate options log).mono fun _ => hplace fun _ hl => hl, ?_⟩
  intro s d body hturn w hw
  have hinside := hturn.locations_subset hw
  have henv := hturn.sound.rooted.environment d
  have hready : (s.bodyVisit d body).Ready := UnitState.steady_opened
  have hstays : w.StaysAt (s.environment d) (UnitState.context d) w.node.locations :=
    (hready.contains henv hw).staysAt henv
  obtain ⟨node, t⟩ := w
  refine ⟨?_, ?_, ?_⟩
  · rintro statement rfl
    have hstays : Places statement.locations _ t := hstays
    exact hstays.recovering.1.log.mono fun _ => hplace hinside
  · rintro statement e t' rfl hexec
    have hstays : Places statement.locations _ t := hstays
    exact hplace hinside (hstays.2 e (congrArg Prod.fst hexec))
  · rintro term e t' rfl hexec
    have hstays : Places term.locations _ t := hstays
    exact hplace hinside (hstays.2 e (congrArg Prod.fst hexec))

/-- A function whose only statement reads an unknown name. -/
def unknownName : Arena where
  exprs := #[⟨.variable "missing", some (.unnamed 3 5)⟩]
  stmts := #[⟨.expression ⟨0⟩, some (.unnamed 3 1)⟩, ⟨.block [⟨0⟩], some (.unnamed 2 1)⟩]
  items := [.function
    ⟨"reads", [], .named "void", some ⟨1⟩, none, some (.unnamed 1 1)⟩]

theorem diagnostics_located_unknownName : ∃ p, unknownName.expand = .ok p ∧
    (p.generate .standard .empty).2.entries.map (·.location) = [some (.unnamed 3 5)] ∧
    ∀ d ∈ (p.generate .standard .empty).2.entries, d.location ∈ p.locations := by
  have hlocated : unknownName.Located := ⟨by decide, by decide, by simp [unknownName], by decide⟩
  obtain ⟨p, hexpand, ⟨reported, hlog, hplaced⟩, -⟩ :=
    diagnostics_located (show unknownName.validate = .ok () from rfl) hlocated .standard .empty
  refine ⟨p, hexpand, ?_, fun d hd => (hplaced d (by rwa [hlog] at hd)).2⟩
  let body : Statement := .block (some (.unnamed 2 1))
    [.expression (some (.unnamed 3 1)) (.variable (some (.unnamed 3 5)) "missing")]
  obtain rfl : (⟨[.function ⟨"reads", [], .named "void", some body, none,
    some (.unnamed 1 1)⟩]⟩ : Program) = p := Except.ok.inj hexpand
  decide +kernel

end Arena

end SsaLowering
