import SsaLowering.Proofs.FirstDeclarations
import SsaLowering.Proofs.Handles

/-!
# Linked arenas

The handles of an arena can be followed exactly if each of them names a node, and one that is held
by a node of its own kind comes before the handle of that node.
-/

namespace SsaLowering

/-! ## The handles that are held -/

/-- The operands of an expression. -/
def ExprNode.operands : ExprNode → List ExprId
  | .literal _ | .variable _ | .alloc _ => []
  | .call _ args => args
  | .binary _ left right => [left, right]
  | .unary _ operand | .cast _ operand => [operand]
  | .assign target value => [target, value]
  | .member object _ => [object]

/-- The expressions that a statement names. -/
def StmtNode.roots : StmtNode → List ExprId
  | .block _ => []
  | .expression value => [value]
  | .variable decl => decl.initializer.toList
  | .branch condition _ _ | .whileLoop condition _ => [condition]
  | .forLoop _ condition update _ => condition.toList ++ update.toList
  | .ret value => value.toList

/-- The statements that a statement consists of. -/
def StmtNode.parts : StmtNode → List StmtId
  | .block body => body
  | .expression _ | .variable _ | .ret _ => []
  | .branch _ thenBranch elseBranch => thenBranch :: elseBranch.toList
  | .whileLoop _ body => [body]
  | .forLoop init _ _ body => init.toList ++ [body]

/-- The expression that a declaration names. -/
def Declaration.root? : Declaration ExprId StmtId → Option ExprId
  | .variable decl => decl.initializer
  | .interface _ | .struct _ | .function _ => none

/-- The statement that a declaration names. -/
def Declaration.body? : Declaration ExprId StmtId → Option StmtId
  | .function decl => decl.body
  | .interface _ | .struct _ | .variable _ => none

/-- Every handle in the arena names a node. In a node of its own kind, it comes before the handle
of that node, which is its place as a number of 32 bits. -/
structure Arena.Linked (arena : Arena) : Prop where
  operands : ∀ (k : Nat) (e : Expr), arena.exprs[k]? = some e →
    ∀ id ∈ e.node.operands, id.index < UInt32.ofNat k
  roots : ∀ s ∈ arena.stmts, ∀ id ∈ s.node.roots, id.index.toNat < arena.exprs.size
  parts : ∀ (k : Nat) (s : Stmt), arena.stmts[k]? = some s →
    ∀ id ∈ s.node.parts, id.index < UInt32.ofNat k
  initializers : ∀ item ∈ arena.items, ∀ id ∈ item.root?, id.index.toNat < arena.exprs.size
  bodies : ∀ item ∈ arena.items, ∀ id ∈ item.body?, id.index.toNat < arena.stmts.size

/-! ## Linked arenas can be expanded -/

section Sequences

variable {ε α β : Type} {f : α → Except ε β}

theorem exists_mapM {l : List α} (h : ∀ a ∈ l, ∃ b, f a = .ok b) :
    ∃ results, l.mapM f = .ok results := by
  induction l with
  | nil => exact ⟨[], rfl⟩
  | cons a l ih =>
    obtain ⟨b, hb⟩ := h a (.head _)
    obtain ⟨results, hresults⟩ := ih fun a ha => h a (.tail _ ha)
    exact ⟨b :: results, by rw [List.mapM_cons, hb, hresults]; rfl⟩

theorem exists_optionMapM {o : Option α} (h : ∀ a ∈ o, ∃ b, f a = .ok b) :
    ∃ result, o.mapM f = .ok result := by
  cases o with
  | none => exact ⟨none, rfl⟩
  | some a =>
    obtain ⟨b, hb⟩ := h a rfl
    refine ⟨some b, ?_⟩
    show some <$> f a = _
    rw [hb]
    rfl

/-- Steps that each have a result for what was built up before them succeed in sequence. -/
theorem exists_foldlM_push {f : Array β → α → Except ε β} {l : List α} (init : Array β)
    (h : ∀ k a done, l[k]? = some a → done.size = init.size + k → ∃ b, f done a = .ok b) :
    ∃ results, l.foldlM (fun done a => return done.push (← f done a)) init = .ok results := by
  induction l generalizing init with
  | nil => exact ⟨init, rfl⟩
  | cons a l ih =>
    obtain ⟨b, hb⟩ := h 0 a init rfl rfl
    obtain ⟨results, hresults⟩ := ih (init.push b) fun k c done hc hsize =>
      h (k + 1) c done (by simpa using hc) (by rw [hsize, Array.size_push]; omega)
    refine ⟨results, ?_⟩
    rw [List.foldlM_cons, hb]
    exact hresults

/-- As many results are built up as there are elements. -/
theorem size_of_foldlM_push {f : Array β → α → Except ε β} {xs : Array α} {results : Array β}
    (h : xs.foldlM (fun done a => return done.push (← f done a)) #[] = .ok results) :
    results.size = xs.size := by
  rw [← Array.foldlM_toList] at h
  simpa using (exists_of_foldlM_push h).1

end Sequences

namespace Expansion

variable {total : Nat} {terms done : Array Term} {parts statements : Array Statement}

/-- The handle of a place is not behind it. -/
theorem toNat_lt_of_lt_ofNat {index : UInt32} {k : Nat} (h : index < UInt32.ofNat k) :
    index.toNat < k :=
  Nat.lt_of_lt_of_le (UInt32.lt_iff_toNat_lt.mp h) (Nat.mod_le k _)

theorem exists_operand {id : ExprId} (h : id.index < UInt32.ofNat done.size) :
    ∃ t, operand total done id = .ok t := by
  rw [operand, Array.getElem?_eq_getElem (toNat_lt_of_lt_ofNat h)]
  exact ⟨_, if_pos h⟩

theorem exists_part {id : StmtId} (h : id.index < UInt32.ofNat parts.size) :
    ∃ s, part total parts id = .ok s := by
  rw [part, Array.getElem?_eq_getElem (toNat_lt_of_lt_ofNat h)]
  exact ⟨_, if_pos h⟩

theorem exists_rootTerm (owner : HandleOwner) {id : ExprId} (h : id.index.toNat < terms.size) :
    ∃ t, rootTerm owner terms id = .ok t := by
  rw [rootTerm, Array.getElem?_eq_getElem h]
  exact ⟨_, rfl⟩

/-- An expression is expanded if its operands were. -/
theorem exists_term {e : Expr}
    (h : ∀ id ∈ e.node.operands, id.index < UInt32.ofNat done.size) :
    ∃ t, term total done e = .ok t := by
  have hchild : ∀ id ∈ e.node.operands, ∃ t, operand total done id = .ok t :=
    fun id hid => exists_operand (h id hid)
  obtain ⟨node, location⟩ := e
  cases node with
  | call callee args =>
    obtain ⟨trees, htrees⟩ := exists_mapM hchild
    exact ⟨_, bind_eq_ok.mpr ⟨trees, htrees, rfl⟩⟩
  | unary op operand =>
    obtain ⟨t, ht⟩ := hchild operand (.head _)
    exact ⟨_, bind_eq_ok.mpr ⟨t, ht, rfl⟩⟩
  | cast target operand =>
    obtain ⟨t, ht⟩ := hchild operand (.head _)
    exact ⟨_, bind_eq_ok.mpr ⟨t, ht, rfl⟩⟩
  | member object field =>
    obtain ⟨t, ht⟩ := hchild object (.head _)
    exact ⟨_, bind_eq_ok.mpr ⟨t, ht, rfl⟩⟩
  | binary op left right =>
    obtain ⟨l, hl⟩ := hchild left (.head _)
    obtain ⟨r, hr⟩ := hchild right (.tail _ (.head _))
    exact ⟨_, bind_eq_ok.mpr ⟨l, hl, bind_eq_ok.mpr ⟨r, hr, rfl⟩⟩⟩
  | assign target value =>
    obtain ⟨t, ht⟩ := hchild target (.head _)
    obtain ⟨v, hv⟩ := hchild value (.tail _ (.head _))
    exact ⟨_, bind_eq_ok.mpr ⟨t, ht, bind_eq_ok.mpr ⟨v, hv, rfl⟩⟩⟩
  | _ => exact ⟨_, rfl⟩

theorem exists_variableDecl (owner : HandleOwner) {decl : VariableDecl ExprId}
    (h : ∀ id ∈ decl.initializer, id.index.toNat < terms.size) :
    ∃ tree, variableDecl owner terms decl = .ok tree := by
  obtain ⟨initializer, hinitializer⟩ :=
    exists_optionMapM fun id hid => exists_rootTerm owner (h id hid)
  exact ⟨_, bind_eq_ok.mpr ⟨initializer, hinitializer, rfl⟩⟩

/-- A statement is expanded if its parts and its expressions were. -/
theorem exists_statement {s : Stmt} (hroots : ∀ id ∈ s.node.roots, id.index.toNat < terms.size)
    (hparts : ∀ id ∈ s.node.parts, id.index < UInt32.ofNat parts.size) :
    ∃ t, statement terms total parts s = .ok t := by
  have hroot : ∀ id ∈ s.node.roots,
      ∃ t, rootTerm (.stmt ⟨UInt32.ofNat parts.size⟩) terms id = .ok t :=
    fun id hid => exists_rootTerm _ (hroots id hid)
  have hpart : ∀ id ∈ s.node.parts, ∃ t, part total parts id = .ok t :=
    fun id hid => exists_part (hparts id hid)
  obtain ⟨node, location⟩ := s
  cases node with
  | block body =>
    obtain ⟨trees, htrees⟩ := exists_mapM hpart
    exact ⟨_, bind_eq_ok.mpr ⟨trees, htrees, rfl⟩⟩
  | expression value =>
    obtain ⟨t, ht⟩ := hroot value (.head _)
    exact ⟨_, bind_eq_ok.mpr ⟨t, ht, rfl⟩⟩
  | branch condition thenBranch elseBranch =>
    obtain ⟨c, hc⟩ := hroot condition (.head _)
    obtain ⟨t, ht⟩ := hpart thenBranch (.head _)
    obtain ⟨e, he⟩ := exists_optionMapM fun id hid =>
      hpart id (.tail _ (Option.mem_toList.mpr hid))
    exact ⟨_, bind_eq_ok.mpr ⟨c, hc, bind_eq_ok.mpr ⟨t, ht, bind_eq_ok.mpr ⟨e, he, rfl⟩⟩⟩⟩
  | whileLoop condition body =>
    obtain ⟨c, hc⟩ := hroot condition (.head _)
    obtain ⟨b, hb⟩ := hpart body (.head _)
    exact ⟨_, bind_eq_ok.mpr ⟨c, hc, bind_eq_ok.mpr ⟨b, hb, rfl⟩⟩⟩
  | forLoop init condition update body =>
    obtain ⟨i, hi⟩ := exists_optionMapM fun id hid =>
      hpart id (List.mem_append_left _ (Option.mem_toList.mpr hid))
    obtain ⟨c, hc⟩ := exists_optionMapM fun id hid =>
      hroot id (List.mem_append_left _ (Option.mem_toList.mpr hid))
    obtain ⟨u, hu⟩ := exists_optionMapM fun id hid =>
      hroot id (List.mem_append_right _ (Option.mem_toList.mpr hid))
    obtain ⟨b, hb⟩ := hpart body (List.mem_append_right _ (.head _))
    exact ⟨_, bind_eq_ok.mpr ⟨i, hi, bind_eq_ok.mpr ⟨c, hc, bind_eq_ok.mpr ⟨u, hu,
      bind_eq_ok.mpr ⟨b, hb, rfl⟩⟩⟩⟩⟩
  | ret value =>
    obtain ⟨v, hv⟩ := exists_optionMapM fun id hid => hroot id (Option.mem_toList.mpr hid)
    exact ⟨_, bind_eq_ok.mpr ⟨v, hv, rfl⟩⟩
  | _ decl =>
    obtain ⟨tree, htree⟩ := exists_variableDecl (.stmt ⟨UInt32.ofNat parts.size⟩)
      fun id hid => hroots id (Option.mem_toList.mpr hid)
    exact ⟨_, bind_eq_ok.mpr ⟨tree, htree, rfl⟩⟩

theorem exists_declaration {item : Declaration ExprId StmtId}
    (hroot : ∀ id ∈ item.root?, id.index.toNat < terms.size)
    (hbody : ∀ id ∈ item.body?, id.index.toNat < statements.size) :
    ∃ tree, declaration terms statements item = .ok tree := by
  cases item with
  | interface | struct => exact ⟨_, rfl⟩
  | function decl =>
    obtain ⟨name, params, returnType, body, owner, location⟩ := decl
    cases body with
    | none => exact ⟨_, rfl⟩
    | some id =>
      obtain ⟨s, hid⟩ : ∃ s, statements[id.index.toNat]? = some s :=
        ⟨_, Array.getElem?_eq_getElem (hbody id rfl)⟩
      refine ⟨_, bind_eq_ok.mpr ⟨some s, ?_, rfl⟩⟩
      simp only [Option.mapM_some, hid]
      rfl
  | _ decl =>
    obtain ⟨tree, htree⟩ := exists_variableDecl (.declaration decl.name) hroot
    exact ⟨_, bind_eq_ok.mpr ⟨tree, htree, rfl⟩⟩

end Expansion

namespace Arena

open Expansion

variable {arena : Arena}

theorem Linked.exists_terms (h : arena.Linked) :
    ∃ terms, Expansion.terms arena.exprs = .ok terms := by
  rw [Expansion.terms, ← Array.foldlM_toList]
  refine exists_foldlM_push _ fun k e done he hsize => exists_term fun id hid => ?_
  have hless := h.operands k e (by simpa using he) id hid
  simpa [hsize] using hless

theorem Linked.exists_statements (h : arena.Linked) {terms : Array Term}
    (hterms : terms.size = arena.exprs.size) :
    ∃ parts, Expansion.statements terms arena.stmts = .ok parts := by
  rw [Expansion.statements, ← Array.foldlM_toList]
  refine exists_foldlM_push _ fun k s done hs hsize => exists_statement (fun id hid => ?_) ?_
  · rw [hterms]
    exact h.roots s (Array.mem_toList_iff.mp (List.mem_of_getElem? hs)) id hid
  · intro id hid
    have hless := h.parts k s (by simpa using hs) id hid
    simpa [hsize] using hless

/-- A linked arena has an expansion. -/
theorem Linked.exists_expand (h : arena.Linked) : ∃ p, arena.expand = .ok p := by
  obtain ⟨terms, hterms⟩ := h.exists_terms
  have hsize : terms.size = arena.exprs.size := size_of_foldlM_push hterms
  obtain ⟨parts, hparts⟩ := h.exists_statements hsize
  have hsize' : parts.size = arena.stmts.size := size_of_foldlM_push hparts
  obtain ⟨items, hitems⟩ := exists_mapM (f := declaration terms parts) (l := arena.items)
    fun item hitem => exists_declaration (hsize ▸ h.initializers item hitem)
      (hsize' ▸ h.bodies item hitem)
  exact ⟨_, bind_eq_ok.mpr ⟨terms, hterms, bind_eq_ok.mpr ⟨parts, hparts,
    bind_eq_ok.mpr ⟨items, hitems, rfl⟩⟩⟩⟩

end Arena

/-! ## Arenas that can be expanded are linked -/

theorem exists_of_rel {α β : Type} {R : α → β → Prop} {o : Option α} {o' : Option β}
    (h : Option.Rel R o o') {a : α} (ha : a ∈ o) : ∃ b, R a b := by
  cases h with
  | none => cases ha
  | some hab =>
    cases ha
    exact ⟨_, hab⟩

section Spells

variable {child root : ExprId → Term → Prop} {part : StmtId → Statement → Prop}

theorem Expr.Spells.exists_tree {e : Expr} {t : Term} (h : e.Spells child t) :
    ∀ id ∈ e.node.operands, ∃ tree, child id tree := by
  intro id hid
  cases h with
  | literal | name | alloc => cases hid
  | call hargs =>
    obtain ⟨tree, -, htree⟩ := exists_of_forall₂ hargs hid
    exact ⟨tree, htree⟩
  | unary hoperand | cast hoperand | member hoperand =>
    cases List.mem_singleton.mp hid
    exact ⟨_, hoperand⟩
  | binary hleft hright | assign hleft hright =>
    rcases List.mem_pair.mp hid with rfl | rfl
    · exact ⟨_, hleft⟩
    · exact ⟨_, hright⟩

theorem Stmt.Spells.exists_root {s : Stmt} {t : Statement} (h : s.Spells root part t) :
    ∀ id ∈ s.node.roots, ∃ tree, root id tree := by
  intro id hid
  cases h with
  | block => cases hid
  | expression hroot | branch hroot | whileLoop hroot =>
    cases List.mem_singleton.mp hid
    exact ⟨_, hroot⟩
  | declaration hdecl =>
    obtain ⟨initializer, hinitializer, -⟩ := hdecl
    exact exists_of_rel hinitializer (Option.mem_toList.mp hid)
  | forLoop _ hcondition hupdate =>
    rcases List.mem_append.mp hid with hid | hid
    · exact exists_of_rel hcondition (Option.mem_toList.mp hid)
    · exact exists_of_rel hupdate (Option.mem_toList.mp hid)
  | ret hvalue => exact exists_of_rel hvalue (Option.mem_toList.mp hid)

theorem Stmt.Spells.exists_part {s : Stmt} {t : Statement} (h : s.Spells root part t) :
    ∀ id ∈ s.node.parts, ∃ tree, part id tree := by
  intro id hid
  cases h with
  | expression | declaration | ret => cases hid
  | block hbody =>
    obtain ⟨tree, -, htree⟩ := exists_of_forall₂ hbody hid
    exact ⟨tree, htree⟩
  | branch _ hthen helse =>
    rcases List.mem_cons.mp hid with rfl | hid
    · exact ⟨_, hthen⟩
    · exact exists_of_rel helse (Option.mem_toList.mp hid)
  | whileLoop _ hbody =>
    cases List.mem_singleton.mp hid
    exact ⟨_, hbody⟩
  | forLoop hinit _ _ hbody =>
    rcases List.mem_append.mp hid with hid | hid
    · exact exists_of_rel hinit (Option.mem_toList.mp hid)
    · cases List.mem_singleton.mp hid
      exact ⟨_, hbody⟩

theorem Declaration.Spells.exists_root {item : Declaration ExprId StmtId}
    {tree : Declaration Term Statement} (h : item.Spells root part tree) :
    ∀ id ∈ item.root?, ∃ t, root id t := by
  intro id hid
  cases h with
  | interface | struct | function => cases hid
  | global hdecl =>
    obtain ⟨initializer, hinitializer, -⟩ := hdecl
    exact exists_of_rel hinitializer hid

theorem Declaration.Spells.exists_body {item : Declaration ExprId StmtId}
    {tree : Declaration Term Statement} (h : item.Spells root part tree) :
    ∀ id ∈ item.body?, ∃ t, part id t := by
  intro id hid
  cases h with
  | interface | struct | global => cases hid
  | function hdecl =>
    obtain ⟨body, hbody, -⟩ := hdecl
    exact exists_of_rel hbody hid

end Spells

namespace Arena

open Expansion

variable {arena : Arena}

/-- What is expanded was linked, since a tree is made of the trees of earlier nodes. -/
theorem linked_of_expand {p : Program} (h : arena.expand = .ok p) : arena.Linked := by
  obtain ⟨terms, parts, hterms, hparts, hitems⟩ := exists_spells h
  have hsize : terms.size = arena.exprs.size := size_of_foldlM_push hterms
  have hsize' : parts.size = arena.stmts.size := size_of_foldlM_push hparts
  have hroot : ∀ (k : Nat) t, terms[k]? = some t → k < arena.exprs.size :=
    fun k t ht => hsize ▸ (Array.getElem?_eq_some_iff.mp ht).1
  have hpart : ∀ (k : Nat) t, parts[k]? = some t → k < arena.stmts.size :=
    fun k t ht => hsize' ▸ (Array.getElem?_eq_some_iff.mp ht).1
  have hstmt : ∀ (k : Nat) s, arena.stmts[k]? = some s → ∃ done t, done.size = k ∧
      statement terms arena.stmts.size done s = .ok t := by
    intro k s hs
    have hk : k < parts.size := hsize' ▸ (Array.getElem?_eq_some_iff.mp hs).1
    obtain ⟨s', done, hs', hdone, ht, -⟩ :=
      exists_of_getElem?_foldlM hparts (Array.getElem?_eq_getElem hk)
    obtain rfl := Option.some.inj (hs.symm.trans hs')
    exact ⟨done, _, hdone, ht⟩
  refine ⟨fun k e he id hid => ?_, fun s hs id hid => ?_, fun k s hs id hid => ?_,
    fun item hitem id hid => ?_, fun item hitem id hid => ?_⟩
  · have hk : k < terms.size := hsize ▸ (Array.getElem?_eq_some_iff.mp he).1
    obtain ⟨e', done, he', rfl, ht, -⟩ :=
      exists_of_getElem?_foldlM hterms (Array.getElem?_eq_getElem hk)
    obtain rfl := Option.some.inj (he.symm.trans he')
    obtain ⟨tree, htree⟩ := (spells_of_term ht).exists_tree id hid
    exact (operand_eq_ok htree).2
  · obtain ⟨k, hk⟩ := Array.mem_iff_getElem?.mp hs
    obtain ⟨done, t, -, ht⟩ := hstmt k s hk
    obtain ⟨tree, htree⟩ := (spells_of_statement ht).exists_root id hid
    exact hroot _ _ (rootTerm_eq_ok htree)
  · obtain ⟨done, t, rfl, ht⟩ := hstmt k s hs
    obtain ⟨tree, htree⟩ := (spells_of_statement ht).exists_part id hid
    exact (part_eq_ok htree).2
  · obtain ⟨tree, -, hspells⟩ := exists_of_forall₂ hitems hitem
    obtain ⟨t, ht⟩ := hspells.exists_root id hid
    exact hroot _ _ ht
  · obtain ⟨tree, -, hspells⟩ := exists_of_forall₂ hitems hitem
    obtain ⟨t, ht⟩ := hspells.exists_body id hid
    exact hpart _ _ ht

/-- The check accepts the linked arenas, and no others. -/
theorem validate_eq_ok_iff : arena.validate = .ok () ↔ arena.Linked := by
  constructor
  · intro h
    obtain ⟨p, hp, -⟩ := bind_eq_ok.mp h
    exact linked_of_expand hp
  · intro h
    obtain ⟨p, hp⟩ := h.exists_expand
    exact bind_eq_ok.mpr ⟨p, hp, rfl⟩

end Arena

end SsaLowering
