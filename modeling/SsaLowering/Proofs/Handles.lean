import SsaLowering.Proofs.HandleLowering
import SsaLowering.Proofs.Unit
import Mathlib.Data.List.Forall2

/-!
# Handles of validated units

A unit has an expansion only if every handle names a node, and inside one arena an earlier one.
So whatever the lowering reads is there, every recursion goes to an earlier node or from a
statement to an expression, and reading nodes leads to the same module as lowering trees.
-/

namespace SsaLowering

/-! ## Sequences that succeed -/

section Sequences

variable {ε α β γ : Type} {R : α → β → Prop}

theorem bind_eq_ok {x : Except ε α} {f : α → Except ε β} {b : β} :
    (x >>= f) = .ok b ↔ ∃ a, x = .ok a ∧ f a = .ok b := by
  cases x with
  | error e => exact ⟨nofun, fun ⟨_, h, _⟩ => nomatch h⟩
  | ok a => exact ⟨fun h => ⟨a, rfl, h⟩, fun ⟨_, h, h'⟩ => by cases h; exact h'⟩

theorem forall₂_of_mapM {f : α → Except ε β} {l : List α} {results : List β}
    (h : l.mapM f = .ok results) : List.Forall₂ (fun a b => f a = .ok b) l results := by
  induction l generalizing results with
  | nil =>
    cases h
    exact .nil
  | cons a l ih =>
    rw [List.mapM_cons] at h
    obtain ⟨b, hb, h⟩ := bind_eq_ok.mp h
    obtain ⟨rest, hrest, h⟩ := bind_eq_ok.mp h
    cases h
    exact .cons hb (ih hrest)

theorem rel_of_mapM {f : α → Except ε β} {o : Option α} {result : Option β}
    (h : o.mapM f = .ok result) : Option.Rel (fun a b => f a = .ok b) o result := by
  cases o with
  | none =>
    cases h
    exact .none
  | some a =>
    have hmap : some <$> f a = .ok result := h
    cases hf : f a with
    | error e => simp [hf] at hmap
    | ok b =>
      obtain rfl : some b = result := by simpa [hf] using hmap
      exact .some hf

/-- Where the elements of a list have results, all of them have. -/
theorem mapM_eq_some {g : α → Option γ} {h : β → γ} (hg : ∀ a b, R a b → g a = some (h b))
    {l : List α} {l' : List β} (hl : List.Forall₂ R l l') : l.mapM g = some (l'.map h) := by
  induction hl with
  | nil => rfl
  | cons hab _ ih =>
    rw [List.mapM_cons, hg _ _ hab, ih]
    rfl

theorem optionMapM_eq_some {g : α → Option γ} {h : β → γ}
    (hg : ∀ a b, R a b → g a = some (h b)) {o : Option α} {o' : Option β}
    (ho : Option.Rel R o o') : o.mapM g = some (o'.map h) := by
  cases ho with
  | none => rfl
  | @some a b hab =>
    show some <$> g a = some (some (h b))
    rw [hg _ _ hab]
    rfl

/-- What is built up by pushing results was built from what had been built up before. -/
theorem exists_of_foldlM_push {f : Array β → α → Except ε β} {l : List α} {init result : Array β}
    (h : l.foldlM (fun done a => return done.push (← f done a)) init = .ok result) :
    result.size = init.size + l.length ∧ (∀ j < init.size, init[j]? = result[j]?) ∧
    ∀ k a, l[k]? = some a → ∃ done, done.size = init.size + k ∧
      (∀ j < done.size, done[j]? = result[j]?) ∧
      ∃ b, f done a = .ok b ∧ result[init.size + k]? = some b := by
  induction l generalizing init with
  | nil =>
    cases h
    simp
  | cons a l ih =>
    rw [List.foldlM_cons] at h
    obtain ⟨next, hnext, h⟩ := bind_eq_ok.mp h
    obtain ⟨b, hb, hnext⟩ := bind_eq_ok.mp hnext
    cases hnext
    obtain ⟨hsize, hsame, hrest⟩ := ih h
    rw [Array.size_push] at hsize hsame hrest
    have hinit : ∀ j < init.size, init[j]? = result[j]? := by
      intro j hj
      rw [← hsame j (by omega), Array.getElem?_push, if_neg (by omega)]
    refine ⟨by simp [hsize]; omega, hinit, fun k c hc => ?_⟩
    cases k with
    | zero =>
      obtain rfl : a = c := by simpa using hc
      refine ⟨init, rfl, hinit, b, hb, ?_⟩
      rw [← hsame _ (by simp), Array.getElem?_push, if_pos (by simp)]
    | succ k =>
      obtain ⟨done, hdone, hearlier, c', hc', hresult⟩ := hrest k c (by simpa using hc)
      exact ⟨done, by omega, hearlier, c', hc', by rw [← hresult]; congr 1; omega⟩

/-- Every result in an array is that of its element, given the results before it. -/
theorem exists_of_getElem?_foldlM {f : Array β → α → Except ε β} {xs : Array α}
    {results : Array β}
    (h : xs.foldlM (fun done a => return done.push (← f done a)) #[] = .ok results) {k : Nat}
    {b : β} (hb : results[k]? = some b) : ∃ a done, xs[k]? = some a ∧ done.size = k ∧
      f done a = .ok b ∧ ∀ j c, done[j]? = some c → j < k ∧ results[j]? = some c := by
  rw [← Array.foldlM_toList] at h
  obtain ⟨hsize, -, hresults⟩ := exists_of_foldlM_push h
  simp only [List.size_toArray, List.length_nil, Nat.zero_add, Array.length_toList,
    Array.getElem?_toList] at hsize hresults
  have hk : k < xs.size := hsize ▸ (Array.getElem?_eq_some_iff.mp hb).1
  have ha := Array.getElem?_eq_getElem hk
  obtain ⟨done, rfl, hearlier, c, hc, hresult⟩ := hresults k _ ha
  obtain rfl : c = b := Option.some.inj (hresult.symm.trans hb)
  refine ⟨_, done, ha, rfl, hc, fun j c hj => ?_⟩
  have hless := (Array.getElem?_eq_some_iff.mp hj).1
  exact ⟨hless, (hearlier j hless).symm.trans hj⟩

/-- Steps that all have a state have one in sequence. -/
theorem foldlM_eq_some {f : γ → α → Option γ} {g : γ → β → γ}
    (hfg : ∀ s a b, R a b → f s a = some (g s b)) {l : List α} {l' : List β}
    (hl : List.Forall₂ R l l') (s : γ) : l.foldlM f s = some (l'.foldl g s) := by
  induction hl generalizing s with
  | nil => rfl
  | cons hab _ ih =>
    rw [List.foldlM_cons, hfg _ _ _ hab]
    exact ih _

end Sequences

/-! ## Nodes and their trees -/

/-- An expression spells a tree, given the trees that its operands spell. -/
inductive Expr.Spells (child : ExprId → Term → Prop) : Expr → Term → Prop
  | literal {location : Option Location} {value : Literal} :
    Spells child ⟨.literal value, location⟩ (.literal location value)
  | name {location : Option Location} {name : String} :
    Spells child ⟨.variable name, location⟩ (.variable location name)
  | call {location : Option Location} {callee : String} {args : List ExprId} {trees : List Term} :
    List.Forall₂ child args trees →
    Spells child ⟨.call callee args, location⟩ (.call location callee trees)
  | binary {location : Option Location} {op : BinaryOp} {left right : ExprId} {l r : Term} :
    child left l → child right r →
    Spells child ⟨.binary op left right, location⟩ (.binary location op l r)
  | unary {location : Option Location} {op : UnaryOp} {operand : ExprId} {t : Term} :
    child operand t → Spells child ⟨.unary op operand, location⟩ (.unary location op t)
  | cast {location : Option Location} {target : SourceType} {operand : ExprId} {t : Term} :
    child operand t → Spells child ⟨.cast target operand, location⟩ (.cast location target t)
  | alloc {location : Option Location} {target : SourceType} :
    Spells child ⟨.alloc target, location⟩ (.alloc location target)
  | assign {location : Option Location} {target value : ExprId} {t v : Term} :
    child target t → child value v →
    Spells child ⟨.assign target value, location⟩ (.assign location t v)
  | member {location : Option Location} {object : ExprId} {field : String} {t : Term} :
    child object t → Spells child ⟨.member object field, location⟩ (.member location t field)

/-- A variable with a handle for its initializer stands for one with a tree. -/
def VariableDecl.Spells (root : ExprId → Term → Prop) (decl : VariableDecl ExprId)
    (tree : VariableDecl Term) : Prop :=
  ∃ initializer, Option.Rel root decl.initializer initializer ∧ tree = { decl with initializer }

/-- A statement spells a tree, given the trees that its parts and its expressions spell. -/
inductive Stmt.Spells (root : ExprId → Term → Prop) (part : StmtId → Statement → Prop) :
    Stmt → Statement → Prop
  | block {location : Option Location} {body : List StmtId} {trees : List Statement} :
    List.Forall₂ part body trees →
    Spells root part ⟨.block body, location⟩ (.block location trees)
  | expression {location : Option Location} {value : ExprId} {t : Term} :
    root value t → Spells root part ⟨.expression value, location⟩ (.expression location t)
  | declaration {location : Option Location} {decl : VariableDecl ExprId}
      {tree : VariableDecl Term} :
    decl.Spells root tree →
    Spells root part ⟨.variable decl, location⟩ (.variable location tree)
  | branch {location : Option Location} {condition : ExprId} {thenBranch : StmtId}
      {elseBranch : Option StmtId} {c : Term} {t : Statement} {e : Option Statement} :
    root condition c → part thenBranch t → Option.Rel part elseBranch e →
    Spells root part ⟨.branch condition thenBranch elseBranch, location⟩ (.branch location c t e)
  | whileLoop {location : Option Location} {condition : ExprId} {body : StmtId} {c : Term}
      {b : Statement} :
    root condition c → part body b →
    Spells root part ⟨.whileLoop condition body, location⟩ (.whileLoop location c b)
  | forLoop {location : Option Location} {init : Option StmtId} {condition update : Option ExprId}
      {body : StmtId} {i : Option Statement} {c u : Option Term} {b : Statement} :
    Option.Rel part init i → Option.Rel root condition c → Option.Rel root update u →
    part body b →
    Spells root part ⟨.forLoop init condition update body, location⟩ (.forLoop location i c u b)
  | ret {location : Option Location} {value : Option ExprId} {v : Option Term} :
    Option.Rel root value v → Spells root part ⟨.ret value, location⟩ (.ret location v)

namespace Expansion

variable {total : Nat} {terms done : Array Term} {parts statements : Array Statement}
  {owner : HandleOwner}

theorem operand_eq_ok {id : ExprId} {t : Term} (h : operand total done id = .ok t) :
    done[id.index.toNat]? = some t ∧ id.index < UInt32.ofNat done.size := by
  rw [operand] at h
  split at h
  · next heq =>
    split at h
    · next hless =>
      cases h
      exact ⟨heq, hless⟩
    · cases h
  · split at h <;> cases h

theorem part_eq_ok {id : StmtId} {s : Statement} (h : part total parts id = .ok s) :
    parts[id.index.toNat]? = some s ∧ id.index < UInt32.ofNat parts.size := by
  rw [part] at h
  split at h
  · next heq =>
    split at h
    · next hless =>
      cases h
      exact ⟨heq, hless⟩
    · cases h
  · split at h <;> cases h

theorem rootTerm_eq_ok {id : ExprId} {t : Term} (h : rootTerm owner terms id = .ok t) :
    terms[id.index.toNat]? = some t := by
  rw [rootTerm] at h
  split at h
  · next heq =>
    cases h
    exact heq
  · cases h

/-- An expression that is expanded spells its tree. -/
theorem spells_of_term {e : Expr} {t : Term} (h : term total done e = .ok t) :
    e.Spells (fun child tree => operand total done child = .ok tree) t := by
  obtain ⟨node, location⟩ := e
  cases node with
  | call callee args =>
    obtain ⟨trees, htrees, h⟩ := bind_eq_ok.mp h
    cases h
    exact .call (forall₂_of_mapM htrees)
  | binary op left right =>
    obtain ⟨l, hl, h⟩ := bind_eq_ok.mp h
    obtain ⟨r, hr, h⟩ := bind_eq_ok.mp h
    cases h
    exact .binary hl hr
  | assign target value =>
    obtain ⟨t, ht, h⟩ := bind_eq_ok.mp h
    obtain ⟨v, hv, h⟩ := bind_eq_ok.mp h
    cases h
    exact .assign ht hv
  | unary op operand =>
    obtain ⟨t, ht, h⟩ := bind_eq_ok.mp h
    cases h
    exact .unary ht
  | cast target operand =>
    obtain ⟨t, ht, h⟩ := bind_eq_ok.mp h
    cases h
    exact .cast ht
  | member object field =>
    obtain ⟨t, ht, h⟩ := bind_eq_ok.mp h
    cases h
    exact .member ht
  | _ =>
    cases h
    constructor

theorem spells_of_variableDecl {decl : VariableDecl ExprId} {tree : VariableDecl Term}
    (h : variableDecl owner terms decl = .ok tree) :
    decl.Spells (fun id t => rootTerm owner terms id = .ok t) tree := by
  obtain ⟨initializer, hinitializer, h⟩ := bind_eq_ok.mp h
  cases h
  exact ⟨initializer, rel_of_mapM hinitializer, rfl⟩

/-- A statement that is expanded spells its tree. -/
theorem spells_of_statement {s : Stmt} {t : Statement}
    (h : statement terms total parts s = .ok t) :
    s.Spells (fun id tree => rootTerm (.stmt ⟨UInt32.ofNat parts.size⟩) terms id = .ok tree)
      (fun id tree => part total parts id = .ok tree) t := by
  obtain ⟨node, location⟩ := s
  cases node with
  | block body =>
    obtain ⟨trees, htrees, h⟩ := bind_eq_ok.mp h
    cases h
    exact .block (forall₂_of_mapM htrees)
  | expression value =>
    obtain ⟨t, ht, h⟩ := bind_eq_ok.mp h
    cases h
    exact .expression ht
  | branch condition thenBranch elseBranch =>
    obtain ⟨c, hc, h⟩ := bind_eq_ok.mp h
    obtain ⟨t, ht, h⟩ := bind_eq_ok.mp h
    obtain ⟨e, he, h⟩ := bind_eq_ok.mp h
    cases h
    exact .branch hc ht (rel_of_mapM he)
  | whileLoop condition body =>
    obtain ⟨c, hc, h⟩ := bind_eq_ok.mp h
    obtain ⟨b, hb, h⟩ := bind_eq_ok.mp h
    cases h
    exact .whileLoop hc hb
  | forLoop init condition update body =>
    obtain ⟨i, hi, h⟩ := bind_eq_ok.mp h
    obtain ⟨c, hc, h⟩ := bind_eq_ok.mp h
    obtain ⟨u, hu, h⟩ := bind_eq_ok.mp h
    obtain ⟨b, hb, h⟩ := bind_eq_ok.mp h
    cases h
    exact .forLoop (rel_of_mapM hi) (rel_of_mapM hc) (rel_of_mapM hu) hb
  | ret value =>
    obtain ⟨v, hv, h⟩ := bind_eq_ok.mp h
    cases h
    exact .ret (rel_of_mapM hv)
  | _ decl =>
    obtain ⟨tree, htree, h⟩ := bind_eq_ok.mp h
    cases h
    exact .declaration (spells_of_variableDecl htree)

end Expansion

namespace Lower

variable {env : Environment}

theorem lowerTerms_eq (terms : List Term) :
    lowerTerms env terms = valuesInOrder (terms.map (lowerTerm env)) := by
  induction terms with
  | nil => rfl
  | cons t terms ih =>
    rw [lowerTerms, List.map_cons, valuesInOrder, ih]

theorem lowerBlock_eq (context : FunctionContext) (body : List Statement) :
    lowerBlock env context body = inTurn (body.map (lowerStatement env context)) := by
  induction body with
  | nil => rfl
  | cons statement body ih =>
    rw [lowerBlock, List.map_cons, inTurn, ih]

theorem lowerVariableDecl_eq (decl : VariableDecl Term) : lowerVariableDecl env decl =
    declareVariable env { decl with initializer := decl.initializer.map (lowerTerm env) } := by
  obtain ⟨name, type, isMutable, initializer, location⟩ := decl
  cases initializer <;> rfl

theorem lowerReturn_eq (context : FunctionContext) (value : Option Term) :
    lowerReturn env context value = leaveWith context (value.map (lowerTerm env)) := by
  cases value <;> rfl

end Lower

namespace Arena

open Expansion Lower

variable {arena : Arena} {terms : Array Term} {parts : Array Statement} {t : Term}
  {env : Environment}

/-! ## Expressions -/

/-- The tree of an expression is that of its node over the trees of earlier expressions. -/
theorem exists_expr (h : Expansion.terms arena.exprs = .ok terms) {id : ExprId}
    (ht : terms[id.index.toNat]? = some t) : ∃ e done, arena.exprs[id.index.toNat]? = some e ∧
      e.Spells (fun child tree => operand arena.exprs.size done child = .ok tree) t ∧
      ∀ child tree, operand arena.exprs.size done child = .ok tree →
        child.index.toNat < id.index.toNat ∧ terms[child.index.toNat]? = some tree := by
  obtain ⟨e, done, he, -, hterm, hdone⟩ := exists_of_getElem?_foldlM h ht
  exact ⟨e, done, he, spells_of_term hterm,
    fun child tree hchild => hdone _ _ (operand_eq_ok hchild).1⟩

/-- An earlier handle is followed. -/
theorem earlierExpr_eq_some {α : Type} {owner child : ExprId} {result : Option α} {a : α}
    (h : child.index.toNat < owner.index.toNat) (ha : result = some a) :
    earlierExpr owner child (fun _ => result) = some a := (dif_pos h).trans ha

/-- Tracing members reaches earlier expressions only, and the struct that the tree denotes. -/
theorem placeAt_eq (h : Expansion.terms arena.exprs = .ok terms) {id : ExprId}
    (ht : terms[id.index.toNat]? = some t) :
    arena.placeAt env id = some (structPlace env t) := by
  induction hk : id.index.toNat using Nat.strong_induction_on generalizing id t with
  | _ k ih =>
    subst hk
    obtain ⟨e, done, he, hspells, hchild⟩ := exists_expr h ht
    rw [placeAt, he, Option.bind_some]
    cases hspells with
    | member hobject =>
      obtain ⟨hless, hobject⟩ := hchild _ _ hobject
      refine earlierExpr_eq_some hless ?_
      rw [ih _ hless hobject rfl]
      rfl
    | _ => rfl

theorem stepAt_eq (h : Expansion.terms arena.exprs = .ok terms) (op : UnaryOp) {id : ExprId}
    (ht : terms[id.index.toNat]? = some t) :
    arena.stepAt env op id = some (lowerStep env op t) := by
  obtain ⟨e, done, he, hspells, -⟩ := exists_expr h ht
  rw [stepAt, he, Option.map_some]
  cases hspells <;> rfl

/-- The target of an assignment is traced like a member that is read. -/
theorem assignAt_eq (h : Expansion.terms arena.exprs = .ok terms) {id : ExprId}
    (ht : terms[id.index.toNat]? = some t) : ∃ assign, arena.assignAt env id = some assign ∧
      ∀ value, lowerAssign env t value = value >>= assign := by
  obtain ⟨e, done, he, hspells, hchild⟩ := exists_expr h ht
  rw [assignAt, he, Option.bind_some]
  cases hspells with
  | member hobject =>
    obtain ⟨hless, hobject⟩ := hchild _ _ hobject
    refine ⟨writeMember env _ (structPlace env _), earlierExpr_eq_some hless ?_, fun _ => rfl⟩
    rw [placeAt_eq h hobject, Option.map_some]
  | _ => exact ⟨_, rfl, fun _ => rfl⟩

/-- Whatever the lowering of an expression reads is there, and every recursion is through an
earlier handle. -/
theorem exprAt_eq (h : Expansion.terms arena.exprs = .ok terms) {id : ExprId}
    (ht : terms[id.index.toNat]? = some t) :
    arena.exprAt env id = some (lowerTerm env t) := by
  induction hk : id.index.toNat using Nat.strong_induction_on generalizing id t with
  | _ k ih =>
    subst hk
    obtain ⟨e, done, he, hspells, hchild⟩ := exists_expr h ht
    have hvalue : ∀ child tree, operand arena.exprs.size done child = .ok tree →
        earlierExpr id child (fun _ => arena.exprAt env child) = some (lowerTerm env tree) := by
      intro child tree htree
      obtain ⟨hless, htree⟩ := hchild child tree htree
      exact earlierExpr_eq_some hless (ih _ hless htree rfl)
    rw [exprAt, he, Option.bind_some]
    cases hspells with
    | call hargs =>
      simp only [mapM_eq_some hvalue hargs]
      rw [lowerTerm, lowerTerms_eq, ← hargs.length_eq]
      rfl
    | binary hleft hright =>
      simp only [hvalue _ _ hleft, hvalue _ _ hright]
      rfl
    | @unary _ op _ _ hoperand =>
      obtain ⟨hless, htree⟩ := hchild _ _ hoperand
      have hplace : arena.stepAt env op _ = some _ := stepAt_eq h op htree
      have hstep := earlierExpr_eq_some hless hplace
      cases op <;> simp only [hvalue _ _ hoperand, hstep] <;> rfl
    | cast hoperand =>
      simp only [hvalue _ _ hoperand]
      rfl
    | assign htarget hvalue' =>
      obtain ⟨hless, htree⟩ := hchild _ _ htarget
      obtain ⟨assign, hassign, heq⟩ : ∃ assign, arena.assignAt env _ = some assign ∧ _ :=
        assignAt_eq h htree
      simp only [hvalue _ _ hvalue', earlierExpr_eq_some hless hassign]
      rw [lowerTerm, heq]
      rfl
    | member hobject =>
      obtain ⟨hless, htree⟩ := hchild _ _ hobject
      have hplace : arena.placeAt env _ = some _ := placeAt_eq h htree
      simp only [earlierExpr_eq_some hless hplace]
      rfl
    | _ => rfl

/-- So is whatever the evaluation of an initializer reads. -/
theorem initializerAt_eq (h : Expansion.terms arena.exprs = .ok terms) (name : String)
    {id : ExprId} (ht : terms[id.index.toNat]? = some t) :
    arena.initializerAt name id = some (Fold.initializer name t) := by
  induction hk : id.index.toNat using Nat.strong_induction_on generalizing id t with
  | _ k ih =>
    subst hk
    obtain ⟨e, done, he, hspells, hchild⟩ := exists_expr h ht
    rw [initializerAt, he, Option.bind_some]
    cases hspells with
    | @unary _ op _ _ hoperand =>
      obtain ⟨hless, htree⟩ := hchild _ _ hoperand
      cases op with
      | minus =>
        simp only [earlierExpr_eq_some hless (ih _ hless htree rfl)]
        rfl
      | _ => rfl
    | @cast _ target _ _ hoperand =>
      obtain ⟨hless, htree⟩ := hchild _ _ hoperand
      simp only [earlierExpr_eq_some hless (ih _ hless htree rfl), Fold.initializer]
      cases target.isPointer <;> rfl
    | _ => rfl

/-! ## Statements -/

/-- The tree of a statement is that of its node over the trees of earlier statements and of
expressions. -/
theorem exists_stmt (h : Expansion.statements terms arena.stmts = .ok parts) {id : StmtId}
    {tree : Statement} (ht : parts[id.index.toNat]? = some tree) :
    ∃ s owner done, arena.stmts[id.index.toNat]? = some s ∧
      s.Spells (fun child t => rootTerm owner terms child = .ok t)
        (fun child t => part arena.stmts.size done child = .ok t) tree ∧
      ∀ child t, part arena.stmts.size done child = .ok t →
        child.index.toNat < id.index.toNat ∧ parts[child.index.toNat]? = some t := by
  obtain ⟨s, done, hs, -, hstatement, hdone⟩ := exists_of_getElem?_foldlM h ht
  exact ⟨s, _, done, hs, spells_of_statement hstatement,
    fun child t hchild => hdone _ _ (part_eq_ok hchild).1⟩

theorem earlierStmt_eq_some {α : Type} {owner child : StmtId} {result : Option α} {a : α}
    (h : child.index.toNat < owner.index.toNat) (ha : result = some a) :
    earlierStmt owner child (fun _ => result) = some a := (dif_pos h).trans ha

/-- Whatever the lowering of a statement reads is there, and every recursion is through an
earlier handle. -/
theorem stmtAt_eq (h : Expansion.terms arena.exprs = .ok terms)
    (h' : Expansion.statements terms arena.stmts = .ok parts) (context : FunctionContext)
    {id : StmtId} {tree : Statement} (ht : parts[id.index.toNat]? = some tree) :
    arena.stmtAt env context id = some (lowerStatement env context tree) := by
  induction hk : id.index.toNat using Nat.strong_induction_on generalizing id tree with
  | _ k ih =>
    subst hk
    obtain ⟨s, owner, done, hs, hspells, hchild⟩ := exists_stmt h' ht
    have hvalue : ∀ child t, rootTerm owner terms child = .ok t →
        arena.exprAt env child = some (lowerTerm env t) :=
      fun child t hroot => exprAt_eq h (rootTerm_eq_ok hroot)
    have hpart : ∀ child t, part arena.stmts.size done child = .ok t →
        earlierStmt id child (fun _ => arena.stmtAt env context child) =
          some (lowerStatement env context t) := by
      intro child t htree
      obtain ⟨hless, htree⟩ := hchild child t htree
      exact earlierStmt_eq_some hless (ih _ hless htree rfl)
    rw [stmtAt, hs, Option.bind_some]
    cases hspells with
    | block hbody =>
      simp only [mapM_eq_some hpart hbody]
      rw [lowerStatement, lowerBlock_eq]
      rfl
    | expression hroot =>
      simp only [hvalue _ _ hroot]
      rfl
    | declaration hdecl =>
      obtain ⟨initializer, hinitializer, rfl⟩ := hdecl
      simp only [optionMapM_eq_some hvalue hinitializer]
      rw [lowerStatement, lowerVariableDecl_eq]
      rfl
    | branch hcondition hthen helse =>
      simp only [hvalue _ _ hcondition, hpart _ _ hthen, optionMapM_eq_some hpart helse]
      cases helse <;> rfl
    | whileLoop hcondition hbody =>
      simp only [hvalue _ _ hcondition, hpart _ _ hbody]
      rfl
    | forLoop hinit hcondition hupdate hbody =>
      simp only [optionMapM_eq_some hpart hinit, optionMapM_eq_some hvalue hcondition,
        optionMapM_eq_some hvalue hupdate, hpart _ _ hbody]
      cases hinit <;> cases hcondition <;> cases hupdate <;> rfl
    | ret hroot =>
      simp only [optionMapM_eq_some hvalue hroot]
      rw [lowerStatement, lowerReturn_eq]
      rfl

theorem bodyAt_eq (h : Expansion.terms arena.exprs = .ok terms)
    (h' : Expansion.statements terms arena.stmts = .ok parts) (context : FunctionContext)
    {id : StmtId} {tree : Statement} (ht : parts[id.index.toNat]? = some tree) :
    arena.bodyAt env context id = some (functionBody env context tree) := by
  have hbody : arena.stmtAt env context id = some (lowerStatement env context tree) :=
    stmtAt_eq h h' context ht
  obtain ⟨s, owner, done, hs, hspells, hchild⟩ := exists_stmt h' ht
  have hpart : ∀ child t, part arena.stmts.size done child = .ok t →
      earlierStmt id child (fun _ => arena.stmtAt env context child) =
        some (lowerStatement env context t) := fun child t htree =>
    earlierStmt_eq_some (hchild child t htree).1 (stmtAt_eq h h' context (hchild child t htree).2)
  rw [bodyAt, hs, Option.bind_some]
  cases hspells with
  | block hparts =>
    simp only [mapM_eq_some hpart hparts, functionBody, lowerBlock_eq]
    rfl
  | _ =>
    simp only [hbody]
    rfl

end Arena

/-! ## Units -/

/-- A function with a handle for its body stands for one with a tree. -/
def FunctionDecl.Spells (body : StmtId → Statement → Prop) (decl : FunctionDecl StmtId)
    (tree : FunctionDecl Statement) : Prop :=
  ∃ statement, Option.Rel body decl.body statement ∧ tree = { decl with body := statement }

/-- A declaration spells one with trees, given the trees that its initializer or its body
spells. -/
inductive Declaration.Spells (root : ExprId → Term → Prop) (body : StmtId → Statement → Prop) :
    Declaration ExprId StmtId → Declaration Term Statement → Prop
  | interface (decl : InterfaceDecl) : Spells root body (.interface decl) (.interface decl)
  | struct (decl : StructDecl) : Spells root body (.struct decl) (.struct decl)
  | function {decl : FunctionDecl StmtId} {tree : FunctionDecl Statement} :
    decl.Spells body tree → Spells root body (.function decl) (.function tree)
  | global {decl : VariableDecl ExprId} {tree : VariableDecl Term} :
    decl.Spells root tree → Spells root body (.variable decl) (.variable tree)

/-- A declaration that is expanded spells its tree. -/
theorem Expansion.spells_of_declaration {terms : Array Term} {parts : Array Statement}
    {item : Declaration ExprId StmtId} {tree : Declaration Term Statement}
    (h : declaration terms parts item = .ok tree) :
    item.Spells (fun id t => terms[id.index.toNat]? = some t)
      (fun id t => parts[id.index.toNat]? = some t) tree := by
  cases item with
  | interface decl =>
    cases h
    exact .interface decl
  | struct decl =>
    cases h
    exact .struct decl
  | function decl =>
    obtain ⟨body, hbody, h⟩ := bind_eq_ok.mp h
    cases h
    have hrel := rel_of_mapM hbody
    refine .function ⟨body, ?_, rfl⟩
    generalize decl.body = o at hrel
    cases hrel with
    | none => exact .none
    | @some id t hid =>
      refine .some ?_
      split at hid
      · next heq =>
        cases hid
        exact heq
      · cases hid
  | _ decl =>
    obtain ⟨tree, htree, h⟩ := bind_eq_ok.mp h
    cases h
    obtain ⟨initializer, hinitializer, rfl⟩ := spells_of_variableDecl htree
    refine .global ⟨initializer, ?_, rfl⟩
    generalize decl.initializer = o at hinitializer
    cases hinitializer with
    | none => exact .none
    | some hroot => exact .some (rootTerm_eq_ok hroot)

namespace Arena

open Expansion

variable {arena : Arena} {terms : Array Term} {parts : Array Statement}

theorem addGlobalAt_eq (h : Expansion.terms arena.exprs = .ok terms) (s : UnitState)
    {decl : VariableDecl ExprId} {tree : VariableDecl Term}
    (hdecl : decl.Spells (fun id t => terms[id.index.toNat]? = some t) tree) :
    arena.addGlobalAt s decl = some (s.addGlobal tree) := by
  obtain ⟨initializer, hinitializer, rfl⟩ := hdecl
  rw [addGlobalAt, optionMapM_eq_some (fun _ _ ht => initializerAt_eq h decl.name ht) hinitializer]
  have haction : Declare.variableWith { decl with
      initializer := initializer.map (Fold.initializer decl.name) } =
      Declare.globalVariable { decl with initializer } := by
    cases initializer <;> rfl
  simp only [haction, UnitState.addGlobal, Option.bind_some, bind]
  split <;> simp_all

/-- A function that is declared without its body is declared like the whole function. -/
theorem function_header (names : List String) (decl : FunctionDecl Statement) :
    Declare.function names decl.header =
      (fun d => ⟨d.decl.header, d.signature⟩) <$> Declare.function names decl := by
  unfold Declare.function
  by_cases h : names.contains decl.name = true
  · rw [if_pos h, if_pos (by exact h)]
    rfl
  · rw [if_neg h, if_neg (by exact h)]
    simp only [map_bind, map_pure]
    rfl

/-- A function that is declared with the handle of its body stands for one with a tree. -/
structure Stands (parts : Array Statement) (entry : DeclaredFunction × Option StmtId)
    (d : DeclaredFunction) : Prop where
  header : entry.1 = ⟨d.decl.header, d.signature⟩
  body : Option.Rel (fun id t => parts[id.index.toNat]? = some t) entry.2 d.decl.body

theorem addFunctionAt_eq {acc : UnitState × List (DeclaredFunction × Option StmtId)}
    {acc' : UnitState × List DeclaredFunction} (hs : acc.1 = acc'.1)
    (hdeclared : List.Forall₂ (Stands parts) acc.2 acc'.2) {decl : FunctionDecl StmtId}
    {tree : FunctionDecl Statement}
    (hdecl : decl.Spells (fun id t => parts[id.index.toNat]? = some t) tree) :
    (addFunctionAt acc decl).1 = (UnitState.addFunction acc' tree).1 ∧
      List.Forall₂ (Stands parts) (addFunctionAt acc decl).2
        (UnitState.addFunction acc' tree).2 := by
  obtain ⟨s, declared⟩ := acc
  obtain ⟨s', declared'⟩ := acc'
  obtain rfl : s = s' := hs
  obtain ⟨body, hbody, rfl⟩ := hdecl
  have hnames : declared.map (·.1.decl.name) = declared'.map (·.decl.name) := by
    rw [← List.forall₂_eq_eq_eq, List.forall₂_map_left_iff, List.forall₂_map_right_iff]
    exact hdeclared.imp fun _ _ h => by rw [h.header]; rfl
  have hheader : (Declare.function (declared.map (·.1.decl.name)) decl.header).run.run s =
      exec ((fun d => (⟨d.decl.header, d.signature⟩ : DeclaredFunction)) <$>
        Declare.function (declared'.map (·.decl.name)) { decl with body }) s := by
    rw [hnames, ← function_header]
    rfl
  simp only [addFunctionAt, UnitState.addFunction, hheader, exec_map,
    show ∀ action : Declare DeclaredFunction, action.run.run s = exec action s from fun _ => rfl]
  rcases UnitState.exec_function (declared'.map (·.decl.name)) { decl with body } s with
    ⟨e, s', hexec, -⟩ | ⟨-, signature, s', -, hexec⟩
  · simp only [hexec]
    exact ⟨trivial, hdeclared⟩
  · simp only [hexec]
    exact ⟨trivial, List.rel_append hdeclared (.cons ⟨rfl, hbody⟩ .nil)⟩

theorem foldl_addFunctionAt {decls : List (FunctionDecl StmtId)}
    {trees : List (FunctionDecl Statement)}
    (h : List.Forall₂ (FunctionDecl.Spells fun id t => parts[id.index.toNat]? = some t) decls trees)
    (acc : UnitState × List (DeclaredFunction × Option StmtId))
    (acc' : UnitState × List DeclaredFunction) (hs : acc.1 = acc'.1)
    (hdeclared : List.Forall₂ (Stands parts) acc.2 acc'.2) :
    (decls.foldl addFunctionAt acc).1 = (trees.foldl UnitState.addFunction acc').1 ∧
      List.Forall₂ (Stands parts) (decls.foldl addFunctionAt acc).2
        (trees.foldl UnitState.addFunction acc').2 := by
  induction h generalizing acc acc' with
  | nil => exact ⟨hs, hdeclared⟩
  | cons hdecl _ ih =>
    obtain ⟨hs, hdeclared⟩ := addFunctionAt_eq hs hdeclared hdecl
    exact ih _ _ hs hdeclared

theorem addBodyAt_eq (h : Expansion.terms arena.exprs = .ok terms)
    (h' : Expansion.statements terms arena.stmts = .ok parts) (options : LoweringOptions)
    (s : UnitState) {entry : DeclaredFunction × Option StmtId} {d : DeclaredFunction}
    (hd : Stands parts entry d) :
    arena.addBodyAt options s entry = some (s.addBodyOf options d) := by
  obtain ⟨d', body⟩ := entry
  obtain ⟨rfl, hbody⟩ := hd
  rw [UnitState.addBodyOf]
  generalize hdecl : d.decl.body = tree at hbody
  cases hbody with
  | none => rfl
  | some hid =>
    rw [addBodyAt, bodyAt_eq h h' _ hid]
    rfl

/-- The declarations of a unit spell those of its program. -/
theorem exists_spells {p : Program} (h : arena.expand = .ok p) :
    ∃ terms parts, Expansion.terms arena.exprs = .ok terms ∧
      Expansion.statements terms arena.stmts = .ok parts ∧
      List.Forall₂ (Declaration.Spells (fun id t => terms[id.index.toNat]? = some t)
        (fun id t => parts[id.index.toNat]? = some t)) arena.items p.items := by
  obtain ⟨terms, hterms, h⟩ := bind_eq_ok.mp h
  obtain ⟨parts, hparts, h⟩ := bind_eq_ok.mp h
  obtain ⟨items, hitems, h⟩ := bind_eq_ok.mp h
  cases h
  exact ⟨terms, parts, hterms, hparts,
    (forall₂_of_mapM hitems).imp fun _ _ => spells_of_declaration⟩

/-- The declarations of one kind spell those of the program of this kind. -/
theorem spells_parts {root : ExprId → Term → Prop} {body : StmtId → Statement → Prop}
    {p : Program} (h : List.Forall₂ (Declaration.Spells root body) arena.items p.items) :
    arena.interfaces = p.interfaces ∧ arena.structs = p.structs ∧
    List.Forall₂ (VariableDecl.Spells root) arena.globals p.globals ∧
    List.Forall₂ (FunctionDecl.Spells body) arena.functions p.functions := by
  rw [interfaces, structs, globals, functions, Program.interfaces, Program.structs,
    Program.globals, Program.functions]
  generalize arena.items = items, p.items = trees at h ⊢
  induction h with
  | nil => exact ⟨rfl, rfl, .nil, .nil⟩
  | cons hitem _ ih =>
    obtain ⟨hinterfaces, hstructs, hglobals, hfunctions⟩ := ih
    cases hitem with
    | interface decl => exact ⟨congrArg (decl :: ·) hinterfaces, hstructs, hglobals, hfunctions⟩
    | struct decl => exact ⟨hinterfaces, congrArg (decl :: ·) hstructs, hglobals, hfunctions⟩
    | function hdecl => exact ⟨hinterfaces, hstructs, hglobals, .cons hdecl hfunctions⟩
    | global hdecl => exact ⟨hinterfaces, hstructs, .cons hdecl hglobals, hfunctions⟩

/-- Reading the arena leads to the module of its program. -/
theorem generateAt_eq {p : Program} (h : arena.expand = .ok p) (options : LoweringOptions)
    (log : DiagnosticLog) : arena.generateAt options log = some (p.generate options log) := by
  obtain ⟨terms, parts, hterms, hparts, hitems⟩ := exists_spells h
  obtain ⟨hinterfaces, hstructs, hglobals, hfunctions⟩ := spells_parts hitems
  have hfold := foldlM_eq_some (f := arena.addGlobalAt) (g := UnitState.addGlobal)
    (fun s _ _ hdecl => addGlobalAt_eq hterms s hdecl)
    hglobals
  rw [generateAt, Program.generate, Program.declare, hinterfaces, hstructs, hfold]
  simp only [Option.bind_some, bind]
  generalize p.globals.foldl UnitState.addGlobal _ = s
  obtain ⟨hs, hdeclared⟩ := foldl_addFunctionAt hfunctions (s, []) (s, []) rfl .nil
  have hbodies := foldlM_eq_some (f := arena.addBodyAt options) (g := UnitState.addBodyOf options)
    (fun s _ _ hd => addBodyAt_eq hterms hparts options s hd) hdeclared
  rw [hbodies, hs]
  rfl

/-- In a validated unit, whatever nodes it shares, every access of the lowering finds a node, and
every recursion goes to an earlier node or from a statement to an expression. So the lowering
ends with a module, which is that of the program behind the arena. -/
theorem generate_stays_inside (h : arena.validate = .ok ()) :
    ∃ p, arena.expand = .ok p ∧ ∀ options log,
      arena.generateAt options log = some (p.generate options log) := by
  obtain ⟨p, hp, -⟩ := bind_eq_ok.mp h
  exact ⟨p, hp, generateAt_eq hp⟩

/-- A function that squares its parameter. Both operands are the same node. -/
def square : Arena where
  exprs := #[⟨.variable "n", none⟩, ⟨.binary .mul ⟨0⟩ ⟨0⟩, none⟩]
  stmts := #[⟨.ret (some ⟨1⟩), none⟩]
  items := [.function ⟨"square", [⟨"n", .named "i64"⟩], .named "i64", some ⟨0⟩, none, none⟩]

theorem generate_stays_inside_square : square.validate = .ok () ∧
    ∃ p, square.expand = .ok p ∧
      square.generateAt .standard .empty = some (p.generate .standard .empty) := by
  have hvalid : square.validate = .ok () := rfl
  obtain ⟨p, hp, hgenerate⟩ := generate_stays_inside hvalid
  exact ⟨hvalid, p, hp, hgenerate .standard .empty⟩

/-- A node that is its own operand has no value. -/
example (env : Environment) :
    (⟨#[⟨.unary .minus ⟨0⟩, none⟩], #[], []⟩ : Arena).exprAt env ⟨0⟩ = none := by
  simp [exprAt, earlierExpr]

end Arena

end SsaLowering
