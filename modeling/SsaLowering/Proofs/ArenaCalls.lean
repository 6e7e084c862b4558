import Mathlib.Data.List.Induction
import Mathlib.Data.Option.Basic
import SsaLowering.Arena.Builder
import SsaLowering.Proofs.Linkage

/-!
# Calls of an arena builder

A builder adds a node behind all others and answers with its handle. So whoever passes it only
handles that it returned, in any order and as often as he likes, gets a linked arena, and a handle
keeps naming the node that it was returned for. Handles have 32 bits; the builder starts again at
the first node when they are used up, and no node behind that has a handle of its own.
-/

namespace SsaLowering

/-- A handle of either kind. -/
inductive Handle where
  | expr (id : ExprId)
  | stmt (id : StmtId)
deriving DecidableEq

/-- A call of an arena builder with its arguments. -/
inductive ArenaCall where
  | moveTo (line column : UInt32)
  | expr (node : ExprNode)
  | stmt (node : StmtNode)
  | variableStmt (name : String) (type : SourceType) (isMutable : Bool)
      (initializer : Option ExprId)
  | function (name : String) (params : List Parameter) (returnType : SourceType)
      (body : List StmtId) (owner : Option String)
  | externalFunction (name : String) (params : List Parameter) (returnType : SourceType)
  | struct (name : String) (interface : Option String) (fields : List FieldDecl)
  | interface (name : String) (methods : List String)
  | global (name : String) (type : SourceType) (isMutable : Bool) (initializer : Option ExprId)

namespace ArenaCall

/-- The handles that are passed to the builder. -/
def handles : ArenaCall → List Handle
  | .expr node => node.operands.map .expr
  | .stmt node => node.roots.map .expr ++ node.parts.map .stmt
  | .variableStmt _ _ _ initializer | .global _ _ _ initializer => initializer.toList.map .expr
  | .function _ _ _ body _ => body.map .stmt
  | .moveTo .. | .externalFunction .. | .struct .. | .interface .. => []

/-- The node that a call asks for, at a location. -/
def node? (location : Option Location) : ArenaCall → Option (Expr ⊕ Stmt)
  | .expr node => some (.inl ⟨node, location⟩)
  | .stmt node => some (.inr ⟨node, location⟩)
  | .variableStmt name type isMutable initializer =>
    some (.inr ⟨.variable ⟨name, type, isMutable, initializer, location⟩, location⟩)
  | .moveTo .. | .function .. | .externalFunction .. | .struct .. | .interface .. | .global .. =>
    none

/-- The location that a call sets. -/
def place? : ArenaCall → Option Location
  | .moveTo line column => some (.unnamed line column)
  | _ => none

/-- The location that was set last. -/
def lastPlace (calls : List ArenaCall) : Option Location := (calls.filterMap place?).getLast?

end ArenaCall

namespace Arena

variable {arena arena' arena'' : Arena}

/-- The node at a handle. -/
def node? (arena : Arena) : Handle → Option (Expr ⊕ Stmt)
  | .expr id => arena.exprs[id.index.toNat]?.map .inl
  | .stmt id => arena.stmts[id.index.toNat]?.map .inr

/-- There is a node at the handle. -/
def Names (arena : Arena) : Handle → Prop
  | .expr id => id.index.toNat < arena.exprs.size
  | .stmt id => id.index.toNat < arena.stmts.size

/-- There are handles left, for an expression and for a statement. -/
def HasRoom (arena : Arena) : Prop :=
  arena.exprs.size < UInt32.size ∧ arena.stmts.size < UInt32.size

instance (arena : Arena) : Decidable arena.HasRoom :=
  inferInstanceAs (Decidable (arena.exprs.size < UInt32.size ∧ arena.stmts.size < UInt32.size))

/-- Every node has a handle of its own. -/
def Fits (arena : Arena) : Prop :=
  arena.exprs.size ≤ UInt32.size ∧ arena.stmts.size ≤ UInt32.size

instance (arena : Arena) : Decidable arena.Fits :=
  inferInstanceAs (Decidable (arena.exprs.size ≤ UInt32.size ∧ arena.stmts.size ≤ UInt32.size))

/-- One arena comes from another by adding nodes and declarations behind those that are there. -/
structure Grows (arena arena' : Arena) : Prop where
  exprs : arena.exprs.toList <+: arena'.exprs.toList
  stmts : arena.stmts.toList <+: arena'.stmts.toList
  items : arena.items <+: arena'.items

/-! ## Growing arenas -/

namespace Grows

theorem refl (arena : Arena) : arena.Grows arena :=
  ⟨List.prefix_rfl, List.prefix_rfl, List.prefix_rfl⟩

theorem trans (h : arena.Grows arena') (h' : arena'.Grows arena'') : arena.Grows arena'' :=
  ⟨h.exprs.trans h'.exprs, h.stmts.trans h'.stmts, h.items.trans h'.items⟩

theorem addExpr (arena : Arena) (e : Expr) : arena.Grows (arena.addExpr e).2 :=
  ⟨⟨[e], Array.toList_push.symm⟩, List.prefix_rfl, List.prefix_rfl⟩

theorem addStmt (arena : Arena) (s : Stmt) : arena.Grows (arena.addStmt s).2 :=
  ⟨List.prefix_rfl, ⟨[s], Array.toList_push.symm⟩, List.prefix_rfl⟩

theorem addItem (arena : Arena) (item : Declaration ExprId StmtId) :
    arena.Grows (arena.addItem item) :=
  ⟨List.prefix_rfl, List.prefix_rfl, List.prefix_append _ _⟩

/-- A handle that names a node still does. -/
theorem names (h : arena.Grows arena') {handle : Handle} (hnames : arena.Names handle) :
    arena'.Names handle := by
  cases handle with
  | expr id => exact Nat.lt_of_lt_of_le hnames h.exprs.length_le
  | stmt id => exact Nat.lt_of_lt_of_le hnames h.stmts.length_le

/-- Where the nodes have handles of their own, they always had. -/
theorem fits (h : arena.Grows arena') (hfits : arena'.Fits) : arena.Fits :=
  ⟨Nat.le_trans h.exprs.length_le hfits.1, Nat.le_trans h.stmts.length_le hfits.2⟩

theorem getElem?_of_initial {α : Type} {xs ys : Array α} (h : xs.toList <+: ys.toList) {i : Nat}
    {a : α} (ha : xs[i]? = some a) : ys[i]? = some a := by
  rw [← Array.getElem?_toList] at ha ⊢
  obtain ⟨hi, rfl⟩ := List.getElem?_eq_some_iff.mp ha
  exact List.prefix_iff_getElem?.mp h i hi

/-- The node at a handle stays what it is. -/
theorem node?_eq_some (h : arena.Grows arena') {handle : Handle} {node : Expr ⊕ Stmt}
    (hnode : arena.node? handle = some node) : arena'.node? handle = some node := by
  cases handle with
  | expr id =>
    obtain ⟨e, he, rfl⟩ := Option.map_eq_some_iff.mp hnode
    exact Option.map_eq_some_iff.mpr ⟨e, getElem?_of_initial h.exprs he, rfl⟩
  | stmt id =>
    obtain ⟨s, hs, rfl⟩ := Option.map_eq_some_iff.mp hnode
    exact Option.map_eq_some_iff.mpr ⟨s, getElem?_of_initial h.stmts hs, rfl⟩

/-- So an answer that fits what was asked for still does. -/
theorem rel_node? (h : arena.Grows arena') {handle : Option Handle} {node : Option (Expr ⊕ Stmt)}
    (hnode : Option.Rel (fun handle node => arena.node? handle = some node) handle node) :
    Option.Rel (fun handle node => arena'.node? handle = some node) handle node := by
  cases hnode with
  | none => exact .none
  | some hnode => exact .some (h.node?_eq_some hnode)

end Grows

/-! ## Growing arenas stay linked -/

/-- A handle that names one of `size` nodes comes before the handle of the next node. -/
theorem lt_ofNat_of_toNat_lt {index : UInt32} {size : Nat} (hsize : size + 1 ≤ UInt32.size)
    (h : index.toNat < size) : index < UInt32.ofNat size := by
  rwa [UInt32.lt_iff_toNat_lt, UInt32.toNat_ofNat_of_lt' hsize]

namespace Linked

theorem empty : Arena.empty.Linked :=
  ⟨by simp [Arena.empty], by simp [Arena.empty], by simp [Arena.empty], nofun, nofun⟩

/-- An expression is added behind its operands. -/
theorem addExpr (h : arena.Linked) {e : Expr} (hfits : (arena.addExpr e).2.Fits)
    (he : ∀ id ∈ e.node.operands, id.index.toNat < arena.exprs.size) :
    (arena.addExpr e).2.Linked where
  operands k e' he' id hid := by
    have hsize : arena.exprs.size + 1 ≤ UInt32.size := by
      simpa only [Arena.addExpr, Array.size_push] using hfits.1
    rw [Arena.addExpr, Array.getElem?_push] at he'
    split at he'
    · next hk =>
      cases he'
      exact hk ▸ lt_ofNat_of_toNat_lt hsize (he id hid)
    · exact h.operands k e' he' id hid
  roots s hs id hid := Nat.lt_of_lt_of_le (h.roots s hs id hid) (by simp [Arena.addExpr])
  parts := h.parts
  initializers item hitem id hid :=
    Nat.lt_of_lt_of_le (h.initializers item hitem id hid) (by simp [Arena.addExpr])
  bodies := h.bodies

/-- So is a statement behind its parts. -/
theorem addStmt (h : arena.Linked) {s : Stmt} (hfits : (arena.addStmt s).2.Fits)
    (hroots : ∀ id ∈ s.node.roots, id.index.toNat < arena.exprs.size)
    (hparts : ∀ id ∈ s.node.parts, id.index.toNat < arena.stmts.size) :
    (arena.addStmt s).2.Linked where
  operands := h.operands
  roots s' hs' id hid := by
    rcases Array.mem_push.mp hs' with hs' | rfl
    · exact h.roots s' hs' id hid
    · exact hroots id hid
  parts k s' hs' id hid := by
    have hsize : arena.stmts.size + 1 ≤ UInt32.size := by
      simpa only [Arena.addStmt, Array.size_push] using hfits.2
    rw [Arena.addStmt, Array.getElem?_push] at hs'
    split at hs'
    · next hk =>
      cases hs'
      exact hk ▸ lt_ofNat_of_toNat_lt hsize (hparts id hid)
    · exact h.parts k s' hs' id hid
  initializers := h.initializers
  bodies item hitem id hid :=
    Nat.lt_of_lt_of_le (h.bodies item hitem id hid) (by simp [Arena.addStmt])

theorem addItem (h : arena.Linked) {item : Declaration ExprId StmtId}
    (hroot : ∀ id ∈ item.root?, id.index.toNat < arena.exprs.size)
    (hbody : ∀ id ∈ item.body?, id.index.toNat < arena.stmts.size) :
    (arena.addItem item).Linked where
  operands := h.operands
  roots := h.roots
  parts := h.parts
  initializers item' hitem' id hid := by
    rcases List.mem_append.mp hitem' with hitem' | hitem'
    · exact h.initializers item' hitem' id hid
    · cases List.mem_singleton.mp hitem'
      exact hroot id hid
  bodies item' hitem' id hid := by
    rcases List.mem_append.mp hitem' with hitem' | hitem'
    · exact h.bodies item' hitem' id hid
    · cases List.mem_singleton.mp hitem'
      exact hbody id hid

end Linked

/-- The handle of a new expression names a node, even if it is that of an earlier one. -/
theorem names_addExpr (arena : Arena) (e : Expr) :
    (arena.addExpr e).2.Names (.expr (arena.addExpr e).1) := by
  simp only [addExpr, Names, Array.size_push, UInt32.toNat_ofNat']
  exact Nat.lt_succ_of_le (Nat.mod_le _ _)

theorem names_addStmt (arena : Arena) (s : Stmt) :
    (arena.addStmt s).2.Names (.stmt (arena.addStmt s).1) := by
  simp only [addStmt, Names, Array.size_push, UInt32.toNat_ofNat']
  exact Nat.lt_succ_of_le (Nat.mod_le _ _)

/-- As long as there are handles left, the handle of a new expression is its own. -/
theorem node?_addExpr {e : Expr} (h : arena.HasRoom) :
    (arena.addExpr e).2.node? (.expr (arena.addExpr e).1) = some (.inl e) := by
  simp [addExpr, node?, UInt32.toNat_ofNat_of_lt' h.1]

theorem node?_addStmt {s : Stmt} (h : arena.HasRoom) :
    (arena.addStmt s).2.node? (.stmt (arena.addStmt s).1) = some (.inr s) := by
  simp [addStmt, node?, UInt32.toNat_ofNat_of_lt' h.2]

end Arena

namespace ArenaBuilder

open ArenaCall

variable {b : ArenaBuilder} {calls : List ArenaCall}

/-- The handle with which a call is answered, if any, and the builder after it. -/
def perform (b : ArenaBuilder) : ArenaCall → Option Handle × ArenaBuilder
  | .moveTo line column => (none, b.moveTo line column)
  | .expr node => (some (.expr (b.expr node).1), (b.expr node).2)
  | .stmt node => (some (.stmt (b.stmt node).1), (b.stmt node).2)
  | .variableStmt name type isMutable initializer =>
    let (id, b) := b.variableStmt name type isMutable initializer
    (some (.stmt id), b)
  | .function name params returnType body owner =>
    (none, b.function name params returnType body owner)
  | .externalFunction name params returnType => (none, b.externalFunction name params returnType)
  | .struct name interface fields => (none, b.struct name interface fields)
  | .interface name methods => (none, b.interface name methods)
  | .global name type isMutable initializer => (none, b.global name type isMutable initializer)

/-- The builder after some calls. -/
def run (b : ArenaBuilder) (calls : List ArenaCall) : ArenaBuilder :=
  calls.foldl (fun b call => (b.perform call).2) b

/-- The answers to some calls, one after another. -/
def answers (b : ArenaBuilder) : List ArenaCall → List (Option Handle)
  | [] => []
  | call :: calls => (b.perform call).1 :: (b.perform call).2.answers calls

/-- Every handle that is passed to a new builder was returned by an earlier call. -/
def PassesReturned (calls : List ArenaCall) : Prop :=
  ∀ i (hi : i < calls.length), ∀ handle ∈ calls[i].handles,
    some handle ∈ empty.answers (calls.take i)

instance (calls : List ArenaCall) : Decidable (PassesReturned calls) :=
  inferInstanceAs (Decidable (∀ i (hi : i < calls.length), ∀ handle ∈ calls[i].handles,
    some handle ∈ empty.answers (calls.take i)))

theorem run_append (b : ArenaBuilder) (calls rest : List ArenaCall) :
    b.run (calls ++ rest) = (b.run calls).run rest := List.foldl_append

theorem answers_append (b : ArenaBuilder) (calls rest : List ArenaCall) :
    b.answers (calls ++ rest) = b.answers calls ++ (b.run calls).answers rest := by
  induction calls generalizing b with
  | nil => rfl
  | cons call calls ih => exact congrArg (_ :: ·) (ih _)

/-! ## One call -/

theorem grows_perform (b : ArenaBuilder) (call : ArenaCall) :
    b.arena.Grows (b.perform call).2.arena := by
  cases call with
  | moveTo => exact .refl _
  | expr => exact .addExpr _ _
  | stmt | variableStmt => exact .addStmt _ _
  | function => exact (Arena.Grows.addStmt _ _).trans (.addItem _ _)
  | externalFunction | struct | interface | global => exact .addItem _ _

/-- A call that is passed handles of the arena keeps the arena linked. -/
theorem linked_perform (h : b.arena.Linked) {call : ArenaCall}
    (hhandles : ∀ handle ∈ call.handles, b.arena.Names handle)
    (hfits : (b.perform call).2.arena.Fits) : (b.perform call).2.arena.Linked := by
  cases call with
  | moveTo => exact h
  | expr node =>
    exact h.addExpr hfits fun id hid => hhandles (.expr id) (List.mem_map_of_mem hid)
  | stmt node =>
    refine h.addStmt hfits (fun id hid => hhandles (.expr id) ?_)
      fun id hid => hhandles (.stmt id) ?_
    · exact List.mem_append_left _ (List.mem_map_of_mem hid)
    · exact List.mem_append_right _ (List.mem_map_of_mem hid)
  | variableStmt name type isMutable initializer =>
    exact h.addStmt hfits (fun id hid => hhandles (.expr id) (List.mem_map_of_mem hid)) nofun
  | function name params returnType body owner =>
    -- The body is the block that was added just before.
    have hblock := h.addStmt (s := ⟨.block body, b.location⟩) hfits nofun fun id hid =>
      hhandles (.stmt id) (List.mem_map_of_mem hid)
    refine hblock.addItem nofun fun id hid => ?_
    cases hid
    exact b.arena.names_addStmt ⟨.block body, b.location⟩
  | externalFunction | struct | interface => exact h.addItem nofun nofun
  | global name type isMutable initializer =>
    refine h.addItem (fun id hid => hhandles (.expr id) ?_) nofun
    exact List.mem_map_of_mem (Option.mem_toList.mpr hid)

theorem names_perform {call : ArenaCall} {handle : Handle}
    (h : (b.perform call).1 = some handle) : (b.perform call).2.arena.Names handle := by
  cases call with
  | expr node =>
    cases h
    exact b.arena.names_addExpr _
  | stmt | variableStmt =>
    cases h
    exact b.arena.names_addStmt _
  | _ => cases h

/-- As long as there are handles left, a call is answered with a handle if it asks for a node, and
the node is found at the handle. -/
theorem node?_perform (h : b.arena.HasRoom) (call : ArenaCall) :
    Option.Rel (fun handle node => (b.perform call).2.arena.node? handle = some node)
      (b.perform call).1 (call.node? b.location) := by
  cases call with
  | expr => exact .some (Arena.node?_addExpr h)
  | stmt | variableStmt => exact .some (Arena.node?_addStmt h)
  | _ => exact .none

theorem location_perform (b : ArenaBuilder) (call : ArenaCall) :
    (b.perform call).2.location = call.place?.or b.location := by
  cases call <;> rfl

/-! ## Any number of calls -/

theorem grows_run (b : ArenaBuilder) (calls : List ArenaCall) :
    b.arena.Grows (b.run calls).arena :=
  List.foldlRecOn (motive := fun b' : ArenaBuilder => b.arena.Grows b'.arena) calls _ (.refl _)
    fun b' hb' call _ => hb'.trans (b'.grows_perform call)

/-- What the first calls have made is not changed by the others. -/
theorem grows_take (b : ArenaBuilder) (calls : List ArenaCall) (i : Nat) :
    (b.run (calls.take i)).arena.Grows (b.run calls).arena := by
  conv => rhs; rw [← List.take_append_drop i calls, run_append]
  exact grows_run _ _

theorem location_run (calls : List ArenaCall) : (empty.run calls).location = lastPlace calls := by
  induction calls using List.reverseRecOn with
  | nil => rfl
  | append_singleton calls call ih =>
    rw [run_append, run, List.foldl_cons, List.foldl_nil, location_perform, ih, lastPlace,
      lastPlace, List.filterMap_append]
    cases call <;> simp [place?]

/-- Every handle that was returned names a node. -/
theorem names_of_mem_answers {handle : Handle} (h : some handle ∈ b.answers calls) :
    (b.run calls).arena.Names handle := by
  induction calls generalizing b with
  | nil => cases h
  | cons call calls ih =>
    rcases List.mem_cons.mp h with h | h
    · exact (grows_run _ calls).names (names_perform h.symm)
    · exact ih h

/-- If only returned handles are passed, the arena is linked as long as the handles suffice. -/
theorem linked_take (h : PassesReturned calls) (i : Nat)
    (hfits : (empty.run (calls.take i)).arena.Fits) :
    (empty.run (calls.take i)).arena.Linked := by
  induction i with
  | zero => exact .empty
  | succ i ih =>
    by_cases hi : i < calls.length
    · rw [List.take_succ_eq_append_getElem hi, run_append] at hfits ⊢
      have hlinked := ih ((grows_perform _ _).fits hfits)
      exact linked_perform hlinked
        (fun handle hhandle => names_of_mem_answers (h i hi handle hhandle)) hfits
    · rw [List.take_of_length_le (by omega)] at ih hfits ⊢
      exact ih hfits

/-- However a builder is called, as long as it is passed only handles that it returned, its arena
is valid, unless it has more nodes than there are handles. A call that asks for a node is answered
with a handle, at which the node is found after all calls, with the location that was set last
before it, as long as there are handles left; and what the first calls have made is never
changed. -/
theorem calls_build_valid (calls : List ArenaCall) (h : PassesReturned calls) :
    ((empty.run calls).arena.Fits → (empty.run calls).arena.validate = .ok ()) ∧
    (∀ i (hi : i < calls.length), (empty.run (calls.take i)).arena.HasRoom →
      Option.Rel (fun handle node => (empty.run calls).arena.node? handle = some node)
        ((empty.run (calls.take i)).perform calls[i]).1
        (calls[i].node? (lastPlace (calls.take i)))) ∧
    ∀ i, (empty.run (calls.take i)).arena.Grows (empty.run calls).arena := by
  refine ⟨fun hfits => ?_, fun i hi hroom => ?_, empty.grows_take calls⟩
  · have hlinked := linked_take h calls.length
    rw [List.take_length] at hlinked
    exact Arena.validate_eq_ok_iff.mpr (hlinked hfits)
  · have hstep := node?_perform hroom calls[i]
    have hgrows := empty.grows_take calls (i + 1)
    rw [List.take_succ_eq_append_getElem hi, run_append] at hgrows
    rw [location_run] at hstep
    exact hgrows.rel_node? hstep

/-- A function that returns two times two. Both operands are the same node. -/
def fourCalls : List ArenaCall :=
  [.moveTo 1 1, .expr (.literal (.number "2")), .moveTo 1 5, .expr (.binary .mul ⟨0⟩ ⟨0⟩),
    .stmt (.ret (some ⟨1⟩)), .function "four" [] (.named "i32") [⟨0⟩] none]

theorem calls_build_valid_four : PassesReturned fourCalls ∧
    (empty.run fourCalls).arena.Fits ∧
    (empty.run fourCalls).arena.validate = .ok () ∧
    (empty.run (fourCalls.take 3)).arena.HasRoom ∧
    (empty.run fourCalls).arena.node? (.expr ⟨1⟩) =
      some (.inl ⟨.binary .mul ⟨0⟩ ⟨0⟩, some (.unnamed 1 5)⟩) := by
  have hpasses : PassesReturned fourCalls := by decide
  have hfits : (empty.run fourCalls).arena.Fits := by decide
  have hroom : (empty.run (fourCalls.take 3)).arena.HasRoom := by decide
  obtain ⟨hvalid, hnodes, -⟩ := calls_build_valid fourCalls hpasses
  refine ⟨hpasses, hfits, hvalid hfits, hroom, ?_⟩
  obtain @⟨_, _, hnode⟩ | _ := hnodes 3 (by decide) hroom
  exact hnode

-- A handle that was not returned yet.
example : (empty.run [.expr (.unary .minus ⟨0⟩)]).arena.validate =
    .error (.laterExpr (.expr ⟨0⟩) ⟨0⟩) := by decide

end ArenaBuilder

end SsaLowering
