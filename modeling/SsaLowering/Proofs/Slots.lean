import Mathlib.Data.List.Flatten
import SsaLowering.Proofs.Extension
import SsaLowering.Proofs.Storage
import SsaLowering.Proofs.UnitTyping

/-!
# Stack slots and names

Only the declaration of a variable adds a stack slot. It goes behind the slots that are there, so
that the slots of an earlier state come first in every later one. An expression leaves the slots
and the names as they are, but for the marks of the names that it reads.
-/

namespace SsaLowering

open Lower BodyState

/-- Stack slots stand in front of the entry block and nowhere else, and no two of them share an
address. -/
structure FunctionDef.SlotsFirst (f : FunctionDef) : Prop where
  front : ∀ c ∈ f.blocks, c.body = c.slots ++ c.code
  entry : ∀ c ∈ f.blocks.tail, c.slots = []
  nodup : f.slots.Nodup

/-- The names and their bindings, regardless of which ones were read. -/
def Scope.unmarked (scope : Scope) : List (String × Binding) :=
  scope.entries.map fun (name, b) => (name, { b with used := false })

theorem Scope.unmarked_markUsed (scope : Scope) (name : String) :
    (scope.markUsed name).unmarked = scope.unmarked := by
  simp only [unmarked, markUsed, List.map_map]
  refine List.map_congr_left fun entry _ => ?_
  dsimp only [Function.comp_apply]
  split <;> rfl

namespace FunctionBuilder

variable {b b' : FunctionBuilder} {f : FunctionDef}

/-- The stack slots of the function under construction, in the order of its code. -/
def allocas (b : FunctionBuilder) : List Instr := b.instrs.filter (·.isAlloca)

theorem allocas_eq (hf : b.function = some f) : b.allocas = f.blocks.flatMap Block.slots := by
  rw [allocas, instrs, hf]
  show f.instrs.filter (·.isAlloca) = _
  rw [FunctionDef.instrs, List.filter_flatMap]
  rfl

theorem mem_allocas {t : Nat} {type : MachineType} :
    .alloca t type ∈ b.allocas ↔ .alloca t type ∈ b.instrs := by
  simp [allocas, Instr.isAlloca]

namespace Tidy

theorem slotsFirst (h : b.Tidy f) : f.SlotsFirst where
  front := h.slots_first
  entry := h.slots_entry
  nodup := by
    refine h.results_nodup.sublist ?_
    rw [FunctionDef.slots, FunctionDef.results]
    exact List.Sublist.flatMap_right _ fun c _ => List.filter_sublist.filterMap _

/-- A slot was drawn before. -/
theorem slot_lt (h : b.Tidy f) (hf : b.function = some f) {t : Nat} {type : MachineType}
    (hslot : .alloca t type ∈ b.allocas) : t < b.nextTemp := by
  rw [mem_allocas, instrs, hf] at hslot
  refine (h.results_drawn t ?_).2
  rw [results_eq]
  exact List.mem_filterMap.mpr ⟨_, hslot, rfl⟩

end Tidy

theorem Sound.slot_lt (h : b.Sound) {t : Nat} {type : MachineType}
    (hslot : .alloca t type ∈ b.allocas) : t < b.nextTemp := by
  cases hf : b.function with
  | none => simp [mem_allocas, instrs, hf] at hslot
  | some f => exact (h.2 f hf).slot_lt hf hslot

/-! ## What edits keep -/

theorem Edit.nextTemp_le (h : b.Edit b') : b.nextTemp ≤ b'.nextTemp := by
  cases h with
  | draw hm => exact hm
  | goTo | create => exact Nat.le_refl _
  | push _ _ _ _ _ hle => exact hle
  | insert _ hle hlt => exact hle.trans hlt.le

theorem Edits.nextTemp_le (h : b.Edits b') : b.nextTemp ≤ b'.nextTemp := by
  induction h with
  | refl => exact Nat.le_refl _
  | tail _ hedit ih => exact ih.trans hedit.nextTemp_le

theorem Edit.params (h : b.Edit b') (hf : b.function = some f) :
    ∃ g, b'.function = some g ∧ g.params = f.params := by
  cases h with
  | draw | goTo => exact ⟨f, hf, rfl⟩
  | create _ hg | push hg =>
    obtain rfl := Option.some.inj (hf.symm.trans hg)
    exact ⟨_, rfl, rfl⟩
  | @insert g _ _ _ hg =>
    obtain rfl := Option.some.inj (hf.symm.trans hg)
    refine ⟨_, rfl, ?_⟩
    unfold FunctionDef.withSlot
    split <;> rfl

theorem Edits.params (h : b.Edits b') (hf : b.function = some f) :
    ∃ g, b'.function = some g ∧ g.params = f.params := by
  induction h with
  | refl => exact ⟨f, hf, rfl⟩
  | tail _ hedit ih =>
    obtain ⟨g, hg, hparams⟩ := ih
    obtain ⟨g', hg', hparams'⟩ := hedit.params hg
    exact ⟨g', hg', hparams'.trans hparams⟩

/-- The slots that are there stay in front. -/
theorem Sound.allocas_edit (h : b.Sound) (hedit : b.Edit b') : b.allocas <+: b'.allocas := by
  cases hedit with
  | draw | goTo => exact List.prefix_refl _
  | @create f l hint hf =>
    have hopened : (Front.opened b f l hint).function =
        some { f with blocks := f.blocks ++ [Block.fresh l hint] } := rfl
    rw [allocas_eq hopened, allocas_eq hf, List.flatMap_append]
    exact List.prefix_append _ _
  | @push f c l n i hf _ hc _ hi =>
    obtain ⟨done, rest, hblocks, hpushed⟩ := FunctionDef.exists_modifyBlock hc (·.push i)
    have hnew : { b with function := some (f.modifyBlock l (·.push i)), nextTemp := n }.allocas =
        (f.modifyBlock l (·.push i)).blocks.flatMap Block.slots := allocas_eq rfl
    rw [hnew, allocas_eq hf, hblocks, hpushed, List.flatMap_append, List.flatMap_append,
      List.flatMap_cons, List.flatMap_cons, Block.slots_push c hi]
  | @insert f t n type hf =>
    have hnew : { b with function := some (f.withSlot (.alloca t type)), nextTemp := n }.allocas =
        (f.withSlot (.alloca t type)).blocks.flatMap Block.slots := allocas_eq rfl
    rw [hnew, allocas_eq hf]
    have htidy := h.2 f hf
    rcases hblocks : f.blocks with _ | ⟨entry, rest⟩
    · exact List.nil_prefix
    · -- Behind the slots of the entry block there are none.
      have hrest : rest.flatMap Block.slots = [] := by
        have hnone := htidy.slots_entry
        rw [hblocks] at hnone
        exact List.flatMap_eq_nil_iff.mpr hnone
      have hentry : entry.body = entry.slots ++ entry.code :=
        htidy.slots_first entry (by simp [hblocks])
      rw [FunctionDef.withSlot_of_cons hblocks, List.flatMap_cons, List.flatMap_cons,
        Block.slots_insertSlot hentry rfl, hrest, List.append_nil, List.append_nil]
      exact List.prefix_append _ _

theorem Sound.allocas_edits (h : b.Sound) (hedits : b.Edits b') : b.allocas <+: b'.allocas := by
  induction hedits with
  | refl => exact List.prefix_refl _
  | tail hedits hedit ih => exact ih.trans ((h.edits hedits).allocas_edit hedit)

/-- If an instruction was added that is no slot, then there are the same slots in the same order. -/
theorem Sound.allocas_add (h : b.Sound) (hedits : b.Edits b') {i : Instr} (hadds : b.Adds i b')
    (hi : i.isAlloca = false) : b'.allocas = b.allocas := by
  have hlength : b'.allocas.length = b.allocas.length := by
    have hperm := (hadds.instrs.filter (·.isAlloca)).length_eq
    rwa [List.filter_cons_of_neg (by simp [hi])] at hperm
  exact ((h.allocas_edits hedits).eq_of_length hlength.symm).symm

end FunctionBuilder

/-! ## What expressions leave alone -/

namespace BodyState

variable {env : Environment} {s s' s'' : BodyState}

/-- Between the two states no slot was added, and no name was bound. -/
structure Spares (s s' : BodyState) : Prop where
  edits : s.builder.Edits s'.builder
  allocas : s.builder.Sound → s'.builder.allocas = s.builder.allocas
  unmarked : s'.scope.unmarked = s.scope.unmarked

theorem Spares.refl (s : BodyState) : s.Spares s := ⟨.refl, fun _ => rfl, rfl⟩

theorem Spares.trans (s s' s'' : BodyState) (h : s.Spares s') (h' : s'.Spares s'') :
    s.Spares s'' where
  edits := h.edits.trans h'.edits
  allocas hs := (h'.allocas (hs.edits h.edits)).trans (h.allocas hs)
  unmarked := h'.unmarked.trans h.unmarked

theorem TidyStep.spares (h : s.TidyStep env s') : s.Spares s' := by
  obtain ⟨hstep, hedits⟩ := h
  cases hstep with
  | report => exact ⟨hedits, fun _ => rfl, rfl⟩
  | use name => exact ⟨hedits, fun _ => rfl, s.scope.unmarked_markUsed name⟩
  | @turn b hinstrs =>
    refine ⟨hedits, fun _ => ?_, rfl⟩
    show b.instrs.filter (·.isAlloca) = s.instrs.filter (·.isAlloca)
    rw [hinstrs]
  | add hadds hallows =>
    exact ⟨hedits, fun hs => hs.allocas_add hedits hadds hallows.isAlloca_eq_false, rfl⟩

end BodyState

namespace Visit

variable {env : Environment} {context : FunctionContext} {v w : Visit} {s s' a b : BodyState}
  {location : Option Location} {decl : VariableDecl Term} {source : SourceType}
  {type : MachineType} {initial : Option Value} {slot : Value}

/-- The node is an expression, or the expressions of the arguments of a call. -/
def IsExpression (v : Visit) : Prop :=
  match v.node with
  | .term _ | .terms _ => True
  | .statement _ | .block _ => False

theorem isExpression_of_node {term : Term} (h : v.node = .term term) : v.IsExpression := by
  rw [IsExpression, h]
  trivial

theorem isExpression_of_mem_parts (hv : v.IsExpression) (hw : w ∈ v.parts env context) :
    w.IsExpression := by
  obtain ⟨node, s⟩ := v
  have hterms {args : List Term} (h : w.node = .terms args) : w.IsExpression := by
    rw [IsExpression, h]
    trivial
  cases node with
  | term term =>
    change w ∈ partsOfTerm env s term at hw
    unfold partsOfTerm at hw
    split at hw
    · exact hterms (node_of_mem_partsOfCall hw)
    · rcases node_of_mem_partsOfBinary hw with h | h
      all_goals exact isExpression_of_node h
    · exact isExpression_of_node (congrArg node (List.mem_singleton.mp hw))
    · exact isExpression_of_node (congrArg node (List.mem_singleton.mp hw))
    · obtain ⟨_, s₁, -, hw⟩ := mem_behind hw
      exact isExpression_of_node (congrArg node (List.mem_singleton.mp hw))
    · exact isExpression_of_node (congrArg node (List.mem_singleton.mp hw))
    · cases hw
  | terms terms =>
    cases terms with
    | nil => cases hw
    | cons first rest =>
      rcases node_of_mem_partsOfTerms hw with h | h
      · exact isExpression_of_node h
      · exact hterms h
  | statement => exact hv.elim
  | block => exact hv.elim

theorem Contains.isExpression (h : v.Contains env context w) (hv : v.IsExpression) :
    w.IsExpression := by
  induction h with
  | refl => exact hv
  | tail _ hw ih => exact isExpression_of_mem_parts ih hw

theorem Change.spares (hv : v.IsExpression) (h : v.Change env a b) : a.Spares b := by
  have hnot {statement : Statement} (hnode : v.node = .statement statement) : False := by
    rw [IsExpression, hnode] at hv
    exact hv
  cases h with
  | step hstep => exact hstep.spares
  | intern => exact ⟨.refl, fun _ => rfl, rfl⟩
  | slot hnode | initial hnode | declare hnode => exact (hnot hnode).elim

theorem spares_after (hv : v.IsExpression) : v.state.Spares (v.after env context) :=
  across course_changes Spares.trans v fun _ hw =>
    rel_changes Spares.refl Spares.trans fun _ _ => Change.spares (hw.isExpression hv)

/-- The initializer of a variable is an expression. -/
theorem spares_variableValue (env : Environment) (decl : VariableDecl Term) (s : BodyState) :
    s.Spares (exec (variableValue env decl) s).2 := by
  -- It goes on like a visit that has nothing else to do.
  let v : Visit := ⟨.terms [], s⟩
  have hv : v.IsExpression := trivial
  have hcourse : v.Follows env default (variableValue env decl) s _ := Follows.variableValue decl
  refine hcourse.rel Spares.trans (fun a b h => ?_) fun w hw => ?_
  · exact rel_changes Spares.refl Spares.trans (fun _ _ => Change.spares hv) a b h.2
  · obtain ⟨initializer, -, hnode⟩ := node_of_mem_partsOfVariable hw
    exact spares_after (isExpression_of_node hnode)

/-! ## What a declaration adds -/

theorem edits_build {α : Type} {action : Build α} (h : Build.Careful action) (s : BodyState) :
    s.builder.Edits (exec (build action) s).2.builder := by
  have hedits := (h s.builder).1
  rw [exec_build]
  rcases hexec : exec action s.builder with ⟨e | a, b⟩
  all_goals
    rw [hexec] at hedits
    exact hedits

/-- The slot of a variable is the next temporary. -/
theorem slot_of_ok (h : exec (build (Build.entryAlloca type)) s = (.ok slot, s')) :
    slot = .temp s.builder.nextTemp ∧ ∃ b, s' = { s with builder := b } ∧
      s.builder.Adds (.alloca s.builder.nextTemp type) b := by
  obtain ⟨haction, hs'⟩ := exec_build_eq_ok h
  rcases Build.adds_entryAlloca type s.builder with ⟨e, he⟩ | ⟨b, hexec, hadds⟩
  · rw [he] at haction
    cases haction
  · rw [hexec] at haction
    cases haction
    exact ⟨rfl, _, hs', hadds⟩

/-- Storing the first value changes nothing but the code. -/
theorem storeInitial_spares (slot : Value) (type : MachineType) (initial : Option Value)
    (s : BodyState) : ∃ b, (exec (storeInitial slot type initial) s).2 = { s with builder := b } ∧
      s.Spares { s with builder := b } := by
  cases initial with
  | none => exact ⟨s.builder, rfl, .refl s⟩
  | some value =>
    have hcareful : Build.Careful (Build.store value slot type) := Build.careful_emit rfl rfl
    have hedits := edits_build hcareful s
    rw [storeInitial]
    rw [exec_build] at hedits ⊢
    rw [Build.store] at hedits ⊢
    rcases Build.adds_emit s.builder (i := .store value slot type) rfl with ⟨e, he⟩ | ⟨b, hb, hadds⟩
    · rw [he]
      exact ⟨s.builder, rfl, .refl s⟩
    · rw [hb] at hedits ⊢
      exact ⟨b, rfl, hedits, fun hs => hs.allocas_add hedits hadds rfl, rfl⟩

/-- A node only makes edits. -/
theorem Change.edits (h : v.Change env a b) : a.builder.Edits b.builder := by
  cases h with
  | step hstep => exact hstep.2
  | intern | declare => exact .refl
  | slot => exact edits_build (Build.careful_entryAlloca _) _
  | initial =>
    obtain ⟨b, heq, hspares⟩ := storeInitial_spares _ _ _ a
    rw [heq]
    exact hspares.edits

end Visit

end SsaLowering
