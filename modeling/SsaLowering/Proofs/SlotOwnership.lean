import SsaLowering.Proofs.Readiness
import SsaLowering.Proofs.Slots

/-!
# Every variable has a slot of its own

The slots of a function stand in front of its entry block, wherever the variables are declared that
live there. A name that is no parameter has a slot of its type, and no slot has two names or serves
two declarations, be it of the same name. A declaration that fails leaves no slot and no name
behind.
-/

namespace SsaLowering

open Lower BodyState

/-- A local name has a stack slot of its type, or it is a parameter, which is not assigned to. -/
inductive Housed (d : DeclaredFunction) (allocas : List Instr) (b : Binding) : Prop
  | slot {t : Nat} : b.storage = .stack (.temp t) → .alloca t b.type ∈ allocas →
    Housed d allocas b
  | parameter {index : Nat} {param : Parameter} : d.decl.params[index]? = some param →
    (index, b.type) ∈ d.declaration.params → b.storage = .direct (.temp index) →
    b.source = param.type → b.isMutable = false → Housed d allocas b

/-- No two names have the same slot. -/
def SlotsApart (entries : List (String × Binding)) : Prop :=
  entries.Pairwise fun e e' => ∀ slot, e.2.storage = .stack slot → e'.2.storage ≠ .stack slot

namespace Scope

variable {scope : Scope} {d : DeclaredFunction} {allocas : List Instr}

theorem housed_unmarked :
    (∀ e ∈ scope.unmarked, Housed d allocas e.2) ↔ ∀ e ∈ scope.entries, Housed d allocas e.2 := by
  have hused (b : Binding) : Housed d allocas { b with used := false } ↔ Housed d allocas b := by
    constructor
    all_goals
      intro h
      cases h with
      | slot hstorage hslot => exact .slot hstorage hslot
      | parameter hparam htype hstorage hsource hfixed =>
        exact .parameter hparam htype hstorage hsource hfixed
  exact List.forall_mem_map.trans (forall₂_congr fun e _ => hused e.2)

theorem slotsApart_unmarked : SlotsApart scope.unmarked ↔ SlotsApart scope.entries :=
  List.pairwise_map

end Scope

theorem Housed.mono {d : DeclaredFunction} {allocas allocas' : List Instr} {b : Binding}
    (h : Housed d allocas b) (hsub : allocas ⊆ allocas') : Housed d allocas' b := by
  cases h with
  | slot hstorage hslot => exact .slot hstorage (hsub hslot)
  | parameter hparam htype hstorage hsource hfixed =>
    exact .parameter hparam htype hstorage hsource hfixed

/-- What holds of the slots and the names in all states of a body. -/
structure Allotted (d : DeclaredFunction) (s : BodyState) : Prop where
  sound : s.builder.Sound
  function : ∃ f, s.builder.function = some f ∧ f.params = d.declaration.params
  housed : ∀ e ∈ s.scope.entries, Housed d s.builder.allocas e.2
  apart : SlotsApart s.scope.entries

namespace Allotted

variable {env : Environment} {context : FunctionContext} {v : Visit} {d : DeclaredFunction}
  {s a b : BodyState}

/-- Edits move no slot, and reading a name does not bind it anew. -/
theorem edits (h : Allotted d a) (hedits : a.builder.Edits b.builder)
    (hnames : b.scope.unmarked = a.scope.unmarked) : Allotted d b where
  sound := h.sound.edits hedits
  function := by
    obtain ⟨f, hf, hparams⟩ := h.function
    obtain ⟨g, hg, hsame⟩ := hedits.params hf
    exact ⟨g, hg, hsame.trans hparams⟩
  housed := by
    rw [← Scope.housed_unmarked, hnames, Scope.housed_unmarked]
    exact fun e he => (h.housed e he).mono (h.sound.allocas_edits hedits).subset
  apart := by
    rw [← Scope.slotsApart_unmarked, hnames, Scope.slotsApart_unmarked]
    exact h.apart

theorem spares (h : Allotted d a) (hspares : a.Spares b) : Allotted d b :=
  h.edits hspares.edits hspares.unmarked

/-- A name that is bound to a new slot is the only one there. -/
theorem declare (h : Allotted d s) {t : Nat} {name : String} {binding : Binding}
    (hstorage : binding.storage = .stack (.temp t))
    (hslot : .alloca t binding.type ∈ s.builder.allocas)
    (hnew : ∀ e ∈ s.scope.entries, e.2.storage ≠ .stack (.temp t)) :
    Allotted d { s with scope := s.scope.declare name binding } where
  sound := h.sound
  function := h.function
  housed := by
    intro e he
    rcases List.mem_append.mp he with he | he
    · exact h.housed e (List.mem_filter.mp he).1
    · obtain rfl := List.mem_singleton.mp he
      exact .slot hstorage hslot
  apart := by
    refine List.pairwise_append.mpr ⟨h.apart.sublist List.filter_sublist,
      List.pairwise_singleton _ _, ?_⟩
    intro e he e' he' slot hold hsame
    obtain rfl := List.mem_singleton.mp he'
    obtain rfl : Value.temp t = slot := Storage.stack.inj (hstorage.symm.trans hsame)
    exact hnew e (List.mem_filter.mp he).1 hold

/-- The slots that names have were drawn before. -/
theorem storage_ne (h : Allotted d s) {e : String × Binding} (he : e ∈ s.scope.entries) :
    e.2.storage ≠ .stack (.temp s.builder.nextTemp) := by
  intro hstorage
  cases h.housed e he with
  | slot hslot hmem =>
    cases hslot.symm.trans hstorage
    exact absurd (h.sound.slot_lt hmem) (Nat.lt_irrefl _)
  | parameter _ _ hdirect => cases hdirect.symm.trans hstorage

theorem change (hv : Allotted d v.state) (h : v.Change env a b) (ha : Allotted d a) :
    Allotted d b := by
  cases h with
  | step hstep => exact ha.spares hstep.spares
  | intern => exact ha.spares ⟨.refl, fun _ => rfl, rfl⟩
  | @slot _ _ decl source type initial hnode hvalue =>
    refine ha.edits (Visit.Change.slot hnode hvalue).edits ?_
    rw [exec_build]
    rcases exec (Build.entryAlloca type) a.builder with ⟨e | a, b⟩ <;> rfl
  | initial =>
    obtain ⟨b, heq, hspares⟩ := Visit.storeInitial_spares _ _ _ a
    rw [heq]
    exact ha.spares hspares
  | @declare s s₁ _ _ decl source type initial slot hnode hvalue hslot hstore =>
    -- The names are those that there were when the slot was drawn.
    have hs : Allotted d s := by
      have hspares := Visit.spares_variableValue env decl v.state
      rw [hvalue] at hspares
      exact hv.spares hspares
    have hedits := (Visit.Change.slot hnode hvalue).edits
    rw [hslot] at hedits
    obtain ⟨rfl, b₁, rfl, hadds⟩ := Visit.slot_of_ok hslot
    obtain ⟨b₂, heq, hspares⟩ := Visit.storeInitial_spares (.temp s.builder.nextTemp) type initial
      { s with builder := b₁ }
    rw [hstore] at heq
    obtain rfl : a = _ := heq
    have hmem : .alloca s.builder.nextTemp type ∈ b₂.allocas := by
      have hnew : .alloca s.builder.nextTemp type ∈ b₁.allocas :=
        FunctionBuilder.mem_allocas.mpr (hadds.instrs.mem_iff.mpr List.mem_cons_self)
      exact ((hs.sound.edits hedits).allocas_edits hspares.edits).subset hnew
    exact ha.declare rfl hmem fun e he => hs.storage_ne he

theorem changes (env : Environment) (v : Visit) (hv : Allotted d v.state) (a b : BodyState)
    (h : v.Changes env a b) (ha : Allotted d a) : Allotted d b := by
  induction h with
  | refl => exact ha
  | tail _ hchange ih => exact hv.change hchange ih

/-- At the start of a body there are only the parameters. -/
theorem opened (s : UnitState) (d : DeclaredFunction) : Allotted d (s.opened d) where
  sound := by
    have hedits := Visit.edits_build (Build.careful_appendBlock "entry") (s.start d)
    rw [UnitState.exec_entry] at hedits
    exact (FunctionBuilder.sound_start d.declaration).edits hedits
  function := ⟨_, rfl, rfl⟩
  housed := by
    intro e he
    obtain ⟨param, type, index, hparam, -, htype, heq⟩ := UnitState.mem_parameterScope he
    rw [heq]
    exact .parameter hparam htype rfl rfl rfl
  apart := by
    refine List.pairwise_of_forall_mem_list fun e he e' _ slot hstorage => ?_
    obtain ⟨_, _, _, -, -, -, heq⟩ := UnitState.mem_parameterScope he
    rw [heq] at hstorage
    cases hstorage

end Allotted

/-! ## Declarations -/

namespace Visit

variable {env : Environment} {context : FunctionContext} {v w w' : Visit} {s : BodyState}
  {location : Option Location} {decl decl' : VariableDecl Term} {source : SourceType}
  {type type' : MachineType} {initial initial' : Option Value} {slot : Nat}

/-- The slot of a variable is drawn while its declaration is lowered. -/
theorem Allots.bounds (h : w.Allots env decl slot type initial) (context : FunctionContext) :
    w.state.builder.nextTemp ≤ slot ∧ slot < (w.after env context).builder.nextTemp := by
  obtain ⟨⟨location, hnode⟩, source, s, s₁, hvalue, hslot⟩ := h
  have hspares := spares_variableValue env decl w.state
  rw [hvalue] at hspares
  obtain ⟨hdrawn, b, rfl, hadds⟩ := slot_of_ok hslot
  obtain rfl := Value.temp.inj hdrawn
  refine ⟨hspares.edits.nextTemp_le, ?_⟩
  have hlt : s.builder.nextTemp < b.nextTemp := (hadds.result _ rfl).2
  rw [after_variable hnode hvalue]
  rcases exec_bindVariable decl source type initial s with
    ⟨hfails, -⟩ | ⟨b₁, hslot₁, -, heq | ⟨b₂, hstored, heq⟩⟩
  · exact absurd (congrArg Prod.fst hslot) (hfails _)
  all_goals
    obtain rfl : b = b₁ :=
      congrArg (fun r => r.2.builder) (hslot.symm.trans hslot₁)
    rw [heq]
  · exact hlt
  · rcases hstored with ⟨rfl, -⟩ | ⟨value, -, hadds₂⟩
    · exact hlt
    · exact hlt.trans_le hadds₂.temps

/-- Inside of a declaration there are only expressions. -/
theorem Contains.eq_of_variable {statement : Statement} (h : w.Contains env context w')
    (hw : w.node = .statement (.variable location decl))
    (hw' : w'.node = .statement statement) : w = w' := by
  rcases h.cases_head with rfl | ⟨u, hu, hrest⟩
  · rfl
  · obtain ⟨node, s⟩ := w
    obtain rfl : node = .statement (.variable location decl) := hw
    obtain ⟨initializer, -, hnode⟩ := node_of_mem_partsOfVariable hu
    have hexpr : w'.IsExpression := Contains.isExpression hrest (isExpression_of_node hnode)
    rw [IsExpression, hw'] at hexpr
    exact hexpr.elim

/-- A slot belongs to one declaration, each time that it is lowered. -/
theorem Allots.eq (h : w.Allots env decl slot type initial)
    (h' : w'.Allots env decl' slot type' initial') (hw : v.Contains env context w)
    (hw' : v.Contains env context w') : w = w' := by
  obtain ⟨⟨location, hnode⟩, -⟩ := id h
  obtain ⟨⟨location', hnode'⟩, -⟩ := id h'
  have hbounds := h.bounds context
  have hbounds' := h'.bounds context
  rcases apart (S := fun a b => a.builder.nextTemp ≤ b.builder.nextTemp) course_changes
    (fun _ _ _ => Nat.le_trans) (fun _ => Nat.le_refl _) hw hw'
    (fun u _ => rel_changes (fun _ => Nat.le_refl _) (fun _ _ _ => Nat.le_trans)
      fun _ _ hchange => hchange.edits.nextTemp_le) with hin | hin | hbefore | hbefore
  · exact hin.eq_of_variable hnode hnode'
  · exact (hin.eq_of_variable hnode' hnode).symm
  · omega
  · omega

end Visit

/-! ## Bodies -/

namespace Program

open UnitState

variable {p : Program} {options : LoweringOptions} {log : DiagnosticLog} {s : UnitState}
  {d : DeclaredFunction} {body : Statement}

/-- Stack slots are never shared, whatever fails in a body. In all of its states the slots come
first in the entry block, every name has a slot of its type or is a parameter, and no two names
have the same slot. Nor do two declarations, even if they are for the same name or are one
declaration that is lowered twice. A declaration that fails leaves the slots and the names alone,
but for the marks of the names that it reads. -/
theorem slots_unshared (h : p.Turn options log s d body) :
    (∀ w a t, (s.bodyVisit d body).Contains (s.environment d) (context d) w →
      w.GoesOn (s.environment d) (context d) a → w.Changes (s.environment d) a t →
      (∃ f, t.builder.function = some f ∧ f.params = d.declaration.params ∧ f.SlotsFirst) ∧
      (∀ e ∈ t.scope.entries, Housed d t.builder.allocas e.2) ∧ SlotsApart t.scope.entries) ∧
    (∀ w w' decl decl' slot type type' initial initial',
      (s.bodyVisit d body).Contains (s.environment d) (context d) w →
      (s.bodyVisit d body).Contains (s.environment d) (context d) w' →
      w.Allots (s.environment d) decl slot type initial →
      w'.Allots (s.environment d) decl' slot type' initial' → w = w') ∧
    ∀ w location decl e t, (s.bodyVisit d body).Contains (s.environment d) (context d) w →
      w.node = .statement (.variable location decl) →
      exec (lowerStatement (s.environment d) (context d) (.variable location decl)) w.state =
        (.error e, t) →
      t.builder.allocas = w.state.builder.allocas ∧
        t.scope.unmarked = w.state.scope.unmarked := by
  have henv := h.sound.rooted.environment d
  have hchanges := @Allotted.changes d (s.environment d)
  have hstart : Allotted d (s.bodyVisit d body).state := .opened s d
  refine ⟨fun w a t hw hgoes hat => ?_, fun w w' _ _ _ _ _ _ _ hw hw' halloc halloc' =>
    halloc.eq halloc' hw hw', fun w location decl e t hw hnode herror => ?_⟩
  · have hstate := Visit.keeps_within Visit.course_changes hchanges hw hstart
    have ht := hchanges w hstate a t hat (hgoes.keeps Visit.course_changes hchanges hstate)
    obtain ⟨f, hf, hparams⟩ := ht.function
    exact ⟨⟨f, hf, hparams, (ht.sound.2 f hf).slotsFirst⟩, ht.housed, ht.apart⟩
  · have hready : (s.bodyVisit d body).Ready := steady_opened
    obtain ⟨e', hvalue⟩ := (hready.contains henv hw).exec_variable henv hnode herror
    have hspares := Visit.spares_variableValue (s.environment d) decl w.state
    rw [hvalue] at hspares
    have hstate := Visit.keeps_within Visit.course_changes hchanges hw hstart
    exact ⟨hspares.allocas hstate.sound, hspares.unmarked⟩

/-- A variable that starts as true. -/
def flag : VariableDecl Term :=
  ⟨"flag", .named "bool", true, some (.literal none (.bool true)), none⟩

/-- Another one of the same name, which starts with the value of the first. -/
def copied : VariableDecl Term := ⟨"flag", .named "bool", true, some (.variable none "flag"), none⟩

/-- A variable whose initializer fails. -/
def lost : VariableDecl Term := ⟨"lost", .named "bool", true, some (.variable none "nothing"), none⟩

/-- A function that declares all three of them. -/
def redeclares : FunctionDecl Statement where
  name := "redeclares"
  params := []
  returnType := .named "void"
  body := some (.block none [.variable none flag, .variable none copied, .variable none lost])
  owner := none
  location := none

theorem slots_unshared_redeclares : ∃ s d body w w' u,
    Turn ⟨[.function redeclares]⟩ .standard .empty s d body ∧
    (s.bodyVisit d body).Contains (s.environment d) (context d) w ∧
    w.Allots (s.environment d) flag 0 .bool (some (.bool true)) ∧
    (s.bodyVisit d body).Contains (s.environment d) (context d) w' ∧
    w'.Allots (s.environment d) copied 2 .bool (some (.temp 1)) ∧
    (∀ v decl type initial, (s.bodyVisit d body).Contains (s.environment d) (context d) v →
      v.Allots (s.environment d) decl 0 type initial → w = v) ∧
    (s.bodyVisit d body).Contains (s.environment d) (context d) u ∧
    u.state.builder.allocas = [.alloca 0 .bool, .alloca 2 .bool] ∧
    SlotsApart u.state.scope.entries ∧
    ∃ e t, exec (lowerStatement (s.environment d) (context d) (.variable none lost)) u.state =
      (.error e, t) ∧ t.builder.allocas = [.alloca 0 .bool, .alloca 2 .bool] := by
  obtain ⟨s, d, body, hturn, w, w', u, hw, halloc, hw', halloc', hu, hnode, hallocas,
      e, t, herror⟩ :
      ∃ s d body, ∃ _ : Turn ⟨[.function redeclares]⟩ .standard .empty s d body, ∃ w w' u,
      (s.bodyVisit d body).Contains (s.environment d) (context d) w ∧
      w.Allots (s.environment d) flag 0 .bool (some (.bool true)) ∧
      (s.bodyVisit d body).Contains (s.environment d) (context d) w' ∧
      w'.Allots (s.environment d) copied 2 .bool (some (.temp 1)) ∧
      (s.bodyVisit d body).Contains (s.environment d) (context d) u ∧
      u.node = .statement (.variable none lost) ∧
      u.state.builder.allocas = [.alloca 0 .bool, .alloca 2 .bool] ∧
      ∃ e t, exec (lowerStatement (s.environment d) (context d) (.variable none lost)) u.state =
        (.error e, t) :=
    ⟨_, _, _, ⟨rfl, [], [], rfl, rfl⟩, _, _, _, .single (List.mem_cons_self ..),
      ⟨⟨none, rfl⟩, _, _, _, rfl, rfl⟩,
      .tail (.single (List.mem_cons_of_mem _ (List.mem_cons_self ..))) (List.mem_cons_self ..),
      ⟨⟨none, rfl⟩, _, _, _, rfl, rfl⟩,
      .tail (.tail (.single (List.mem_cons_of_mem _ (List.mem_cons_self ..)))
        (List.mem_cons_of_mem _ (List.mem_cons_self ..))) (List.mem_cons_self ..),
      rfl, rfl, _, _, rfl⟩
  obtain ⟨hstates, hslots, hfails⟩ := slots_unshared hturn
  refine ⟨s, d, body, w, w', u, hturn, hw, halloc, hw', halloc',
    fun v decl type initial hv hvalloc => hslots w v _ _ _ _ _ _ _ hw hv halloc hvalloc, hu,
    hallocas, (hstates u _ _ hu .start .refl).2.2, e, t, herror, ?_⟩
  rw [(hfails u _ _ _ _ hu hnode herror).1, hallocas]

end Program

end SsaLowering
