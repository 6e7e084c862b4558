import SsaLowering.Proofs.Storage

/-!
# Immutable storage

The slot of an immutable variable is written once at most, when the variable gets its first value:
from then on it is sealed, because only names that are immutable lead there. What a whole body
stores is known from that, and so is what every function of a module stores.
-/

namespace SsaLowering

open Lower BodyState

namespace Frame

variable {F : Frame} {s s' : BodyState} {i : Instr} {ptr root : Value}

/-- A slot that is not written any more: the names that it has are immutable. -/
structure Sealed (t : Nat) (writes : List Instr) (s : BodyState) : Prop where
  slot : ∃ type, .alloca t type ∈ s.instrs
  names : ∀ entry ∈ s.scope.entries, entry.2.storage = .stack (.temp t) →
    entry.2.isMutable = false
  writes : (writesTo s.instrs (.temp t)).Subperm writes

namespace Sealed

variable {t : Nat} {writes : List Instr} {w : Visit} {location : Option Location}
  {decl : VariableDecl Term} {source : SourceType} {type : MachineType} {initial : Option Value}
  {b b' : FunctionBuilder}

/-- No way to a place that may be written begins there. -/
theorem not_origin (hs : Sealed t writes s) (h : F.Orderly s) :
    ¬ s.Origin F.env true (.temp t) := by
  obtain ⟨type, hslot⟩ := hs.slot
  intro ho
  generalize hw : true = writable at ho
  generalize hroot : Value.temp t = root at ho
  cases ho with
  | @named bound address hb ha =>
    subst hroot
    obtain ⟨name, hb | hb⟩ := hb
    · have hstorage : bound.storage = .stack (.temp t) := by
        cases hstorage : bound.storage with
        | stack slot => rw [hstorage] at ha; cases ha; rfl
        | global name => rw [hstorage] at ha; cases ha
        | direct value => rw [hstorage] at ha; cases ha
      rw [hs.names _ hb hstorage] at hw
      cases hw
    · obtain ⟨decl, -, hkey⟩ := F.named _ hb
      simp only [UnitState.declaredKey, UnitState.globalKey, Prod.mk.injEq] at hkey
      rw [← hkey.2.1] at ha
      cases ha
  | parameter hb hvalue =>
    obtain ⟨index, param, hparam, rfl, -⟩ := h.direct_cases hb hvalue
    obtain rfl := Value.temp.inj hroot
    exact absurd (h.results _ hslot t rfl).1
      (Nat.not_le.mpr (List.getElem?_eq_some_iff.mp hparam).1)
  | loaded hi =>
    obtain rfl := Value.temp.inj hroot
    cases h.once _ hslot _ hi t rfl rfl
  | extracted hi =>
    obtain rfl := Value.temp.inj hroot
    cases h.once _ hslot _ hi t rfl rfl

/-- An instruction that is no store back to the slot makes no difference. -/
theorem add (hs : Sealed t writes s) (h : F.Orderly s) {b : FunctionBuilder}
    (hadds : s.builder.Adds i b)
    (hnew : ∀ ptr, i.target? = some ptr → ¬ GoesBack b.instrs ptr (.temp t)) :
    Sealed t writes { s with builder := b } where
  slot := by
    obtain ⟨type, hslot⟩ := hs.slot
    exact ⟨type, hadds.instrs.mem_iff.mpr (List.mem_cons_of_mem i hslot)⟩
  names := hs.names
  writes := (perm_writesTo hadds.instrs (fun r hr => (hadds.result r hr).1) h.places
    hnew).subperm_right.mpr hs.writes

theorem step (hs : Sealed t writes s) (h : F.Orderly s) (hstep : s.Step F.env s') :
    Sealed t writes s' := by
  cases hstep with
  | report => exact ⟨hs.slot, hs.names, hs.writes⟩
  | use name =>
    refine ⟨hs.slot, fun entry hentry hstorage => ?_, hs.writes⟩
    obtain ⟨old, hold, rfl⟩ := List.mem_map.mp hentry
    dsimp only at hstorage ⊢
    split at hstorage
    · next hname => rw [if_pos hname]; exact hs.names old hold hstorage
    · next hname => rw [if_neg hname]; exact hs.names old hold hstorage
  | @turn b hinstrs =>
    have hinstrs : BodyState.instrs { s with builder := b } = s.instrs := hinstrs
    exact ⟨hinstrs ▸ hs.slot, hs.names, hinstrs ▸ hs.writes⟩
  | @add b i hadds hallows =>
    refine hs.add h hadds fun ptr htarget hback => ?_
    cases i with
    | store value ptr' type =>
      cases htarget
      obtain ⟨slotType, hslot⟩ := hs.slot
      obtain ⟨origin, ho, hway⟩ := hallows
      have hfresh : ∀ r, (Instr.store value ptr type).result? = some r → s.builder.nextTemp ≤ r :=
        fun r hr => (hadds.result r hr).1
      have hback := hback.of_added hadds.instrs.subset hfresh h.places
        (h.below ⟨origin, ho, hway⟩)
      have heq := GoesBack.unique h.once hway (h.origin ho).1 hback (h.isRoot_slot hslot)
      exact hs.not_origin h (heq ▸ ho)
    | _ => cases htarget

/-- Another variable has another slot. -/
theorem declare (hs : Sealed t writes s) {slot : Nat} (hne : slot ≠ t) :
    Sealed t writes { s with
      scope := s.scope.declare decl.name
        ⟨.stack (.temp slot), source, type, decl.isMutable, false, decl.location⟩ } := by
  refine ⟨hs.slot, fun entry hentry hstorage => ?_, hs.writes⟩
  rcases List.mem_append.mp hentry with hentry | hentry
  · exact hs.names entry (List.mem_filter.mp hentry).1 hstorage
  · obtain rfl := List.mem_singleton.mp hentry
    simp only [Storage.stack.injEq, Value.temp.injEq] at hstorage
    exact absurd hstorage hne

theorem bind (hs : Sealed t writes s) (h : F.Orderly s)
    (hw : F.start.Contains F.env F.context w)
    (hnode : w.node = .statement (.variable location decl))
    (hvalue : exec (variableValue F.env decl) w.state = (.ok (source, type, initial), s)) :
    Sealed t writes (exec (bindVariable decl source type initial) s).2 := by
  obtain ⟨slotType, hslot⟩ := hs.slot
  have hne : s.builder.nextTemp ≠ t := (h.results _ hslot t rfl).2.ne'
  rcases exec_bindVariable decl source type initial s with ⟨-, heq⟩ | ⟨b, hexec, hadds, hcases⟩
  · rw [heq]
    exact ⟨hs.slot, hs.names, hs.writes⟩
  · have hdeclares : F.Declares decl s.builder.nextTemp type initial :=
      ⟨w, hw, ⟨location, hnode⟩, source, s, _, hvalue, hexec⟩
    have horder : F.Orderly { s with builder := b } := h.addSlot hdeclares hadds
    have hsealed : Sealed t writes { s with builder := b } :=
      hs.add h hadds fun ptr htarget => by cases htarget
    rcases hcases with heq | ⟨b', hstore, heq⟩
    all_goals rw [heq]
    · exact hsealed
    · rcases hstore with ⟨rfl, -⟩ | ⟨value, rfl, hstored⟩
      · exact hsealed.declare hne
      · refine (hsealed.add horder hstored ?_).declare hne
        rintro _ ⟨rfl⟩ hback
        have hmem : .alloca s.builder.nextTemp type ∈ b'.instrs :=
          hstored.instrs.mem_iff.mpr (List.mem_cons_of_mem _
            (hadds.instrs.mem_iff.mpr List.mem_cons_self))
        have hlast : F.Orderly { s with builder := b' } :=
          horder.addInitial hdeclares (hadds.instrs.mem_iff.mpr List.mem_cons_self) hstored
        exact hne (Value.temp.inj (hback.eq_of_isRoot (hlast.isRoot_slot hmem))).symm

theorem move (hs : Sealed t writes s) (h : F.Orderly s)
    (hw : F.start.Contains F.env F.context w) (hmove : w.Move F.env s s') :
    Sealed t writes s' := by
  cases hmove with
  | step hstep => exact hs.step h hstep
  | intern => exact ⟨hs.slot, hs.names, hs.writes⟩
  | bind hnode hvalue => exact hs.bind h hw hnode hvalue

/-- The only name that has a new slot is the one that is bound to it. -/
theorem names_declare (h : F.Orderly s) (hmutable : decl.isMutable = false) :
    ∀ entry ∈ (s.scope.declare decl.name ⟨.stack (.temp s.builder.nextTemp), source, type,
      decl.isMutable, false, decl.location⟩).entries,
      entry.2.storage = .stack (.temp s.builder.nextTemp) → entry.2.isMutable = false := by
  intro entry hentry hstorage
  rcases List.mem_append.mp hentry with hentry | hentry
  · exact absurd hstorage (h.storage_ne_next (List.mem_filter.mp hentry).1)
  · obtain rfl := List.mem_singleton.mp hentry
    exact hmutable

/-- A new slot is sealed if its variable is immutable. Only the first value was written to it. -/
theorem of_bind (h : F.Orderly s) (hw : F.start.Contains F.env F.context w)
    (hnode : w.node = .statement (.variable location decl))
    (hvalue : exec (variableValue F.env decl) w.state = (.ok (source, type, initial), s))
    {slot : Nat} {s₁ : BodyState}
    (halloca : exec (build (Build.entryAlloca type)) s = (.ok (.temp slot), s₁))
    (hmutable : decl.isMutable = false) :
    Sealed slot (initialStores slot type initial)
      (exec (bindVariable decl source type initial) s).2 := by
  rcases exec_bindVariable decl source type initial s with
    ⟨hnone, -⟩ | ⟨b, hexec, hadds, hcases⟩
  · exact absurd (by rw [halloca]) (hnone (.temp slot))
  · obtain ⟨hslot, -⟩ := Prod.mk.inj (halloca.symm.trans hexec)
    obtain rfl : slot = s.builder.nextTemp := Value.temp.inj (Except.ok.inj hslot)
    have hdeclares : F.Declares decl s.builder.nextTemp type initial :=
      ⟨w, hw, ⟨location, hnode⟩, source, s, _, hvalue, hexec⟩
    have horder : F.Orderly { s with builder := b } := h.addSlot hdeclares hadds
    have hmem : .alloca s.builder.nextTemp type ∈ b.instrs :=
      hadds.instrs.mem_iff.mpr List.mem_cons_self
    have hnil : (writesTo b.instrs (.temp s.builder.nextTemp)).Perm [] :=
      (perm_writesTo hadds.instrs (fun r hr => (hadds.result r hr).1) h.places
        fun ptr htarget => by cases htarget).trans (.of_eq (writesTo_eq_nil h.places (Nat.le_refl _)))
    rcases hcases with heq | ⟨b', hstore, heq⟩
    all_goals rw [heq]
    · exact ⟨⟨type, hmem⟩, fun entry hentry hstorage =>
        absurd hstorage (h.storage_ne_next hentry), hnil.subperm_right.mpr List.nil_subperm⟩
    · rcases hstore with ⟨rfl, -⟩ | ⟨value, rfl, hstored⟩
      · exact ⟨⟨type, hmem⟩, names_declare h hmutable, hnil.subperm_right.mpr List.nil_subperm⟩
      · refine ⟨⟨type, ?_⟩, names_declare h hmutable, ?_⟩
        · exact hstored.instrs.mem_iff.mpr (List.mem_cons_of_mem _ hmem)
        · have hone := perm_writesTo_cons hstored.instrs (fun r hr => (hstored.result r hr).1)
            horder.places rfl
          exact (hone.trans (hnil.cons _)).subperm

end Sealed

/-! ## The whole body -/

variable (F) in
/-- Between the two states, order is kept and so are sealed slots. -/
def Keeps (s s' : BodyState) : Prop :=
  F.Orderly s → F.Orderly s' ∧ ∀ t writes, Sealed t writes s → Sealed t writes s'

theorem Keeps.refl (s : BodyState) : F.Keeps s s := fun h => ⟨h, fun _ _ hs => hs⟩

theorem Keeps.trans (s s' s'' : BodyState) (h : F.Keeps s s') (h' : F.Keeps s' s'') :
    F.Keeps s s'' := by
  intro hs
  obtain ⟨hs', hsealed⟩ := h hs
  obtain ⟨hs'', hsealed'⟩ := h' hs'
  exact ⟨hs'', fun t writes ht => hsealed' t writes (hsealed t writes ht)⟩

section

variable {w : Visit}

theorem Keeps.move (hw : F.start.Contains F.env F.context w) (s s' : BodyState)
    (hmove : w.Move F.env s s') : F.Keeps s s' :=
  fun h => ⟨h.move hw hmove, fun _ _ hs => hs.move h hw hmove⟩

/-- Up to a visit in the body, and from there to the end of the body. -/
theorem keeps_inside (hw : F.start.Contains F.env F.context w) :
    F.Keeps F.start.state w.state ∧
      F.Keeps (w.after F.env F.context) (F.start.after F.env F.context) :=
  Visit.rel_inside Keeps.refl Keeps.trans hw fun _ hu => Keeps.move hu

theorem keeps_after (hw : F.start.Contains F.env F.context w) :
    F.Keeps w.state (w.after F.env F.context) :=
  Visit.rel_after Keeps.refl Keeps.trans w fun _ hu => Keeps.move (hw.trans hu)

/-- The value of a variable is computed before its name is bound. -/
theorem keeps_variableValue (hw : F.start.Contains F.env F.context w) {location : Option Location}
    {decl : VariableDecl Term} (hnode : w.node = .statement (.variable location decl)) :
    F.Keeps w.state (exec (variableValue F.env decl) w.state).2 := by
  have hparts : w.parts F.env F.context = Visit.partsOfVariable F.env decl w.state := by
    rw [Visit.parts, hnode]
    rfl
  have hfollows : w.Follows F.env F.context (variableValue F.env decl) w.state
      (Visit.partsOfVariable F.env decl w.state) := .variableValue decl
  have hmoves := Visit.rel_moves Keeps.refl Keeps.trans (Keeps.move hw)
  exact hfollows.rel Keeps.trans (fun a b hpasses => hmoves a b hpasses.1)
    fun u hu => keeps_after (hw.tail (hparts ▸ hu))

/-- The slot of an immutable variable is written at most once in the whole body. -/
theorem Orderly.sealed_slot (h : F.Orderly F.start.state) {decl : VariableDecl Term} {slot : Nat}
    {type : MachineType} {initial : Option Value} (hdeclares : F.Declares decl slot type initial)
    (hmutable : decl.isMutable = false) :
    Sealed slot (initialStores slot type initial) (F.start.after F.env F.context) := by
  obtain ⟨w, hw, ⟨location, hnode⟩, source, s, s₁, hvalue, halloca⟩ := hdeclares
  obtain ⟨hbefore, hafter⟩ := keeps_inside hw
  have hstart : F.Orderly w.state := (hbefore h).1
  have hs : F.Orderly s := by
    have hkeeps := keeps_variableValue hw hnode
    rw [hvalue] at hkeeps
    exact (hkeeps hstart).1
  have hend : w.after F.env F.context = (exec (bindVariable decl source type initial) s).2 := by
    rw [Visit.after, hnode]
    show (exec (located location (lowerVariableDecl F.env decl)) w.state).2 = _
    rw [snd_exec_located, lowerVariableDecl, exec_bind_of_ok hvalue]
  have hsealed := Sealed.of_bind hs hw hnode hvalue halloca hmutable
  exact (hafter (keeps_after hw hstart).1).2 slot _ (hend ▸ hsealed)

end

variable (F) in
/-- Instructions of the body store only where they may. -/
structure Guards (code : List Instr) : Prop where
  /-- There is one way back from a place. -/
  once : DefinesOnce code
  /-- Every store goes back to one root, and it may write there. -/
  stores : ∀ i ∈ code, ∀ ptr, i.target? = some ptr → ∃ root, GoesBack code ptr root ∧
    IsRoot code root ∧ F.MayWrite code i root ∧
    ∀ root', GoesBack code ptr root' → IsRoot code root' → root' = root
  /-- Stack slots are those of variables that are declared in the body. -/
  slots : ∀ t type, .alloca t type ∈ code → ∃ decl initial, F.Declares decl t type initial
  /-- The slot of an immutable variable is written by its first value or not at all. -/
  immutable : ∀ decl slot type initial, F.Declares decl slot type initial →
    decl.isMutable = false → (writesTo code (.temp slot)).Subperm (initialStores slot type initial) ∧
      (writesTo code (.temp slot)).length ≤ 1
  /-- Global variables that are written are mutable. -/
  globals : ∀ i ∈ code, ∀ ptr name, i.target? = some ptr → GoesBack code ptr (.global name) →
    ∃ decl ∈ F.globals, decl.name = name ∧ decl.isMutable = true
  /-- A store that goes back to a parameter follows a pointer. -/
  parameters : ∀ i ∈ code, ∀ ptr index param, i.target? = some ptr →
    GoesBack code ptr (.temp index) → F.params[index]? = some param → param.type.isPointer = true

theorem length_initialStores_le (slot : Nat) (type : MachineType) (initial : Option Value) :
    (initialStores slot type initial).length ≤ 1 := by
  cases initial <;> simp [initialStores]

theorem Orderly.guards (h : F.Orderly s)
    (hsealed : ∀ decl slot type initial, F.Declares decl slot type initial →
      decl.isMutable = false → Sealed slot (initialStores slot type initial) s) :
    F.Guards s.instrs where
  once := h.once
  stores := by
    intro i hi ptr htarget
    obtain ⟨root, hback, hroot, hwrite⟩ := h.stores i hi ptr htarget
    exact ⟨root, hback, hroot, hwrite, fun root' hback' hroot' =>
      hback.unique h.once hroot hback' hroot'⟩
  slots := h.slots
  immutable := by
    intro decl slot type initial hdeclares hmutable
    have hwrites := (hsealed decl slot type initial hdeclares hmutable).writes
    exact ⟨hwrites, hwrites.length_le.trans (length_initialStores_le slot type initial)⟩
  globals := by
    intro i hi ptr name htarget hback
    obtain ⟨root, hback', hroot, hwrite⟩ := h.stores i hi ptr htarget
    have heq := hback'.unique h.once hroot hback fun _ _ _ _ _ => by simp
    rw [← heq] at hwrite
    cases hwrite with
    | global hdecl hmutable => exact ⟨_, hdecl, rfl, hmutable⟩
  parameters := by
    intro i hi ptr index param htarget hback hparam
    have hlt : index < F.params.length := (List.getElem?_eq_some_iff.mp hparam).1
    have hnew {j : Instr} (hj : j ∈ s.instrs) (hresult : j.result? = some index) : False :=
      absurd (h.results j hj index hresult).1 (Nat.not_le.mpr hlt)
    obtain ⟨root, hback', hroot, hwrite⟩ := h.stores i hi ptr htarget
    have hindex : IsRoot s.instrs (.temp index) := by
      rintro t base outer indices hj heq
      obtain rfl : index = t := Value.temp.inj heq
      exact hnew hj rfl
    have heq := hback'.unique h.once hroot hback hindex
    rw [← heq] at hwrite
    cases hwrite with
    | slot _ hslot => exact (hnew hslot rfl).elim
    | parameter hparam' hpointer =>
      obtain rfl := Option.some.inj (hparam.symm.trans hparam')
      exact hpointer
    | loaded hj => exact (hnew hj rfl).elim
    | extracted hj => exact (hnew hj rfl).elim

end Frame

namespace Program

open UnitState

variable {p : Program} {options : LoweringOptions} {log : DiagnosticLog} {s : UnitState}
  {d : DeclaredFunction} {body : Statement}

/-- The body of a function, in the unit in which it is lowered. -/
def Turn.frame (h : p.Turn options log s d body) : Frame where
  env := s.environment d
  context := context d
  start := s.bodyVisit d body
  params := d.decl.params
  globals := p.acceptedGlobals options.moduleName log
  named := fun _ hentry => h.exists_accepted hentry

/-- The parameters come first among the temporaries. -/
theorem Turn.length_params_le (h : p.Turn options log s d body) :
    d.decl.params.length ≤ FunctionBuilder.firstTemp d.declaration := by
  obtain ⟨-, hknows⟩ := h.regular fun hfalse : False => hfalse.elim
  have hlength : d.signature.paramTypes.length = d.decl.params.length := by
    simp [hknows.signature, Signature.ofSource]
  refine Nat.le_of_not_lt fun hlt => ?_
  refine absurd (FunctionBuilder.lt_firstTemp (t := FunctionBuilder.firstTemp d.declaration) ?_)
    (Nat.lt_irrefl _)
  rwa [DeclaredFunction.parameters_declaration, List.mem_range, hlength]

/-- Before the body there are only parameters. -/
theorem Turn.orderly_start (h : p.Turn options log s d body) :
    h.frame.Orderly h.frame.start.state := by
  have hnone {i : Instr} (hi : i ∈ (s.opened d).instrs) : False := List.not_mem_nil hi
  exact {
    params_le := h.length_params_le
    results := fun i hi => (hnone hi).elim
    once := fun i hi => (hnone hi).elim
    places := fun i hi => (hnone hi).elim
    locals := by
      intro entry hentry
      obtain ⟨param, type, index, hparam, -, -, heq⟩ := mem_parameterScope hentry
      rw [heq]
      exact .parameter hparam rfl rfl
    slots := fun t type hi => (hnone hi).elim
    stores := fun i hi => (hnone hi).elim }

/-- Finishing the function that is left of a body is one step more. -/
theorem Turn.exists_finalize (h : p.Turn options log s d body) :
    ∃ f s', (s.lowerBody d body).builder.function = some f ∧ f.name = d.decl.name ∧
      s'.instrs = f.finalize.instrs ∧ (s.lowerBody d body).Step (s.environment d) s' := by
  obtain ⟨f, avail, sources, hf, ⟨blocks, hsignature⟩, hdraft⟩ :=
    exists_draft_lowerBody (h.sound.rooted.environment d) body
  have hinstrs : (s.lowerBody d body).builder.instrs = f.instrs := by
    rw [FunctionBuilder.instrs, hf]
    rfl
  have hadds {i : Instr} (hresult : i.result? = none) (heq : f.finalize.instrs = f.instrs ++ [i]) :
      (s.lowerBody d body).builder.Adds i
        { (s.lowerBody d body).builder with function := some f.finalize } := by
    refine ⟨?_, Nat.le_refl _, by simp [hresult]⟩
    rw [hinstrs]
    exact (List.Perm.of_eq heq).trans (List.perm_append_singleton _ _)
  refine ⟨f, { s.lowerBody d body with
    builder := { (s.lowerBody d body).builder with function := some f.finalize } }, hf,
    by rw [hsignature]; rfl, rfl, ?_⟩
  rcases hdraft.instrs_finalize with heq | heq | heq
  · exact .turn (heq.trans hinstrs.symm) (Nat.le_refl _)
  · exact .add (hadds rfl heq) trivial
  · exact .add (hadds rfl heq) trivial

theorem Turn.guards (h : p.Turn options log s d body) :
    ∃ f, (s.lowerBody d body).builder.function = some f ∧ f.name = d.decl.name ∧
      h.frame.Guards f.finalize.instrs := by
  obtain ⟨f, s', hf, hname, hinstrs, hstep⟩ := h.exists_finalize
  have hafter : h.frame.start.after h.frame.env h.frame.context = s.lowerBody d body :=
    after_bodyVisit (h.sound.rooted.environment d) body
  have hstart := h.orderly_start
  have hlast : h.frame.Orderly (s.lowerBody d body) := hafter ▸ (Frame.keeps_after .refl hstart).1
  refine ⟨f, hf, hname, hinstrs ▸ (hlast.step hstep).guards ?_⟩
  intro decl slot type initial hdeclares hmutable
  have hsealed := hstart.sealed_slot hdeclares hmutable
  exact (hafter ▸ hsealed).step hlast hstep

/-- Immutable variables are not written after they got their first value, immutable global
variables are never written, and neither are parameters, but for what they point to. This holds for
what is left of a body, whatever failed in it and whether it is kept or not, and for every function
of the module. -/
theorem immutable_storage (p : Program) (options : LoweringOptions) (log : DiagnosticLog) :
    (∀ s d body (h : p.Turn options log s d body),
      ∃ f, (s.lowerBody d body).builder.function = some f ∧ h.frame.Guards f.finalize.instrs) ∧
    (∀ f ∈ (p.generate options log).1.functions, f.instrs = [] ∨
      ∃ s d body, ∃ h : p.Turn options log s d body, f.name = d.decl.name ∧
        h.frame.Guards f.instrs) ∧
    ((p.acceptedGlobals options.moduleName log).map (·.name)).Nodup := by
  refine ⟨fun s d body h => ?_, fun f hf => ?_, p.nodup_acceptedGlobals _ log⟩
  · obtain ⟨f, hf, -, hguards⟩ := h.guards
    exact ⟨f, hf, hguards⟩
  · rcases eq_finalize_of_mem_generate hf with hblocks | ⟨s, d, body, g, h, hg, rfl⟩
    · exact .inl (by simp [FunctionDef.instrs, hblocks])
    · obtain ⟨f, hf, hname, hguards⟩ := h.guards
      obtain rfl := Option.some.inj (hg.symm.trans hf)
      exact .inr ⟨s, d, body, h, hname, hguards⟩

/-- An immutable variable. -/
def done : VariableDecl Term := ⟨"done", .named "bool", false, some (.literal none (.bool true)), none⟩

/-- A function that tries to assign to it. -/
def undoes : FunctionDecl Statement where
  name := "undoes"
  params := []
  returnType := .named "void"
  body := some (.block none [.variable none done, .expression none
    (.assign none (.variable none "done") (.literal none (.bool false)))])
  owner := none
  location := none

theorem immutable_storage_undoes : ∃ s d body,
    ∃ h : Turn ⟨[.function undoes]⟩ .standard .empty s d body, ∃ f,
      (s.lowerBody d body).builder.function = some f ∧
      h.frame.Declares done 0 .bool (some (.bool true)) ∧
      .store (.bool true) (.temp 0) .bool ∈ f.finalize.instrs ∧
      (writesTo f.finalize.instrs (.temp 0)).length ≤ 1 := by
  have hturn : Turn ⟨[.function undoes]⟩ .standard .empty
      (declare ⟨[.function undoes]⟩ "main" .empty).1
      ⟨undoes, .ofSource .empty [] (.named "void") false none⟩
      (.block none [.variable none done, .expression none
        (.assign none (.variable none "done") (.literal none (.bool false)))]) :=
    ⟨rfl, [], [], rfl, rfl⟩
  obtain ⟨f, hf, hguards⟩ := (immutable_storage _ _ _).1 _ _ _ hturn
  have hdeclares : hturn.frame.Declares done 0 .bool (some (.bool true)) := by
    refine ⟨⟨.statement (.variable none done), hturn.frame.start.state⟩, ?_, ⟨none, rfl⟩,
      .named "bool", hturn.frame.start.state, _, rfl, rfl⟩
    exact .single (List.mem_cons_self ..)
  refine ⟨_, _, _, hturn, f, hf, hdeclares, ?_, (hguards.immutable _ _ _ _ hdeclares rfl).2⟩
  have hstore := congrArg (fun g : Option FunctionDef => g.any fun g =>
    decide (.store (.bool true) (.temp 0) .bool ∈ g.finalize.instrs)) hf
  exact of_decide_eq_true (hstore.symm.trans (by decide +kernel))

end Program

end SsaLowering
