import SsaLowering.Lowering.Statement
import SsaLowering.Proofs.Action
import SsaLowering.Proofs.Building

/-!
# Steady states of the lowering

In a steady state the builder is at the front of its function, and every name in scope lives
where it can be read. Each action that writes code leads from a steady state to a steady
state, and the code it writes is known.
-/

namespace SsaLowering

/-- The temporaries that a place names. -/
def Storage.temps : Storage → Set Nat
  | .stack slot => slot.temps
  | .global _ => ∅
  | .direct value => value.temps

namespace DiagnosticLog

@[simp] theorem count_report (log : DiagnosticLog) (d : Diagnostic) (s : Severity) :
    (log.report d).count s = log.count s + if d.severity = s then 1 else 0 :=
  s.countIn_concat log.entries d

end DiagnosticLog

namespace BodyState

variable {s s' s'' : BodyState} {x y : List Item}

/-- The current block is not terminated. -/
def StandsOpen (s : BodyState) : Prop := s.builder.isTerminated = false

/-- The builder is at the front, and every name in scope can be read everywhere. -/
structure Steady (s : BodyState) : Prop where
  front : ∃ f done last, s.builder.Front f done last
  scope : ∀ entry ∈ s.scope.entries, entry.2.storage.temps ⊆ s.builder.base

/-- The state is steady, and comes from the other one by writing some lines. -/
structure Writes (s s' : BodyState) (lines : List Item) : Prop where
  steady : s'.Steady
  builder : s.builder.Grows s'.builder lines
  errors : s.log.count .error ≤ s'.log.count .error

namespace Writes

theorem refl (h : s.Steady) : s.Writes s [] := ⟨h, .refl _, Nat.le_refl _⟩

theorem trans (h : s.Writes s' x) (h' : s'.Writes s'' y) : s.Writes s'' (x ++ y) where
  steady := h'.steady
  builder := h.builder.trans h'.builder
  errors := Nat.le_trans h.errors h'.errors

end Writes

namespace Steady

theorem label_lt (h : s.Steady) {l : Nat} (hl : .label l ∈ s.builder.listing) :
    l < s.builder.nextLabel := by
  obtain ⟨f, done, last, hf⟩ := h.front
  rw [hf.listing_eq] at hl
  apply hf.labels_lt
  rw [← f.filterMap_label?_listing]
  exact List.mem_filterMap.mpr ⟨_, hl, rfl⟩

theorem here_lt (h : s.Steady) : s.builder.here < s.builder.nextLabel := by
  obtain ⟨f, done, last, hf⟩ := h.front
  rw [hf.here_eq]
  exact hf.labels_lt _ hf.last_label_mem

/-- A state with another builder at the front is steady if what can be read stays so. -/
theorem withBuilder (h : s.Steady) {b : FunctionBuilder} {f : FunctionDef} {done : List Block}
    {last : Block} (hf : b.Front f done last) {lines : List Item}
    (hgrows : s.builder.Grows b lines) : s.Writes { s with builder := b } lines where
  steady := ⟨⟨f, done, last, hf⟩, fun entry he => (h.scope entry he).trans hgrows.base⟩
  builder := hgrows
  errors := Nat.le_refl _

end Steady

end BodyState

namespace BodyState

variable {s s' : BodyState}

/-- A label was drawn, but there is no block under it. -/
def Unused (s : BodyState) (l : Nat) : Prop :=
  .label l ∉ s.builder.listing ∧ l < s.builder.nextLabel

theorem Unused.writes {lines : List Item} {l : Nat} (hl : s.Unused l) (h : s.Writes s' lines)
    (hnot : .label l ∉ lines) : s'.Unused l := by
  refine ⟨?_, Nat.lt_of_lt_of_le hl.2 h.builder.labels⟩
  rw [h.builder.listing, List.mem_append, not_or]
  exact ⟨hl.1, hnot⟩

/-- The state after some labels were drawn. -/
def draw (s : BodyState) (count : Nat) : BodyState :=
  { s with builder := { s.builder with nextLabel := s.builder.nextLabel + count } }

@[simp] theorem standsOpen_draw (count : Nat) : (s.draw count).StandsOpen ↔ s.StandsOpen := Iff.rfl

/-- Drawing labels changes nothing else. -/
theorem Steady.draw (h : s.Steady) (count : Nat) : s.Writes (s.draw count) [] := by
  obtain ⟨f, done, last, hf⟩ := h.front
  have hgrows := FunctionBuilder.Grows.refl s.builder
  exact h.withBuilder (hf.draw (Nat.le_refl _) (Nat.le_add_right _ count))
    ⟨hgrows.listing, hgrows.signature, hgrows.base, Nat.le_add_right _ _⟩

/-- The labels that were drawn are unused. -/
theorem Steady.unused_draw (h : s.Steady) {l count : Nat} (hl : s.builder.nextLabel ≤ l)
    (hlt : l < s.builder.nextLabel + count) : (s.draw count).Unused l :=
  ⟨fun hmem => Nat.lt_irrefl _ (Nat.lt_of_le_of_lt hl (h.label_lt hmem)), hlt⟩

end BodyState

/-- What an action has done that wrote some lines and ended in the given block, with the
given next label. -/
structure Lower.Reaches {α : Type} (action : Lower α) (s : BodyState) (a : α) (s' : BodyState)
    (lines : List Item) (label next : Nat) : Prop where
  exec : exec action s = (.ok a, s')
  writes : s.Writes s' lines
  base : s'.builder.base = s.builder.base
  here : s'.builder.here = label
  next : s'.builder.nextLabel = next

namespace Lower

open BodyState

variable {α β : Type} {s s' s'' : BodyState}

theorem Reaches.bind {x : Lower α} {f : α → Lower β} {a : α} {b : β} {lines lines' : List Item}
    {label label' next next' : Nat} (hx : Reaches x s a s' lines label next)
    (hf : Reaches (f a) s' b s'' lines' label' next') :
    Reaches (x >>= f) s b s'' (lines ++ lines') label' next' where
  exec := (exec_bind_of_ok hx.exec).trans hf.exec
  writes := hx.writes.trans hf.writes
  base := hf.base.trans hx.base
  here := hf.here
  next := hf.next

theorem Reaches.returning {x : Lower α} {a : α} {lines : List Item} {label next : Nat}
    (h : Reaches x s a s' lines label next) (b : β) :
    Reaches (x >>= fun _ => pure b) s b s' lines label next where
  exec := exec_bind_of_ok h.exec
  writes := h.writes
  base := h.base
  here := h.here
  next := h.next

theorem Reaches.unused {x : Lower α} {a : α} {lines : List Item} {label next l : Nat}
    (h : Reaches x s a s' lines label next) (hl : s.Unused l) (hnot : .label l ∉ lines) :
    s'.Unused l := hl.writes h.writes hnot

/-- An action that begins by drawing labels. -/
theorem Reaches.of_draw {x y : Lower α} {a : α} {lines : List Item} {label next count : Nat}
    (h : Reaches x (s.draw count) a s' lines label next) (hs : s.Steady)
    (hexec : SsaLowering.exec y s = SsaLowering.exec x (s.draw count)) :
    Reaches y s a s' lines label next where
  exec := hexec.trans h.exec
  writes := (hs.draw count).trans h.writes
  base := h.base
  here := h.here
  next := h.next

/-- An instruction without a result is written into an open block. -/
theorem reaches_emit (h : s.Steady) (ho : s.StandsOpen) {i : Instr} (hi : i.isAlloca = false)
    (hr : i.result? = none) : ∃ s', Reaches (build (Build.emit i)) s () s' [.instr i]
      s.builder.here s.builder.nextLabel ∧ s'.builder.isTerminated = i.isTerminator := by
  obtain ⟨f, done, last, hf⟩ := h.front
  rw [StandsOpen, hf.isTerminated_eq] at ho
  have hpush := hf.push hi (by simp [hr])
  refine ⟨_, ⟨exec_build_of_ok (Build.exec_emit hf ho i),
    h.withBuilder hpush (hf.grows_push hi), ?_, ?_, rfl⟩, ?_⟩
  · ext t
    rw [hpush.mem_base, hf.mem_base, FunctionBuilder.Front.slots_push hf.blocks hi]
    rfl
  · rw [hpush.here_eq, hf.here_eq, Block.label_push]
  · rw [hpush.isTerminated_eq, Block.isTerminated_push]

/-- An instruction in a terminated block is refused, and changes nothing. -/
theorem exec_emit_of_closed (h : s.Steady) (ho : ¬ s.StandsOpen) (i : Instr) :
    ∃ l, exec (build (Build.emit i)) s =
      (.error (.unplaced (.internal (BuildFault.terminatedBlock l).message)), s) := by
  obtain ⟨f, done, last, hf⟩ := h.front
  have hclosed : last.isTerminated = true := by
    simpa [StandsOpen, hf.isTerminated_eq] using ho
  have hexec : exec (Build.emit i) s.builder =
      (.error (.terminatedBlock last.label), s.builder) := by
    simp [Build.emit, exec_bind, Build.exec_function hf.function, hf.current, hf.block?_last,
      hclosed]
  rw [exec_build, hexec]
  exact ⟨_, rfl⟩

/-- An instruction with a result is written into an open block, under a new temporary. -/
theorem reaches_define (h : s.Steady) (ho : s.StandsOpen) {instr : Nat → Instr}
    (hi : ∀ t, (instr t).isAlloca = false) (hterm : ∀ t, (instr t).isTerminator = false)
    (hr : ∀ t, (instr t).result? = some t) :
    ∃ t s', Reaches (build (Build.define instr)) s (.temp t) s' [.instr (instr t)]
      s.builder.here s.builder.nextLabel ∧ s'.StandsOpen := by
  obtain ⟨f, done, last, hf⟩ := h.front
  rw [StandsOpen, hf.isTerminated_eq] at ho
  let t := s.builder.nextTemp
  have hdraw := hf.draw (Nat.le_succ t) (Nat.le_refl s.builder.nextLabel)
  have hfresh : ∀ u, (instr t).result? = some u → u ∉ f.definitions ∧ u < t + 1 := by
    intro u hu
    rw [hr] at hu
    obtain rfl := Option.some.inj hu
    exact ⟨fun hmem => Nat.lt_irrefl _ (hf.definitions_lt _ hmem), Nat.lt_succ_self _⟩
  have hpush := hdraw.push (hi t) hfresh
  have hexec : exec (Build.define instr) s.builder = (.ok (.temp t),
      FunctionBuilder.Front.pushed { s.builder with nextTemp := t + 1 } f done last (instr t)) := by
    simp only [Build.define, Build.newTemp, exec_bind, exec_get, exec_set,
      exec_pure]
    rw [Build.exec_emit hdraw ho]
  have hgrows : s.builder.Grows (FunctionBuilder.Front.pushed
      { s.builder with nextTemp := t + 1 } f done last (instr t)) [.instr (instr t)] := by
    have hg := hf.grows_push (hi t)
    exact ⟨hg.listing, hg.signature, hg.base, hg.labels⟩
  refine ⟨t, _, ⟨exec_build_of_ok hexec, h.withBuilder hpush hgrows, ?_, ?_, rfl⟩, ?_⟩
  · ext u
    rw [hpush.mem_base, hf.mem_base, FunctionBuilder.Front.slots_push hf.blocks (hi t)]
    rfl
  · rw [hpush.here_eq, hf.here_eq, Block.label_push]
  · rw [StandsOpen, hpush.isTerminated_eq, Block.isTerminated_push, hterm]

theorem reaches_phi (h : s.Steady) (ho : s.StandsOpen) (incoming : List (Value × Nat))
    (type : MachineType) : ∃ t s', Reaches (build (Build.phi incoming type)) s (.temp t) s'
      [.instr (.phi t incoming type)] s.builder.here s.builder.nextLabel ∧ s'.StandsOpen :=
  reaches_define h ho (fun _ => rfl) (fun _ => rfl) fun _ => rfl

/-- A block with a drawn label that is not in use is opened at the end. -/
theorem reaches_createBlock (h : s.Steady) {l : Nat} (hl : s.Unused l) (hint : String) : ∃ s',
    Reaches (build (Build.createBlock l hint)) s () s' [.label l] l s.builder.nextLabel ∧
      s'.StandsOpen := by
  obtain ⟨f, done, last, hf⟩ := h.front
  obtain ⟨hl, hlt⟩ := hl
  have hnot : l ∉ f.labels := by
    rw [hf.listing_eq] at hl
    rw [← f.filterMap_label?_listing, List.mem_filterMap]
    rintro ⟨item, hmem, hitem⟩
    cases item with
    | label l' =>
      obtain rfl := Option.some.inj hitem
      exact hl hmem
    | instr i => simp [Item.label?] at hitem
  have hopens := hf.opens hnot hlt hint
  refine ⟨_, ⟨exec_build_of_ok (Build.exec_createBlock hf.function hnot hint),
    h.withBuilder hopens (hf.grows_opens l hint), ?_, ?_, rfl⟩, ?_⟩
  · ext t
    rw [hopens.mem_base, hf.mem_base]
    simp [FunctionDef.parameters, FunctionDef.slots]
  · rw [hopens.here_eq, Block.label_fresh]
  · rw [StandsOpen, hopens.isTerminated_eq, Block.isTerminated_fresh]

/-- A block under a new label is opened at the end. -/
theorem reaches_appendBlock (h : s.Steady) (hint : String) : ∃ s',
    Reaches (build (Build.appendBlock hint)) s s.builder.nextLabel s' [.label s.builder.nextLabel]
      s.builder.nextLabel (s.builder.nextLabel + 1) ∧ s'.StandsOpen := by
  obtain ⟨s', h', ho⟩ := reaches_createBlock (h.draw 1).steady
    (h.unused_draw (Nat.le_refl _) (Nat.lt_succ_self _)) hint
  have happend : build (Build.appendBlock hint) = build Build.newLabel >>= fun label =>
      build (Build.createBlock label hint) >>= fun _ => pure label := by
    simp only [Build.appendBlock, build_bind, build_pure]
  rw [happend]
  exact ⟨s', .of_draw (h'.returning _) h rfl, ho⟩

/-- A stack slot is added to the entry block. Its address can be read everywhere. -/
theorem exists_entryAlloca (h : s.Steady) (type : MachineType) : ∃ slot s',
    exec (build (Build.entryAlloca type)) s = (.ok slot, s') ∧ s.Writes s' [] ∧
      slot.temps ⊆ s'.builder.base ∧ s'.builder.here = s.builder.here ∧
      s'.builder.nextLabel = s.builder.nextLabel ∧
      s'.builder.isTerminated = s.builder.isTerminated := by
  obtain ⟨f, done, last, hf⟩ := h.front
  let t := s.builder.nextTemp
  have hdraw := hf.draw (Nat.le_succ t) (Nat.le_refl s.builder.nextLabel)
  have hfresh : t ∉ f.definitions := fun hmem => Nat.lt_irrefl _ (hf.definitions_lt t hmem)
  obtain ⟨done', last', hwith, hlabel, hterm⟩ := hdraw.withSlot type hfresh (Nat.lt_succ_self t)
  obtain ⟨hgrows, hbase⟩ := hdraw.grows_withSlot t type
  refine ⟨_, _, exec_build_of_ok (Build.exec_entryAlloca hf type), h.withBuilder hwith
    ⟨hgrows.listing, hgrows.signature, hgrows.base, hgrows.labels⟩, ?_, ?_, rfl, ?_⟩
  · rintro u ⟨rfl⟩
    exact hbase
  · rw [hwith.here_eq, hf.here_eq, hlabel]
  · rw [hwith.isTerminated_eq, hf.isTerminated_eq, hterm]

/-- A terminator is written, and a new block is opened behind it. -/
theorem reaches_leaveTo (h : s.Steady) (ho : s.StandsOpen) {i : Instr} (hi : i.isTerminator = true)
    {l : Nat} (hl : s.Unused l) (hint : String) :
    ∃ s', Reaches (do build (Build.emit i); build (Build.createBlock l hint)) s ()
      s' [.instr i, .label l] l s.builder.nextLabel ∧ s'.StandsOpen := by
  obtain ⟨s₁, h₁, -⟩ := reaches_emit h ho (Instr.isAlloca_eq_false_of_isTerminator hi)
    (Instr.result?_eq_none_of_isTerminator hi)
  obtain ⟨s₂, h₂, ho₂⟩ := reaches_createBlock h₁.writes.steady (hl.writes h₁.writes (by simp)) hint
  rw [h₁.next] at h₂
  exact ⟨s₂, h₁.bind h₂, ho₂⟩

theorem reaches_jumpTo (h : s.Steady) (ho : s.StandsOpen) (target : Nat) {l : Nat}
    (hl : s.Unused l) (hint : String) :
    ∃ s', Reaches (jumpTo target l hint) s () s' [.instr (.jump target), .label l] l
      s.builder.nextLabel ∧ s'.StandsOpen :=
  reaches_leaveTo h ho rfl hl hint

theorem reaches_branchTo (h : s.Steady) (ho : s.StandsOpen) (v : Value) (ifTrue ifFalse : Nat)
    {l : Nat} (hl : s.Unused l) (hint : String) :
    ∃ s', Reaches (branchTo v ifTrue ifFalse l hint) s () s'
      [.instr (.branch v ifTrue ifFalse), .label l] l s.builder.nextLabel ∧ s'.StandsOpen :=
  reaches_leaveTo h ho rfl hl hint

/-- The lines that end a block with a jump, if it is open. -/
def closingLines (s : BodyState) (target : Nat) : List Item :=
  if s.builder.isTerminated then [] else [.instr (.jump target)]

@[simp] theorem label_notMem_closingLines (s : BodyState) (target l : Nat) :
    .label l ∉ closingLines s target := by
  rw [closingLines]
  split <;> simp

theorem reaches_proceedTo (h : s.Steady) (target : Nat) {l : Nat}
    (hl : s.Unused l) (hint : String) :
    ∃ s', Reaches (proceedTo target l hint) s () s' (closingLines s target ++ [.label l]) l
      s.builder.nextLabel ∧ s'.StandsOpen := by
  cases hterm : s.builder.isTerminated with
  | false =>
    obtain ⟨s', h', ho'⟩ := reaches_jumpTo h hterm target hl hint
    refine ⟨s', ⟨?_, ?_, h'.base, h'.here, h'.next⟩, ho'⟩
    · rw [← h'.exec]
      simp [proceedTo, fallThrough, jumpTo, exec_bind, exec_isTerminated, hterm]
    · simpa [closingLines, hterm] using h'.writes
  | true =>
    obtain ⟨s', h', ho'⟩ := reaches_createBlock h hl hint
    refine ⟨s', ⟨?_, ?_, h'.base, h'.here, h'.next⟩, ho'⟩
    · rw [← h'.exec]
      simp [proceedTo, fallThrough, exec_bind, exec_isTerminated, hterm]
    · simpa [closingLines, hterm] using h'.writes

end Lower

end SsaLowering
