import SsaLowering.Proofs.Piece
import SsaLowering.Proofs.Steady

/-!
# Actions that write code of expressions

Such an action goes from an open block to an open block and writes a piece of code, also if
it fails. The rules here say so for every way to put actions together.
-/

namespace SsaLowering

namespace BodyState

/-- The cursor of a state, given what was computed on every way to it. -/
def cursor (s : BodyState) (avail : Set Nat) : Cursor :=
  ⟨s.builder.here, avail, s.builder.nextLabel⟩

/-- The state `s'` comes from the open state `s` by writing a piece of code. -/
structure Emitted (s : BodyState) (avail : Set Nat) (s' : BodyState) (x : List Spot)
    (avail' : Set Nat) : Prop where
  piece : Piece s.builder.base (s.cursor avail) x (s'.cursor avail')
  writes : s.Writes s' (x.map Spot.item)
  base : s'.builder.base = s.builder.base
  isOpen : s'.StandsOpen

namespace Emitted

variable {s s' s'' : BodyState} {avail avail' avail'' : Set Nat} {x y : List Spot}

theorem trans (h : s.Emitted avail s' x avail') (h' : s'.Emitted avail' s'' y avail'') :
    s.Emitted avail s'' (x ++ y) avail'' where
  piece := h.piece.append (h.base ▸ h'.piece)
  writes := by
    rw [List.map_append]
    exact h.writes.trans h'.writes
  base := h'.base.trans h.base
  isOpen := h'.isOpen

end Emitted

end BodyState

namespace Value

@[simp] theorem temps_temp (t : Nat) : (temp t).temps = {t} := by
  ext u
  simp [eq_comm]

@[simp] theorem temps_int (n : Int64) : (int n).temps = ∅ := temps_eq_empty (by simp)

@[simp] theorem temps_float (x : Binary64) : (float x).temps = ∅ := temps_eq_empty (by simp)

@[simp] theorem temps_bool (b : Bool) : (bool b).temps = ∅ := temps_eq_empty (by simp)

@[simp] theorem temps_null : null.temps = ∅ := temps_eq_empty (by simp)

@[simp] theorem temps_global (name : String) : (global name).temps = ∅ :=
  temps_eq_empty (by simp)

@[simp] theorem temps_function (name : String) : (function name).temps = ∅ :=
  temps_eq_empty (by simp)

@[simp] theorem temps_undef : undef.temps = ∅ := temps_eq_empty (by simp)

end Value

namespace TypedValue

/-- The temporaries that a value names. -/
def temps (v : TypedValue) : Set Nat := v.value.temps

@[simp] theorem temps_eq (v : TypedValue) : v.temps = v.value.temps := rfl

@[simp] theorem value_truth (v : Value) : (truth v).value = v := rfl

@[simp] theorem value_plain (v : Value) (type : MachineType) : (plain v type).value = v := rfl

@[simp] theorem value_null : null.value = .null := rfl

@[simp] theorem value_void : void.value = .undef := rfl

end TypedValue

/-- The temporaries that an optional result names. -/
def optional {α : Type} (temps : α → Set Nat) (result : Option α) : Set Nat :=
  {t | ∃ a, result = some a ∧ t ∈ temps a}

/-- The temporaries that a list of results names. -/
def listed {α : Type} (temps : α → Set Nat) (results : List α) : Set Nat :=
  {t | ∃ a ∈ results, t ∈ temps a}

/-- No temporaries, for results that name none. -/
def noTemps {α : Type} (_ : α) : Set Nat := ∅

section

variable {α : Type} {temps : α → Set Nat}

@[simp] theorem optional_none : optional temps none = ∅ := by simp [optional]

@[simp] theorem optional_some (a : α) : optional temps (some a) = temps a := by
  ext t
  simp [optional]

@[simp] theorem listed_nil : listed temps [] = ∅ := by simp [listed]

@[simp] theorem listed_cons (a : α) (rest : List α) :
    listed temps (a :: rest) = temps a ∪ listed temps rest := by
  ext t
  simp [listed]

@[simp] theorem noTemps_eq (a : α) : noTemps a = ∅ := rfl

@[simp] theorem optional_noTemps (result : Option α) : optional noTemps result = ∅ := by
  ext t
  simp [optional]

end

/-- Started in an open block where the known temporaries can be read, the action writes a
piece of code. Its result names temporaries that can be read behind that. -/
def Emits {α : Type} (known : Set Nat) (action : Lower α) (temps : α → Set Nat) : Prop :=
  ∀ (s : BodyState) (avail : Set Nat), s.Steady → s.StandsOpen → known ⊆ avail ∪ s.builder.base →
    ∃ x avail', s.Emitted avail (exec action s).2 x avail' ∧
      ∀ a, (exec action s).1 = .ok a → temps a ⊆ avail' ∪ s.builder.base

namespace Emits

open Lower BodyState

variable {α β : Type} {known : Set Nat} {temps : α → Set Nat} {temps' : β → Set Nat}

/-- An action that leaves the builder alone writes nothing. -/
theorem of_quiet {action : Lower α} (h : ∀ s, s.Steady →
      (exec action s).2.builder = s.builder ∧ (exec action s).2.Steady ∧
      s.log.count .error ≤ (exec action s).2.log.count .error ∧
      ∀ a, (exec action s).1 = .ok a → temps a ⊆ known ∪ s.builder.base) :
    Emits known action temps := by
  intro s avail hs ho hknown
  obtain ⟨hbuilder, hsteady, herrors, htemps⟩ := h s hs
  have hgrows : s.builder.Grows (exec action s).2.builder [] := by
    rw [hbuilder]
    exact .refl _
  refine ⟨[], avail, ⟨?_, ⟨hsteady, hgrows, herrors⟩, by rw [hbuilder], ?_⟩, fun a ha => ?_⟩
  · have hcursor : (exec action s).2.cursor avail = s.cursor avail := by
      simp only [cursor, hbuilder]
    rw [hcursor]
    exact .nil _
  · rw [StandsOpen, hbuilder]
    exact ho
  · exact (htemps a ha).trans (Set.union_subset hknown Set.subset_union_right)

theorem pure {a : α} (h : temps a ⊆ known) : Emits known (pure a) temps := by
  apply of_quiet
  intro s hs
  refine ⟨rfl, hs, Nat.le_refl _, ?_⟩
  rintro a' ⟨rfl⟩
  exact h.trans Set.subset_union_left

theorem throw (e : LoweringError) : Emits known (throw e : Lower α) temps :=
  of_quiet fun s hs => ⟨rfl, hs, Nat.le_refl _, by simp⟩

theorem fail (cause : Cause) : Emits known (fail cause : Lower α) temps := throw _

/-- What can be known without being needed. -/
theorem mono {known' : Set Nat} {action : Lower α} (h : Emits known action temps)
    (hknown : known ⊆ known') : Emits known' action temps :=
  fun s avail hs ho hk => h s avail hs ho (hknown.trans hk)

theorem bind {x : Lower α} {f : α → Lower β} (hx : Emits known x temps)
    (hf : ∀ a, Emits (known ∪ temps a) (f a) temps') : Emits known (x >>= f) temps' := by
  intro s avail hs ho hknown
  obtain ⟨p, avail', hp, htemps⟩ := hx s avail hs ho hknown
  rw [exec_bind]
  rcases hexec : exec x s with ⟨_ | a, s₁⟩
  all_goals rw [hexec] at hp htemps
  · exact ⟨p, avail', hp, by simp⟩
  · have hknown' : known ∪ temps a ⊆ avail' ∪ s₁.builder.base := by
      rw [hp.base]
      exact Set.union_subset
        (hknown.trans (Set.union_subset_union_left _ hp.piece.avail_subset)) (htemps a rfl)
    obtain ⟨q, avail'', hq, htemps'⟩ := hf a s₁ avail' hp.writes.steady hp.isOpen hknown'
    refine ⟨p ++ q, avail'', hp.trans hq, fun b hb => ?_⟩
    rw [← hp.base]
    exact htemps' b hb

theorem orFail {result : Option α} {cause : Cause} (h : optional temps result ⊆ known) :
    Emits known (orFail result cause) temps := by
  cases result with
  | none => exact fail cause
  | some a => exact pure (by simpa using h)

theorem orFail_plain {result : Option α} {cause : Cause} :
    Emits known (Lower.orFail result cause) noTemps := orFail (by simp)

theorem located {location : Option Location} {action : Lower α} (h : Emits known action temps) :
    Emits known (located location action) temps := by
  intro s avail hs ho hknown
  obtain ⟨x, avail', hx, htemps⟩ := h s avail hs ho hknown
  rw [exec_located]
  rcases hexec : exec action s with ⟨_ | a, s₁⟩
  all_goals rw [hexec] at hx htemps
  · exact ⟨x, avail', hx, by simp⟩
  · exact ⟨x, avail', hx, htemps⟩

theorem recovering {action : Lower Unit} (h : Emits known action noTemps) :
    Emits known (recovering action) noTemps := by
  intro s avail hs ho hknown
  obtain ⟨x, avail', hx, -⟩ := h s avail hs ho hknown
  rw [exec_recovering]
  rcases hexec : exec action s with ⟨e | a, s₁⟩
  all_goals rw [hexec] at hx
  · refine ⟨x, avail', ⟨hx.piece, ?_, hx.base, hx.isOpen⟩, by simp⟩
    refine ⟨⟨hx.writes.steady.front, hx.writes.steady.scope⟩, hx.writes.builder, ?_⟩
    exact Nat.le_trans hx.writes.errors (by simp)
  · exact ⟨x, avail', hx, by simp⟩

/-- A plain line in an open block. -/
theorem of_reaches {action : Lower α} {s s' : BodyState} {a : α} {i : Instr} {avail : Set Nat}
    (h : Reaches action s a s' [.instr i] s.builder.here s.builder.nextLabel) (ho : s'.StandsOpen)
    (hi : i.isPlain = true) (ht : i.temps ⊆ avail ∪ s.builder.base) :
    s.Emitted avail s' [.line s.builder.here avail i] (avail ∪ {t | i.result? = some t}) where
  piece := by
    have hcursor : s'.cursor (avail ∪ {t | i.result? = some t}) = (s.cursor avail).past i := by
      simp only [cursor, Cursor.past, h.here, h.next]
    rw [hcursor]
    exact .plain hi ht
  writes := h.writes
  base := h.base
  isOpen := ho

theorem emit {i : Instr} (hi : i.isPlain = true) (hr : i.result? = none) (ht : i.temps ⊆ known) :
    Emits known (build (Build.emit i)) noTemps := by
  intro s avail hs ho hknown
  obtain ⟨hterm, -, halloca⟩ := Instr.isPlain_iff.mp hi
  obtain ⟨s', h, ho'⟩ := reaches_emit hs ho halloca hr
  rw [hterm] at ho'
  rw [h.exec]
  exact ⟨_, _, of_reaches h ho' hi (ht.trans hknown), by simp⟩

theorem define {instr : Nat → Instr} (hi : ∀ t, (instr t).isPlain = true)
    (hr : ∀ t, (instr t).result? = some t) (ht : ∀ t, (instr t).temps ⊆ known) :
    Emits known (build (Build.define instr)) Value.temps := by
  intro s avail hs ho hknown
  obtain ⟨t, s', h, ho'⟩ := reaches_define hs ho (fun t => (Instr.isPlain_iff.mp (hi t)).2.2)
    (fun t => (Instr.isPlain_iff.mp (hi t)).1) hr
  rw [h.exec]
  refine ⟨_, _, of_reaches h ho' (hi t) ((ht t).trans hknown), ?_⟩
  rintro v ⟨rfl⟩
  simp [hr]

section

variable {lhs rhs value ptr : Value} {type type' : MachineType}

theorem binary (op : Opcode) (h : lhs.temps ∪ rhs.temps ⊆ known) :
    Emits known (build (Build.binary op lhs rhs type)) Value.temps := by
  apply define (fun _ => rfl) (fun _ => rfl)
  rintro t u hu
  apply h
  simpa [Instr.operands, eq_comm] using hu

theorem load (h : ptr.temps ⊆ known) : Emits known (build (Build.load ptr type)) Value.temps := by
  apply define (fun _ => rfl) (fun _ => rfl)
  rintro t u hu
  apply h
  simpa [Instr.operands, eq_comm] using hu

theorem store (h : value.temps ∪ ptr.temps ⊆ known) :
    Emits known (build (Build.store value ptr type)) noTemps := by
  apply emit rfl rfl
  rintro u hu
  apply h
  simpa [Instr.operands, eq_comm] using hu

theorem fieldAddress (index : Nat) (h : ptr.temps ⊆ known) :
    Emits known (build (Build.fieldAddress type ptr index)) Value.temps := by
  apply define (fun _ => rfl) (fun _ => rfl)
  rintro t u hu
  apply h
  simpa [Instr.operands, eq_comm] using hu

theorem extract (index : Nat) (h : value.temps ⊆ known) :
    Emits known (build (Build.extract value type index type')) Value.temps := by
  apply define (fun _ => rfl) (fun _ => rfl)
  rintro t u hu
  apply h
  simpa [Instr.operands, eq_comm] using hu

theorem convert (op : Conversion) (h : value.temps ⊆ known) :
    Emits known (build (Build.convert op value type type')) Value.temps := by
  apply define (fun _ => rfl) (fun _ => rfl)
  rintro t u hu
  apply h
  simpa [Instr.operands, eq_comm] using hu

theorem call {callee : String} {args : List (MachineType × Value)}
    (h : listed (fun arg => arg.2.temps) args ⊆ known) :
    Emits known (build (Build.call (.function callee) type args)) (optional Value.temps) := by
  have ht (result : Option Nat) :
      (Instr.call result (.function callee) type args).temps ⊆ known := by
    rintro u hu
    apply h
    simpa [Instr.operands, listed] using hu
  cases hvoid : type.returnsVoid with
  | true =>
    simp only [Build.call, hvoid, if_true, build_bind, build_pure]
    exact (emit rfl rfl (ht none)).bind fun _ => pure (by simp)
  | false =>
    simp only [Build.call, hvoid, Bool.false_eq_true, if_false, build_bind, build_pure]
    exact (define (fun _ => rfl) (fun _ => rfl) fun t => ht (some t)).bind fun v =>
      pure (by simp)

end

end Emits

end SsaLowering
