import SsaLowering.Code.Verification
import SsaLowering.Proofs.Listing
import Mathlib.Data.Set.Insert
import Mathlib.Data.Set.Lattice

/-!
# Lines and what holds where they stand

A spot is a line of a written-out function together with the block in which it stands and
the temporaries that were computed on every way to it. A list of spots threads if the blocks
in it are well formed, and a spot is supported if everything it needs is there: its operands
were computed before, and the blocks it leads to expect no more than it provides.
-/

namespace SsaLowering

/-- A line of a function. The head of a block carries what is available on every way into
the block, and the blocks from which it may be entered. -/
inductive Spot where
  | head (label : Nat) (avail sources : Set Nat)
  | line (label : Nat) (avail : Set Nat) (instr : Instr)

/-- A place in a block that is still open. In front of a block there are only phis. -/
structure Site where
  label : Nat
  avail : Set Nat
  isFront : Bool

namespace Site

/-- The place behind an instruction. There is none behind a terminator. -/
def after (p : Site) (i : Instr) : Option Site :=
  if i.isTerminator then none
  else some ⟨p.label, p.avail ∪ {t | i.result? = some t}, p.isFront && i.isPhi⟩

end Site

namespace Spot

def item : Spot → Item
  | .head label _ _ => .label label
  | .line _ _ i => .instr i

/-- Following the spots from one place leads to another. Blocks begin where the block before
has ended, and phis stand in front. -/
def Threads : Option Site → List Spot → Option Site → Prop
  | p, [], q => p = q
  | none, .head l avail _ :: rest, q => Threads (some ⟨l, avail, true⟩) rest q
  | some p, .line l avail i :: rest, q =>
    l = p.label ∧ avail = p.avail ∧ i.isAlloca = false ∧ (i.isPhi = true → p.isFront = true) ∧
      Threads (p.after i) rest q
  | _, _ :: _, _ => False

/-- What was computed on every way to a place. -/
def Site.known : Option Site → Set Nat
  | some p => p.avail
  | none => ∅

/-- The results of the instructions among some spots. -/
def results (spots : List Spot) : Set Nat :=
  {t | ∃ label avail i, .line label avail i ∈ spots ∧ i.result? = some t}

/-- What the blocks among some spots expect is computed by these spots, or was before. -/
def Grounded (p : Option Site) (spots : List Spot) : Prop :=
  ∀ label avail sources, .head label avail sources ∈ spots → avail ⊆ Site.known p ∪ results spots

/-- What an instruction needs in a function that returns the given type: operands that were
computed, targets that expect no more than is available, and for a phi one operand for each
block from which its own block may be entered. -/
structure Supported (type : MachineType) (base : Set Nat) (spots : List Spot) (label : Nat)
    (avail : Set Nat) (i : Instr) : Prop where
  temps : i.isPhi = false → i.temps ⊆ avail ∪ base
  targets : ∀ target ∈ i.successors, ∃ avail' sources,
    .head target avail' sources ∈ spots ∧ avail' ⊆ avail ∧ label ∈ sources
  incoming : ∀ result incoming type', i = .phi result incoming type' →
    (incoming.map Prod.snd).Nodup ∧
    (∃ avail' sources, .head label avail' sources ∈ spots ∧
      ∀ source ∈ sources, source ∈ incoming.map Prod.snd) ∧
    ∀ value source, (value, source) ∈ incoming → ∃ avail' j,
      .line source avail' j ∈ spots ∧ label ∈ j.successors ∧ value.temps ⊆ avail' ∪ base
  returns : FunctionDef.returnsAs type i = true

/-- Every instruction among the first spots is supported by the second spots. -/
def AllSupported (type : MachineType) (base : Set Nat) (part whole : List Spot) : Prop :=
  ∀ label avail i, .line label avail i ∈ part → Supported type base whole label avail i

variable {type : MachineType} {base base' : Set Nat} {x y whole whole' : List Spot}

theorem threads_append {p q : Option Site} :
    Threads p (x ++ y) q ↔ ∃ r, Threads p x r ∧ Threads r y q := by
  induction x generalizing p with
  | nil => simp [Threads]
  | cons spot rest ih => cases p <;> cases spot <;> simp [Threads, ih, and_assoc]

@[simp] theorem results_nil : results [] = ∅ := by simp [results]

@[simp] theorem results_head {label : Nat} {avail sources : Set Nat} :
    results (.head label avail sources :: x) = results x := by
  simp [results]

@[simp] theorem results_line {label : Nat} {avail : Set Nat} {i : Instr} :
    results (.line label avail i :: x) = {t | i.result? = some t} ∪ results x := by
  ext t
  simp only [results, List.mem_cons, Spot.line.injEq, Set.mem_ofPred_eq, Set.mem_union]
  constructor
  · rintro ⟨l, a, j, ⟨-, -, rfl⟩ | hj, ht⟩
    · exact .inl ht
    · exact .inr ⟨l, a, j, hj, ht⟩
  · rintro (ht | ⟨l, a, j, hj, ht⟩)
    · exact ⟨label, avail, i, .inl ⟨rfl, rfl, rfl⟩, ht⟩
    · exact ⟨l, a, j, .inr hj, ht⟩

@[simp] theorem results_append : results (x ++ y) = results x ∪ results y := by
  induction x with
  | nil => simp
  | cons spot x ih => cases spot <;> simp [ih, Set.union_assoc]

/-- What is known at a place was expected in front of its block or computed on the way. -/
theorem Threads.known_subset {p q : Option Site} {known : Set Nat} (h : Threads p x q)
    (hp : Site.known p ⊆ known) (hx : results x ⊆ known)
    (hheads : ∀ label avail sources, .head label avail sources ∈ x → avail ⊆ known) :
    Site.known q ⊆ known := by
  induction x generalizing p with
  | nil => exact h ▸ hp
  | cons spot rest ih =>
    have hrest := fun label avail sources hmem =>
      hheads label avail sources (List.mem_cons_of_mem spot hmem)
    cases spot with
    | head l a so =>
      cases p with
      | some p => exact h.elim
      | none => exact ih h (hheads l a so (by simp)) (by simpa using hx) hrest
    | line l a i =>
      rw [results_line, Set.union_subset_iff] at hx
      cases p with
      | none => exact h.elim
      | some p =>
        refine ih h.2.2.2.2 ?_ hx.2 hrest
        rw [Site.after]
        split
        · exact Set.empty_subset _
        · exact Set.union_subset hp hx.1

/-- Blocks that expect nothing are grounded. -/
theorem Grounded.of_empty {p : Option Site}
    (h : ∀ label avail sources, .head label avail sources ∈ x → avail = ∅) : Grounded p x := by
  intro l a so hmem
  rw [h l a so hmem]
  exact Set.empty_subset _

theorem Grounded.append {p q : Option Site} (hx : Grounded p x) (hthreads : Threads p x q)
    (hy : Grounded q y) : Grounded p (x ++ y) := by
  have hleft : Site.known p ∪ results x ⊆ Site.known p ∪ results (x ++ y) := by
    rw [results_append, ← Set.union_assoc]
    exact Set.subset_union_left
  have hq : Site.known q ⊆ Site.known p ∪ results (x ++ y) :=
    hthreads.known_subset Set.subset_union_left (Set.subset_union_right.trans hleft)
      fun l a so hmem => (hx l a so hmem).trans hleft
  intro l a so hmem
  rcases List.mem_append.mp hmem with hmem | hmem
  · exact (hx l a so hmem).trans hleft
  · refine (hy l a so hmem).trans (Set.union_subset hq ?_)
    rw [results_append]
    exact Set.subset_union_right.trans Set.subset_union_right

/-- More spots and a larger base support at least as much. -/
theorem Supported.mono {label : Nat} {avail : Set Nat} {i : Instr}
    (h : Supported type base whole label avail i) (hbase : base ⊆ base')
    (hwhole : whole ⊆ whole') : Supported type base' whole' label avail i where
  temps hi := (h.temps hi).trans (Set.union_subset_union_right _ hbase)
  targets target ht := by
    obtain ⟨avail', sources, hmem, hrest⟩ := h.targets target ht
    exact ⟨avail', sources, hwhole hmem, hrest⟩
  incoming result incoming type' hi := by
    obtain ⟨hnodup, ⟨avail', sources, hmem, hsources⟩, hin⟩ := h.incoming result incoming type' hi
    refine ⟨hnodup, ⟨avail', sources, hwhole hmem, hsources⟩, fun value source hvs => ?_⟩
    obtain ⟨avail', j, hj, hlabel, hvalue⟩ := hin value source hvs
    exact ⟨avail', j, hwhole hj, hlabel, hvalue.trans (Set.union_subset_union_right _ hbase)⟩
  returns := h.returns

theorem AllSupported.mono (h : AllSupported type base x whole) (hbase : base ⊆ base')
    (hwhole : whole ⊆ whole') : AllSupported type base' x whole' :=
  fun label avail i hi => (h label avail i hi).mono hbase hwhole

theorem AllSupported.append (hx : AllSupported type base x whole)
    (hy : AllSupported type base y whole) : AllSupported type base (x ++ y) whole := by
  intro label avail i hi
  rcases List.mem_append.mp hi with hi | hi
  · exact hx label avail i hi
  · exact hy label avail i hi

theorem allSupported_nil : AllSupported type base [] whole := by
  intro label avail i hi
  simp at hi

theorem allSupported_head {label : Nat} {avail sources : Set Nat} :
    AllSupported type base (.head label avail sources :: x) whole ↔
      AllSupported type base x whole := by
  simp [AllSupported]

theorem allSupported_line {label : Nat} {avail : Set Nat} {i : Instr} :
    AllSupported type base (.line label avail i :: x) whole ↔
      Supported type base whole label avail i ∧ AllSupported type base x whole := by
  constructor
  · intro h
    exact ⟨h label avail i (by simp), fun l a j hj => h l a j (by simp [hj])⟩
  · rintro ⟨hi, hx⟩ l a j hj
    simp only [List.mem_cons, Spot.line.injEq] at hj
    rcases hj with ⟨rfl, rfl, rfl⟩ | hj
    · exact hi
    · exact hx l a j hj

/-- An instruction without targets needs only its operands. -/
theorem Supported.of_plain {label : Nat} {avail : Set Nat} {i : Instr} (hi : i.isPlain = true)
    (ht : i.temps ⊆ avail ∪ base) : Supported type base whole label avail i := by
  obtain ⟨hterm, hphi, -⟩ := Instr.isPlain_iff.mp hi
  refine ⟨fun _ => ht, ?_, ?_, ?_⟩
  · simp [Instr.successors_eq_nil hterm]
  · rintro result incoming type' rfl
    simp [Instr.isPhi] at hphi
  · cases i <;> simp_all [FunctionDef.returnsAs, Instr.isTerminator]

theorem Supported.of_jump {label target : Nat} {avail avail' sources : Set Nat}
    (hmem : .head target avail' sources ∈ whole) (havail : avail' ⊆ avail)
    (hlabel : label ∈ sources) : Supported type base whole label avail (.jump target) where
  temps := by simp [Instr.temps, Instr.operands]
  targets := by
    simp only [Instr.successors, List.mem_singleton, forall_eq]
    exact ⟨avail', sources, hmem, havail, hlabel⟩
  incoming := by simp
  returns := rfl

theorem Supported.of_branch {label ifTrue ifFalse : Nat} {avail avail' avail'' : Set Nat}
    {sources sources' : Set Nat} {v : Value} (hv : v.temps ⊆ avail ∪ base)
    (htrue : .head ifTrue avail' sources ∈ whole) (havail : avail' ⊆ avail)
    (hlabel : label ∈ sources) (hfalse : .head ifFalse avail'' sources' ∈ whole)
    (havail' : avail'' ⊆ avail) (hlabel' : label ∈ sources') :
    Supported type base whole label avail (.branch v ifTrue ifFalse) where
  temps _ := by
    intro t ht
    apply hv
    simpa [Instr.operands, eq_comm] using ht
  targets := by
    simp only [Instr.successors, List.mem_cons, List.not_mem_nil, or_false, forall_eq_or_imp,
      forall_eq]
    exact ⟨⟨avail', sources, htrue, havail, hlabel⟩, ⟨avail'', sources', hfalse, havail', hlabel'⟩⟩
  incoming := by simp
  returns := rfl

end Spot

end SsaLowering
