import SsaLowering.Proofs.Spot

/-!
# The code of expressions

The code of an expression is entered at one place and left at one place. It is made of
instructions that stay in their block and of diamonds: two ways that part at a branch and
meet again in a new block. A diamond whose far side was given up has no phi.
-/

namespace SsaLowering

/-- Where code is written: the current block, the temporaries computed on every way to it,
and the next unused label. -/
structure Cursor where
  label : Nat
  avail : Set Nat
  next : Nat

namespace Cursor

/-- The cursor behind an instruction that stays in its block. -/
def past (c : Cursor) (i : Instr) : Cursor :=
  { c with avail := c.avail ∪ {t | i.result? = some t} }

/-- The cursor in the right operand of a short-circuit operator. -/
def inner (c : Cursor) : Cursor := ⟨c.next, c.avail, c.next + 2⟩

/-- The cursor where the two ways of a short-circuit operator meet. -/
def joined (c d : Cursor) : Cursor := ⟨c.next + 1, c.avail, d.next⟩

end Cursor

/-- A branch, the code of the way that is not always taken, and the block where the ways
meet. -/
def diamond (c : Cursor) (v : Value) (ifTrue ifFalse : Nat) (x : List Spot) (d : Cursor) :
    List Spot :=
  .line c.label c.avail (.branch v ifTrue ifFalse) :: .head c.next c.avail {c.label} ::
    (x ++ [.line d.label d.avail (.jump (c.next + 1)),
      .head (c.next + 1) c.avail {c.label, d.label}])

/-- The branch of a diamond enters the inner block or the block where the ways meet. -/
def IsFork (c : Cursor) (ifTrue ifFalse : Nat) : Prop :=
  (ifTrue = c.next ∧ ifFalse = c.next + 1) ∨ (ifTrue = c.next + 1 ∧ ifFalse = c.next)

/-- The code of an expression, from one cursor to another. -/
inductive Piece (base : Set Nat) : Cursor → List Spot → Cursor → Prop
  | nil (c : Cursor) : Piece base c [] c
  | append {c d e : Cursor} {x y : List Spot} (hx : Piece base c x d) (hy : Piece base d y e) :
    Piece base c (x ++ y) e
  | plain {c : Cursor} {i : Instr} (hi : i.isPlain = true) (ht : i.temps ⊆ c.avail ∪ base) :
    Piece base c [.line c.label c.avail i] (c.past i)
  | abandoned {c d : Cursor} {v : Value} {ifTrue ifFalse : Nat} {x : List Spot}
    (hv : v.temps ⊆ c.avail ∪ base) (hfork : IsFork c ifTrue ifFalse)
    (hx : Piece base c.inner x d) :
    Piece base c (diamond c v ifTrue ifFalse x d) (c.joined d)
  | merged {c d : Cursor} {v short rhs : Value} {ifTrue ifFalse result : Nat} {x : List Spot}
    {type : MachineType} (hv : v.temps ⊆ c.avail ∪ base) (hfork : IsFork c ifTrue ifFalse)
    (hx : Piece base c.inner x d) (hs : short.temps ⊆ c.avail ∪ base)
    (hr : rhs.temps ⊆ d.avail ∪ base) :
    Piece base c
      (diamond c v ifTrue ifFalse x d ++ [.line (c.next + 1) c.avail
        (.phi result [(short, c.label), (rhs, d.label)] type)])
      ((c.joined d).past (.phi result [(short, c.label), (rhs, d.label)] type))

namespace Piece

variable {base : Set Nat} {c d : Cursor} {x : List Spot}

theorem avail_subset (h : Piece base c x d) : c.avail ⊆ d.avail := by
  induction h with
  | nil => exact subset_rfl
  | append _ _ ihx ihy => exact ihx.trans ihy
  | plain => exact Set.subset_union_left
  | abandoned => exact subset_rfl
  | merged => exact Set.subset_union_left

/-- Labels are only drawn, and the current block is the old one or has a new label. -/
theorem label_bounds (h : Piece base c x d) (hc : c.label < c.next) :
    c.next ≤ d.next ∧ d.label < d.next ∧ (d.label = c.label ∨ c.next ≤ d.label) := by
  induction h with
  | nil => omega
  | append _ _ ihx ihy =>
    have hx := ihx hc
    have hy := ihy hx.2.1
    omega
  | plain => exact ⟨Nat.le_refl _, hc, .inl rfl⟩
  | @abandoned c d v ifTrue ifFalse x _ _ _ ih =>
    have hin := ih (show c.next < c.next + 2 by omega)
    simp only [Cursor.inner, Cursor.joined] at hin ⊢
    omega
  | @merged c d v short rhs ifTrue ifFalse result x type _ _ _ _ _ ih =>
    have hin := ih (show c.next < c.next + 2 by omega)
    simp only [Cursor.inner, Cursor.joined, Cursor.past] at hin ⊢
    omega

/-- The block where the inner way ends is not the one where the ways part. -/
theorem label_ne (h : Piece base c.inner x d) (hc : c.label < c.next) : c.label ≠ d.label := by
  have hin := h.label_bounds (show c.next < c.next + 2 by omega)
  simp only [Cursor.inner] at hin
  omega

/-- The blocks that an expression opens have labels that were unused before. -/
theorem head_bounds (h : Piece base c x d) (hc : c.label < c.next) {l : Nat}
    {avail sources : Set Nat} (hl : .head l avail sources ∈ x) : c.next ≤ l := by
  induction h with
  | nil => simp at hl
  | append hx _ ihx ihy =>
    have hb := hx.label_bounds hc
    rcases List.mem_append.mp hl with hl | hl
    · exact ihx hc hl
    · have hle := ihy hb.2.1 hl
      omega
  | plain => simp at hl
  | @abandoned c d v ifTrue ifFalse x _ _ _ ih =>
    have hin := @ih (show c.next < c.next + 2 by omega)
    simp only [diamond, Cursor.inner, List.mem_cons, List.mem_append, Spot.head.injEq,
      reduceCtorEq, List.not_mem_nil, false_or, or_false] at hin hl
    rcases hl with hl | hl | hl
    · omega
    · have hle := hin hl
      omega
    · omega
  | @merged c d v short rhs ifTrue ifFalse result x type _ _ _ _ _ ih =>
    have hin := @ih (show c.next < c.next + 2 by omega)
    simp only [diamond, Cursor.inner, List.mem_cons, List.mem_append, Spot.head.injEq,
      reduceCtorEq, List.not_mem_nil, false_or, or_false, List.cons_append] at hin hl
    rcases hl with hl | hl | hl
    · omega
    · have hle := hin hl
      omega
    · omega

/-- A diamond threads if the code of its inner way does. -/
theorem threads_diamond {v : Value} {ifTrue ifFalse : Nat} {front front' : Bool}
    (hx : Spot.Threads (some ⟨c.next, c.avail, true⟩) x (some ⟨d.label, d.avail, front'⟩)) :
    Spot.Threads (some ⟨c.label, c.avail, front⟩) (diamond c v ifTrue ifFalse x d)
      (some ⟨c.next + 1, c.avail, true⟩) := by
  refine ⟨rfl, rfl, rfl, by simp [Instr.isPhi], ?_⟩
  show Spot.Threads (some ⟨c.next, c.avail, true⟩) _ _
  rw [Spot.threads_append]
  exact ⟨_, hx, rfl, rfl, rfl, by simp [Instr.isPhi], rfl⟩

/-- The code of an expression begins and ends inside open blocks. -/
theorem threads (h : Piece base c x d) (front : Bool) : ∃ front',
    Spot.Threads (some ⟨c.label, c.avail, front⟩) x (some ⟨d.label, d.avail, front'⟩) := by
  induction h generalizing front with
  | nil => exact ⟨front, rfl⟩
  | append _ _ ihx ihy =>
    obtain ⟨front₁, hx⟩ := ihx front
    obtain ⟨front₂, hy⟩ := ihy front₁
    exact ⟨front₂, Spot.threads_append.mpr ⟨_, hx, hy⟩⟩
  | @plain c i hi _ =>
    obtain ⟨hterm, hphi, halloca⟩ := Instr.isPlain_iff.mp hi
    refine ⟨front && i.isPhi, rfl, rfl, halloca, by simp [hphi], ?_⟩
    simp [Site.after, hterm, Spot.Threads, Cursor.past]
  | abandoned _ _ _ ih =>
    obtain ⟨front', hx⟩ := ih true
    exact ⟨true, threads_diamond hx⟩
  | merged _ _ _ _ _ ih =>
    obtain ⟨front', hx⟩ := ih true
    exact ⟨true, Spot.threads_append.mpr
      ⟨_, threads_diamond hx, rfl, rfl, rfl, by simp, rfl⟩⟩

@[simp] theorem results_diamond {v : Value} {ifTrue ifFalse : Nat} :
    Spot.results (diamond c v ifTrue ifFalse x d) = Spot.results x := by
  simp [diamond, Instr.result?]

theorem grounded_diamond {v : Value} {ifTrue ifFalse : Nat} {front : Bool}
    (hx : Spot.Grounded (some ⟨c.next, c.avail, true⟩) x) :
    Spot.Grounded (some ⟨c.label, c.avail, front⟩) (diamond c v ifTrue ifFalse x d) := by
  intro l a so hmem
  rw [results_diamond]
  simp only [diamond, List.mem_cons, reduceCtorEq, Spot.head.injEq, List.mem_append,
    List.not_mem_nil, or_false, false_or] at hmem
  rcases hmem with ⟨-, rfl, -⟩ | hmem | ⟨-, rfl, -⟩
  · exact Set.subset_union_left
  · exact hx l a so hmem
  · exact Set.subset_union_left

/-- The blocks in the code of an expression expect what is computed before them. -/
theorem grounded (h : Piece base c x d) (front : Bool) :
    Spot.Grounded (some ⟨c.label, c.avail, front⟩) x := by
  induction h generalizing front with
  | nil => simp [Spot.Grounded]
  | append hx _ ihx ihy =>
    obtain ⟨front', hthreads⟩ := hx.threads front
    exact (ihx front).append hthreads (ihy front')
  | plain => simp [Spot.Grounded]
  | abandoned _ _ _ ih => exact grounded_diamond (ih true)
  | merged _ _ hx _ _ ih =>
    obtain ⟨front', hthreads⟩ := hx.threads true
    exact (grounded_diamond (ih true)).append (threads_diamond hthreads)
      (by simp [Spot.Grounded])

/-- The branch and the jump of a diamond are supported by its two blocks. -/
theorem supported_diamond {type : MachineType} {v : Value} {ifTrue ifFalse : Nat}
    (hv : v.temps ⊆ c.avail ∪ base) (hfork : IsFork c ifTrue ifFalse) (havail : c.avail ⊆ d.avail)
    (hx : Spot.AllSupported type base x x) :
    Spot.AllSupported type base (diamond c v ifTrue ifFalse x d)
      (diamond c v ifTrue ifFalse x d) := by
  have hinner : Spot.head c.next c.avail {c.label} ∈ diamond c v ifTrue ifFalse x d := by
    simp [diamond]
  have hmerge : Spot.head (c.next + 1) c.avail {c.label, d.label} ∈
      diamond c v ifTrue ifFalse x d := by
    simp [diamond]
  have hbranch : Spot.Supported type base (diamond c v ifTrue ifFalse x d) c.label c.avail
      (.branch v ifTrue ifFalse) := by
    rcases hfork with ⟨rfl, rfl⟩ | ⟨rfl, rfl⟩
    · exact .of_branch hv hinner subset_rfl (by simp) hmerge subset_rfl (by simp)
    · exact .of_branch hv hmerge subset_rfl (by simp) hinner subset_rfl (by simp)
  have hsub : x ⊆ diamond c v ifTrue ifFalse x d := by
    intro spot hspot
    simp [diamond, hspot]
  rw [show Spot.AllSupported type base (diamond c v ifTrue ifFalse x d) _ ↔ _ from
    Spot.allSupported_line, Spot.allSupported_head]
  refine ⟨hbranch, (hx.mono subset_rfl hsub).append ?_⟩
  rw [Spot.allSupported_line, Spot.allSupported_head]
  exact ⟨.of_jump hmerge havail (by simp), Spot.allSupported_nil⟩

/-- The code of an expression needs nothing from outside. -/
theorem supported {type : MachineType} (h : Piece base c x d) (hc : c.label < c.next) :
    Spot.AllSupported type base x x := by
  induction h with
  | nil => exact Spot.allSupported_nil
  | append hx _ ihx ihy =>
    have hb := hx.label_bounds hc
    exact ((ihx hc).mono subset_rfl (by simp)).append ((ihy hb.2.1).mono subset_rfl (by simp))
  | plain hi ht => exact Spot.allSupported_line.mpr ⟨.of_plain hi ht, Spot.allSupported_nil⟩
  | @abandoned c d v ifTrue ifFalse x hv hfork hx ih =>
    exact supported_diamond hv hfork hx.avail_subset (ih (show c.next < c.next + 2 by omega))
  | @merged c d v short rhs ifTrue ifFalse result x type' hv hfork hx hs hr ih =>
    have hd := supported_diamond hv hfork hx.avail_subset (ih (show c.next < c.next + 2 by omega))
    refine (hd.mono subset_rfl (by simp)).append (Spot.allSupported_line.mpr
      ⟨⟨by simp [Instr.isPhi], by simp [Instr.successors], ?_, rfl⟩, Spot.allSupported_nil⟩)
    intro result' incoming type'' heq
    simp only [Instr.phi.injEq] at heq
    obtain ⟨rfl, rfl, rfl⟩ := heq
    have hmerge : IsFork c ifTrue ifFalse →
        c.next + 1 ∈ (Instr.branch v ifTrue ifFalse).successors := by
      rintro (⟨rfl, rfl⟩ | ⟨rfl, rfl⟩) <;> simp [Instr.successors]
    refine ⟨by simpa using label_ne hx hc, ⟨c.avail, {c.label, d.label}, by simp [diamond],
      by simp⟩, ?_⟩
    intro value source hvs
    simp only [List.mem_cons, Prod.mk.injEq, List.not_mem_nil, or_false] at hvs
    rcases hvs with ⟨rfl, rfl⟩ | ⟨rfl, rfl⟩
    · exact ⟨c.avail, .branch v ifTrue ifFalse, by simp [diamond], hmerge hfork, hs⟩
    · exact ⟨d.avail, .jump (c.next + 1), by simp [diamond], by simp [Instr.successors], hr⟩

end Piece

end SsaLowering
