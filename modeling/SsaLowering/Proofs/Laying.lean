import SsaLowering.Proofs.ExpressionCode

/-!
# Actions that lay out code of statements

The code of a statement can end in a terminator, and it opens blocks under labels that it
draws. Here are the parts of which such code is made, and what they leave unused for the
parts that follow.
-/

namespace SsaLowering

namespace BodyState

variable {s s' s'' : BodyState} {p q r : Option Site} {x y : List Spot} {type : MachineType}

/-- A place is where a state writes: in its current block, if that is open. -/
def Stands (s : BodyState) : Option Site → Prop
  | some p => s.StandsOpen ∧ p.label = s.builder.here
  | none => ¬ s.StandsOpen

/-- The state `s'` comes from `s` by writing spots that lead from one place to another, with
blocks under new labels only. -/
structure Traced (s s' : BodyState) (p : Option Site) (x : List Spot) (q : Option Site) :
    Prop where
  writes : s.Writes s' (x.map Spot.item)
  threads : Spot.Threads p x q
  stands : s'.Stands q
  base : s.builder.base ⊆ s'.builder.base

/-- The labels of the blocks among some spots. -/
def Opens (x : List Spot) (l : Nat) : Prop := .label l ∈ x.map Spot.item

namespace Traced

theorem append (h : s.Traced s' p x q) (h' : s'.Traced s'' q y r) :
    s.Traced s'' p (x ++ y) r where
  writes := by
    rw [List.map_append]
    exact h.writes.trans h'.writes
  threads := Spot.threads_append.mpr ⟨q, h.threads, h'.threads⟩
  stands := h'.stands
  base := h.base.trans h'.base

theorem refl (hs : s.Steady) (hp : s.Stands p) : s.Traced s p [] p :=
  ⟨.refl hs, by cases p <;> rfl, hp, subset_rfl⟩

end Traced

end BodyState

namespace Spot

open BodyState

/-- The head of a block that expects nothing and may be entered from anywhere. -/
def entry (l : Nat) : Spot := .head l ∅ Set.univ

section

variable {x y : List Spot} {l k : Nat} {avail : Set Nat} {i : Instr}

@[simp] theorem opens_nil : ¬ Opens [] l := by simp [Opens]

@[simp] theorem opens_append : Opens (x ++ y) l ↔ Opens x l ∨ Opens y l := by simp [Opens]

@[simp] theorem opens_line : Opens (.line k avail i :: x) l ↔ Opens x l := by
  simp [Opens, item]

@[simp] theorem opens_entry : Opens (entry k :: x) l ↔ l = k ∨ Opens x l := by
  simp [Opens, entry, item]

end

variable {type : MachineType} {base : Set Nat} {whole : List Spot}

theorem supported_jump {p : Site} {target : Nat} (h : entry target ∈ whole) :
    Supported type base whole p.label p.avail (.jump target) :=
  .of_jump h (Set.empty_subset _) (Set.mem_univ _)

theorem supported_branch {p : Site} {v : Value} {ifTrue ifFalse : Nat}
    (hv : v.temps ⊆ p.avail ∪ base) (h : entry ifTrue ∈ whole) (h' : entry ifFalse ∈ whole) :
    Supported type base whole p.label p.avail (.branch v ifTrue ifFalse) :=
  .of_branch hv h (Set.empty_subset _) (Set.mem_univ _) h' (Set.empty_subset _) (Set.mem_univ _)

theorem supported_entry {l : Nat} : AllSupported type base [entry l] whole :=
  allSupported_head.mpr allSupported_nil

end Spot

namespace BodyState

variable {s s' s'' : BodyState} {p q r : Option Site} {x y : List Spot} {type : MachineType}
  {owed owed' : List Nat} {low low' l : Nat}

/-- The state `s'` comes from `s` by laying out code under labels that are not below `low`.
It needs nothing from outside but the blocks under the labels it owes. -/
structure Laid (type : MachineType) (owed : List Nat) (low : Nat) (s s' : BodyState)
    (p : Option Site) (x : List Spot) (q : Option Site) : Prop extends s.Traced s' p x q where
  fresh : ∀ l, Opens x l → low ≤ l
  grounded : Spot.Grounded p x
  supported : ∀ whole, x ⊆ whole → (∀ l ∈ owed, Spot.entry l ∈ whole) →
    Spot.AllSupported type s'.builder.base x whole

namespace Laid

theorem refl (hs : s.Steady) (hp : s.Stands p) : Laid type owed low s s p [] p :=
  ⟨.refl hs hp, by simp [Opens], by simp [Spot.Grounded], fun _ _ _ => Spot.allSupported_nil⟩

theorem mono (h : Laid type owed low s s' p x q) (howed : owed ⊆ owed') (hlow : low' ≤ low) :
    Laid type owed' low' s s' p x q where
  toTraced := h.toTraced
  fresh l hl := Nat.le_trans hlow (h.fresh l hl)
  grounded := h.grounded
  supported whole hx hentry := h.supported whole hx fun l hl => hentry l (howed hl)

theorem append (h : Laid type owed low s s' p x q) (h' : Laid type owed low s' s'' q y r) :
    Laid type owed low s s'' p (x ++ y) r where
  toTraced := h.toTraced.append h'.toTraced
  fresh l hl := (Spot.opens_append.mp hl).elim (h.fresh l) (h'.fresh l)
  grounded := h.grounded.append h.threads h'.grounded
  supported whole hxy howed := by
    obtain ⟨hx, hy⟩ := List.append_subset.mp hxy
    exact ((h.supported whole hx howed).mono h'.base (List.Subset.refl _)).append
      (h'.supported whole hy howed)

/-- What has all the blocks that it owes owes nothing. -/
theorem settle (h : Laid type owed low s s' p x q) (howed : ∀ l ∈ owed, Spot.entry l ∈ x) :
    Laid type [] low s s' p x q where
  toTraced := h.toTraced
  fresh := h.fresh
  grounded := h.grounded
  supported whole hx _ := h.supported whole hx fun l hl => hx (howed l hl)

/-- Labels below those that are laid out stay unused. -/
theorem unused (h : Laid type owed low s s' p x q) (hl : s.Unused l) (hlow : l < low) :
    s'.Unused l := by
  refine hl.writes h.writes fun hmem => ?_
  exact absurd (h.fresh l hmem) (Nat.not_le.mpr hlow)

theorem le_next (h : Laid type owed low s s' p x q) {n : Nat} (hn : n ≤ s.builder.nextLabel) :
    n ≤ s'.builder.nextLabel := Nat.le_trans hn h.writes.builder.labels

end Laid

/-- What writes nothing and stays in its block lays out nothing. -/
theorem Laid.of_writes (h : s.Writes s' []) (hhere : s'.builder.here = s.builder.here)
    (hterm : s'.builder.isTerminated = s.builder.isTerminated)
    (hp : s.Stands p) : Laid type owed low s s' p [] p where
  writes := h
  threads := by cases p <;> rfl
  stands := by
    cases p with
    | none => simpa [Stands, StandsOpen, hterm] using hp
    | some p => simpa [Stands, StandsOpen, hterm, hhere] using hp
  base := h.builder.base
  fresh := by simp [Opens]
  grounded := by simp [Spot.Grounded]
  supported _ _ _ := Spot.allSupported_nil

/-- The code of an expression is laid out. -/
theorem Emitted.laid (type : MachineType) (owed : List Nat) {place : Site} {avail' : Set Nat}
    (h : s.Emitted place.avail s' x avail') (hs : s.Steady) (hp : s.Stands (some place))
    (hlow : low ≤ s.builder.nextLabel) :
    ∃ q, q.avail = avail' ∧ Laid type owed low s s' (some place) x (some q) := by
  obtain ⟨front, hthreads⟩ := h.piece.threads place.isFront
  refine ⟨⟨s'.builder.here, avail', front⟩, rfl,
    ⟨⟨h.writes, ?_, ⟨h.isOpen, rfl⟩, h.base.ge⟩, fun l hl => ?_, h.piece.grounded place.isFront,
      fun whole hx _ => ?_⟩⟩
  · have hplace : place = ⟨s.builder.here, place.avail, place.isFront⟩ := by
      rw [← hp.2]
    rw [hplace]
    exact hthreads
  · obtain ⟨spot, hspot, hitem⟩ := List.mem_map.mp hl
    cases spot with
    | line => cases hitem
    | head l' avail sources =>
      obtain rfl : l' = l := by simpa [Spot.item] using hitem
      exact Nat.le_trans hlow (h.piece.head_bounds hs.here_lt hspot)
  · rw [h.base]
    exact (h.piece.supported hs.here_lt).mono subset_rfl hx

end BodyState

namespace Lower

open BodyState Spot

variable {s s' : BodyState} {q : Option Site} {p : Site} {l next low : Nat}
  {owed : List Nat} {type : MachineType}

/-- The place at the beginning of a block that expects nothing. -/
def atEntry (l : Nat) : Site := ⟨l, ∅, true⟩

/-- Leaving a block and opening another lays out code that owes the targets. -/
theorem Reaches.laid {α : Type} {action : Lower α} {a : α} {i : Instr}
    (h : Reaches action s a s' [.instr i, .label l] l next) (ho : s'.StandsOpen)
    (hi : i.isTerminator = true) (hlow : low ≤ l)
    (hsupported : ∀ whole, (∀ l ∈ owed, entry l ∈ whole) →
      Supported type s'.builder.base whole p.label p.avail i) :
    Laid type owed low s s' (some p) [.line p.label p.avail i, entry l] (some (atEntry l)) where
  writes := h.writes
  threads := by
    refine ⟨rfl, rfl, Instr.isAlloca_eq_false_of_isTerminator hi, ?_, ?_⟩
    · simp [Instr.isPhi_eq_false_of_isTerminator hi]
    · simp [Site.after, hi, entry, atEntry, Threads]
  stands := ⟨ho, h.here.symm⟩
  base := h.base.ge
  fresh := by simpa using hlow
  grounded := .of_empty (by simp +contextual [entry])
  supported whole _ howed := allSupported_line.mpr ⟨hsupported whole howed, supported_entry⟩

/-- Opening a block where none is open lays out code that owes nothing. -/
theorem Reaches.laid_entry {α : Type} {action : Lower α} {a : α}
    (h : Reaches action s a s' [.label l] l next) (ho : s'.StandsOpen) (hlow : low ≤ l) :
    Laid type owed low s s' none [entry l] (some (atEntry l)) where
  writes := h.writes
  threads := rfl
  stands := ⟨ho, h.here.symm⟩
  base := h.base.ge
  fresh := by simpa using hlow
  grounded := .of_empty (by simp +contextual [entry])
  supported _ _ _ := supported_entry

/-- Jumping to a block and opening one lays out code that owes the target. -/
theorem exists_jumpTo (type : MachineType) (hs : s.Steady) (hp : s.Stands (some p)) {target : Nat}
    (htarget : target ∈ owed) (hl : s.Unused l) (hlow : low ≤ l) (hint : String) :
    ∃ s', Reaches (jumpTo target l hint) s () s' [.instr (.jump target), .label l] l
        s.builder.nextLabel ∧ s'.StandsOpen ∧
      Laid type owed low s s' (some p) [.line p.label p.avail (.jump target), entry l]
        (some (atEntry l)) := by
  obtain ⟨s', h, ho⟩ := reaches_jumpTo hs hp.1 target hl hint
  exact ⟨s', h, ho, h.laid ho rfl hlow fun whole howed => supported_jump (howed _ htarget)⟩

/-- Branching and opening a block lays out code that owes both targets. -/
theorem exists_branchTo (type : MachineType) (hs : s.Steady) (hp : s.Stands (some p)) {v : Value}
    (hv : v.temps ⊆ p.avail ∪ s.builder.base) {ifTrue ifFalse : Nat} (htrue : ifTrue ∈ owed)
    (hfalse : ifFalse ∈ owed) (hl : s.Unused l) (hlow : low ≤ l) (hint : String) :
    ∃ s', Reaches (branchTo v ifTrue ifFalse l hint) s () s'
        [.instr (.branch v ifTrue ifFalse), .label l] l s.builder.nextLabel ∧ s'.StandsOpen ∧
      Laid type owed low s s' (some p) [.line p.label p.avail (.branch v ifTrue ifFalse), entry l]
        (some (atEntry l)) := by
  obtain ⟨s', h, ho⟩ := reaches_branchTo hs hp.1 v ifTrue ifFalse hl hint
  rw [← h.base] at hv
  exact ⟨s', h, ho, h.laid ho rfl hlow fun whole howed =>
    supported_branch hv (howed _ htrue) (howed _ hfalse)⟩

/-- Going on to a new block from wherever the code stands lays out code that owes the
target. -/
theorem exists_proceedTo (type : MachineType) (hs : s.Steady) (hq : s.Stands q) {target : Nat}
    (htarget : target ∈ owed) (hl : s.Unused l) (hlow : low ≤ l) (hint : String) :
    ∃ s' x, Reaches (proceedTo target l hint) s () s' (closingLines s target ++ [.label l]) l
        s.builder.nextLabel ∧ s'.StandsOpen ∧
      Laid type owed low s s' q x (some (atEntry l)) ∧ entry l ∈ x ∧
      x.map Spot.item = closingLines s target ++ [.label l] := by
  obtain ⟨s', h, ho⟩ := reaches_proceedTo hs target hl hint
  cases q with
  | none =>
    have hlines : closingLines s target = [] := by
      rw [closingLines, if_pos (by simpa [Stands, StandsOpen] using hq)]
    have h' := h
    rw [hlines] at h'
    exact ⟨s', [entry l], h, ho, h'.laid_entry ho hlow, by simp, by simp [hlines, entry, item]⟩
  | some p =>
    have hlines : closingLines s target = [.instr (.jump target)] := by
      rw [closingLines, if_neg (by simp [show s.builder.isTerminated = false from hq.1])]
    have h' := h
    rw [hlines] at h'
    exact ⟨s', _, h, ho, h'.laid ho rfl hlow fun whole howed => supported_jump (howed _ htarget),
      by simp, by simp [hlines, entry, item]⟩

end Lower

end SsaLowering
