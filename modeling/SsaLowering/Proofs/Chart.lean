import SsaLowering.Proofs.Behavior
import SsaLowering.Proofs.Piece

/-!
# Walks through charts

A chart is a written-out function with marks between its lines. A mark says that an action of the
source has been performed, or that a condition was evaluated and is decided by the branch
behind the mark. A walk follows the control flow of the lines, whatever the values are, and
performs the actions that are marked on its way.
-/

namespace SsaLowering

/-- A line of a function, or a mark between lines. -/
inductive Entry where
  | line (item : Item)
  | done (action : SourceAction)
  | tested (condition : Term)

namespace Entry

def item? : Entry → Option Item
  | .line item => some item
  | _ => none

end Entry

/-- Lines with marks between them. -/
abbrev Chart := List Entry

namespace Chart

/-- The lines of a chart. -/
def items (w : Chart) : List Item := w.filterMap Entry.item?

/-- Lines without marks. -/
def ofItems (x : List Item) : Chart := x.map .line

/-- The labels of the blocks in a chart. -/
def labels (w : Chart) : List Nat := w.items.filterMap Item.label?

/-- What stands in a chart behind a label, the first time that it occurs. -/
def behind? : Chart → Nat → Option Chart
  | [], _ => none
  | .line (.label k) :: rest, l => if k = l then some rest else behind? rest l
  | _ :: rest, l => behind? rest l

/-- The next line leaves the function. -/
def Returns (p : Chart) : Prop := ∃ result rest, p = .line (.instr (.ret result)) :: rest

/-- A walk of some steps through a chart, with the actions that it performs. Places are what
is ahead of them. There is no step over a label: a block is entered by a jump only. -/
inductive Walk (w : Chart) : Nat → Chart → List SourceAction → Chart → Prop
  | stay (p : Chart) : Walk w 0 p [] p
  | pass {n : Nat} {i : Instr} {rest q : Chart} {t : List SourceAction} :
    i.isTerminator = false → Walk w n rest t q → Walk w (n + 1) (.line (.instr i) :: rest) t q
  | done {n : Nat} {a : SourceAction} {rest q : Chart} {t : List SourceAction} :
    Walk w n rest t q → Walk w (n + 1) (.done a :: rest) (a :: t) q
  | leave {n l : Nat} {i : Instr} {rest p q : Chart} {t : List SourceAction} :
    l ∈ i.successors → w.behind? l = some p → Walk w n p t q →
    Walk w (n + 1) (.line (.instr i) :: rest) t q
  | test {n ifTrue ifFalse : Nat} {condition : Term} {v : Value} {rest p q : Chart}
    {t : List SourceAction} (outcome : Bool) :
    w.behind? (if outcome then ifTrue else ifFalse) = some p → Walk w n p t q →
    Walk w (n + 1) (.tested condition :: .line (.instr (.branch v ifTrue ifFalse)) :: rest)
      (.test condition outcome :: t) q

variable {w p q r : Chart} {n m l : Nat} {t u : List SourceAction}

@[simp] theorem items_nil : items [] = [] := rfl

@[simp] theorem items_line {item : Item} : items (.line item :: p) = item :: items p := rfl

@[simp] theorem items_done {a : SourceAction} : items (.done a :: p) = items p := rfl

@[simp] theorem items_tested {c : Term} : items (.tested c :: p) = items p := rfl

@[simp] theorem items_append : items (p ++ q) = items p ++ items q := by simp [items]

@[simp] theorem items_ofItems {x : List Item} : items (ofItems x) = x := by
  simp [items, ofItems, List.filterMap_map, Function.comp_def, Entry.item?]

@[simp] theorem ofItems_nil : ofItems [] = [] := rfl

@[simp] theorem ofItems_cons {item : Item} {x : List Item} :
    ofItems (item :: x) = .line item :: ofItems x := rfl

@[simp] theorem ofItems_append {x y : List Item} : ofItems (x ++ y) = ofItems x ++ ofItems y := by
  simp [ofItems]

/-- With distinct labels, what stands behind a label is found there. -/
theorem behind?_eq (hw : w.labels.Nodup) (h : w = p ++ .line (.label l) :: q) :
    w.behind? l = some q := by
  subst h
  induction p with
  | nil => simp [behind?]
  | cons entry p ih =>
    cases entry with
    | done => exact ih hw
    | tested => exact ih hw
    | line item =>
      cases item with
      | instr i => exact ih hw
      | label k =>
        have hne : k ≠ l := by
          rintro rfl
          simp [labels, Item.label?] at hw
        rw [List.cons_append, behind?, if_neg hne]
        apply ih
        simp only [labels, List.cons_append, items_line] at hw
        rw [List.filterMap_cons_some (show Item.label? (.label k) = some k from rfl)] at hw
        exact (List.nodup_cons.mp hw).2

namespace Walk

theorem trans (h : Walk w n p t q) (h' : Walk w m q u r) : Walk w (n + m) p (t ++ u) r := by
  induction h with
  | stay => simpa using h'
  | pass hi _ ih =>
    rw [Nat.add_right_comm]
    exact .pass hi (ih h')
  | done _ ih =>
    rw [Nat.add_right_comm]
    exact .done (ih h')
  | leave hl hp _ ih =>
    rw [Nat.add_right_comm]
    exact .leave hl hp (ih h')
  | test outcome hp _ ih =>
    rw [Nat.add_right_comm]
    exact .test outcome hp (ih h')

end Walk

/-- From one place, the walks perform the runs of a behavior, and go on from another place when
the behavior has ended. -/
structure Realises (w p : Chart) (B : Behavior) (q : Chart) : Prop where
  sound : ∀ n t r, Walk w n p t r →
    ((∃ x, B t x) ∧ (r.Returns → B t .returned)) ∨
      ∃ u v m, t = u ++ v ∧ m ≤ n ∧ B u .ended ∧ Walk w m q v r
  complete : ∀ t x, B t x → ∃ n r, Walk w n p t r ∧ (x = .returned → r.Returns) ∧
    (x = .ended → r = q)

/-- The next line leads to another place. -/
def Leads (w p q : Chart) : Prop :=
  ∃ target rest, p = .line (.instr (.jump target)) :: rest ∧ w.behind? target = some q

/-- The next branch is marked and leads to one of two places. -/
def Decides (w p : Chart) (condition : Term) (q r : Chart) : Prop :=
  ∃ v ifTrue ifFalse rest,
    p = .tested condition :: .line (.instr (.branch v ifTrue ifFalse)) :: rest ∧
    w.behind? ifTrue = some q ∧ w.behind? ifFalse = some r

/-- A walk that begins with a jump has not begun or goes on from the target. -/
theorem Leads.inv (h : Leads w p q) (hwalk : Walk w n p t r) :
    (t = [] ∧ r = p) ∨ ∃ m, m < n ∧ Walk w m q t r := by
  obtain ⟨target, rest, rfl, hq⟩ := h
  cases hwalk with
  | stay => exact .inl ⟨rfl, rfl⟩
  | pass hi => cases hi
  | leave hl hp hrest =>
    obtain rfl : _ = target := by simpa [Instr.successors] using hl
    obtain rfl := Option.some.inj (hp.symm.trans hq)
    exact .inr ⟨_, Nat.lt_succ_self _, hrest⟩

theorem Leads.walk (h : Leads w p q) (hwalk : Walk w n q t r) : Walk w (n + 1) p t r := by
  obtain ⟨target, rest, rfl, hq⟩ := h
  exact .leave (by simp [Instr.successors]) hq hwalk

theorem Leads.not_returns (h : Leads w p q) : ¬ p.Returns := by
  obtain ⟨target, rest, rfl, -⟩ := h
  rintro ⟨result, rest', heq⟩
  cases heq

/-- A walk that begins with a marked branch has not begun or performs the test. -/
theorem Decides.inv {c : Term} {s : Chart} (h : Decides w p c q r) (hwalk : Walk w n p t s) :
    (t = [] ∧ s = p) ∨ ∃ m outcome v, m < n ∧ t = .test c outcome :: v ∧
      Walk w m (if outcome then q else r) v s := by
  obtain ⟨v, ifTrue, ifFalse, rest, rfl, hq, hr⟩ := h
  cases hwalk with
  | stay => exact .inl ⟨rfl, rfl⟩
  | test outcome hp hrest =>
    refine .inr ⟨_, outcome, _, Nat.lt_succ_self _, rfl, ?_⟩
    cases outcome with
    | true => rwa [if_pos rfl, ← Option.some.inj (hp.symm.trans hq)]
    | false => rwa [if_neg (by simp), ← Option.some.inj (hp.symm.trans hr)]

theorem Decides.walk {c : Term} {s : Chart} (h : Decides w p c q r) (outcome : Bool)
    (hwalk : Walk w n (if outcome then q else r) t s) :
    Walk w (n + 1) p (.test c outcome :: t) s := by
  obtain ⟨v, ifTrue, ifFalse, rest, rfl, hq, hr⟩ := h
  refine .test outcome ?_ hwalk
  cases outcome with
  | true => simpa using hq
  | false => simpa using hr

theorem Decides.not_returns {c : Term} (h : Decides w p c q r) : ¬ p.Returns := by
  obtain ⟨v, ifTrue, ifFalse, rest, rfl, -⟩ := h
  rintro ⟨result, rest', heq⟩
  cases heq

open Behavior

namespace Realises

variable {B C : Behavior}

theorem skip (w p : Chart) : Realises w p Skip p where
  sound n t r h := .inr ⟨[], t, n, rfl, Nat.le_refl n, .ended, h⟩
  complete t x h := by
    cases h with
    | underway => exact ⟨0, p, .stay p, by simp, by simp⟩
    | ended => exact ⟨0, p, .stay p, by simp, by simp⟩

/-- Every behavior that is realised can begin. -/
theorem begins (h : Realises w p B q) : ∃ x, B [] x := by
  rcases h.sound 0 [] p (.stay p) with ⟨hx, -⟩ | ⟨u, v, m, huv, -, hu, -⟩
  · exact hx
  · obtain ⟨rfl, rfl⟩ := List.append_eq_nil_iff.mp huv.symm
    exact ⟨_, hu⟩

theorem seq (h : Realises w p B q) (h' : Realises w q C r) : Realises w p (Seq B C) r where
  sound n t s hwalk := by
    rcases h.sound n t s hwalk with ⟨⟨x, hB⟩, hreturns⟩ | ⟨u, v, m, rfl, hm, hu, hrest⟩
    · refine .inl ⟨?_, fun hs => .first (hreturns hs) (by simp)⟩
      by_cases hx : x = .ended
      · obtain ⟨y, hC⟩ := h'.begins
        exact ⟨y, by simpa using Seq.second (hx ▸ hB) hC⟩
      · exact ⟨x, .first hB hx⟩
    · rcases h'.sound m v s hrest with ⟨⟨x, hC⟩, hreturns⟩ | ⟨v, v', k, rfl, hk, hv, hrest'⟩
      · exact .inl ⟨⟨x, .second hu hC⟩, fun hs => .second hu (hreturns hs)⟩
      · exact .inr ⟨u ++ v, v', k, by simp, Nat.le_trans hk hm, .second hu hv, hrest'⟩
  complete t x hseq := by
    cases hseq with
    | first hB hx =>
      obtain ⟨n, s, hwalk, hreturns, -⟩ := h.complete t x hB
      exact ⟨n, s, hwalk, hreturns, fun heq => absurd heq hx⟩
    | second hB hC =>
      obtain ⟨n, s, hwalk, -, hs⟩ := h.complete _ _ hB
      obtain ⟨m, s', hwalk', hreturns, hs'⟩ := h'.complete _ x hC
      rw [hs rfl] at hwalk
      exact ⟨n + m, s', hwalk.trans hwalk', hreturns, hs'⟩

/-- What follows a behavior that never ends does not matter. -/
theorem seq_of_neverEnds (h : Realises w p B q) (hB : B.NeverEnds) (C : Behavior) (r : Chart) :
    Realises w p (Seq B C) r where
  sound n t s hwalk := by
    rcases h.sound n t s hwalk with ⟨⟨x, hfirst⟩, hreturns⟩ | ⟨u, v, m, -, -, hu, -⟩
    · exact .inl ⟨⟨x, .first hfirst fun hx => hB t (hx ▸ hfirst)⟩,
        fun hs => .first (hreturns hs) (by simp)⟩
    · exact absurd hu (hB u)
  complete t x hx := by
    cases hx with
    | first hB' hx =>
      obtain ⟨n, s, hwalk, hreturns, -⟩ := h.complete t x hB'
      exact ⟨n, s, hwalk, hreturns, fun heq => absurd heq hx⟩
    | second hu => exact absurd hu (hB _)

/-- Where a behavior would end does not matter if it never does. -/
theorem of_neverEnds (h : Realises w p B q) (hB : B.NeverEnds) (r : Chart) :
    Realises w p B r where
  sound n t s hwalk := by
    rcases h.sound n t s hwalk with hfirst | ⟨u, v, m, -, -, hu, -⟩
    · exact .inl hfirst
    · exact absurd hu (hB u)
  complete t x hx := by
    obtain ⟨n, s, hwalk, hreturns, -⟩ := h.complete t x hx
    exact ⟨n, s, hwalk, hreturns, fun heq => absurd (heq ▸ hx) (hB t)⟩

/-- Lines without actions can follow. -/
theorem append_skip (h : Realises w p B q) (h' : Realises w q Skip r) : Realises w p B r where
  sound n t s hwalk := by
    rcases h.sound n t s hwalk with hfirst | ⟨u, v, m, rfl, hm, hu, hrest⟩
    · exact .inl hfirst
    · rcases h'.sound m v s hrest with ⟨⟨x, hx⟩, hreturns⟩ | ⟨v, v', k, rfl, hk, hv, hrest'⟩
      · obtain rfl : v = [] := by cases hx <;> rfl
        exact .inl ⟨⟨.ended, by simpa using hu⟩, fun hs => absurd (hreturns hs) (by rintro ⟨⟩)⟩
      · obtain rfl : v = [] := by cases hv; rfl
        exact .inr ⟨u, v', k, rfl, Nat.le_trans hk hm, hu, hrest'⟩
  complete t x hx := by
    obtain ⟨n, s, hwalk, hreturns, hs⟩ := h.complete t x hx
    by_cases hend : x = .ended
    · obtain ⟨m, s', hwalk', -, hs'⟩ := h'.complete [] .ended .ended
      rw [hs hend] at hwalk
      refine ⟨n + m, s', by simpa using hwalk.trans hwalk', fun heq => ?_, fun _ => hs' rfl⟩
      rw [hend] at heq
      cases heq
    · exact ⟨n, s, hwalk, hreturns, fun heq => absurd heq hend⟩

/-- Lines without actions can come before. -/
theorem skip_append (h : Realises w p Skip q) (h' : Realises w q B r) : Realises w p B r where
  sound n t s hwalk := by
    rcases h.sound n t s hwalk with ⟨⟨x, hx⟩, hreturns⟩ | ⟨u, v, m, rfl, hm, hu, hrest⟩
    · obtain rfl : t = [] := by cases hx <;> rfl
      exact .inl ⟨h'.begins, fun hs => absurd (hreturns hs) (by rintro ⟨⟩)⟩
    · obtain rfl : u = [] := by cases hu; rfl
      rcases h'.sound m v s hrest with hfirst | ⟨v, v', k, rfl, hk, hv, hrest'⟩
      · exact .inl hfirst
      · exact .inr ⟨v, v', k, rfl, Nat.le_trans hk hm, hv, hrest'⟩
  complete t x hx := by
    obtain ⟨n, s, hwalk, -, hs⟩ := h.complete [] .ended .ended
    obtain ⟨m, s', hwalk', hend⟩ := h'.complete t x hx
    rw [hs rfl] at hwalk
    exact ⟨n + m, s', by simpa using hwalk.trans hwalk', hend⟩

/-- A line that is no terminator is passed. -/
theorem pass {i : Instr} (hi : i.isTerminator = false) :
    Realises w (.line (.instr i) :: p) Skip p where
  sound n t r hwalk := by
    cases hwalk with
    | stay =>
      refine .inl ⟨⟨.underway, .underway⟩, ?_⟩
      rintro ⟨result, rest, heq⟩
      cases heq
      cases hi
    | pass _ hrest => exact .inr ⟨[], t, _, rfl, Nat.le_succ _, .ended, hrest⟩
    | leave hl => simp [Instr.successors_eq_nil hi] at hl
  complete t x h := by
    cases h with
    | underway => exact ⟨0, _, .stay _, by simp, by simp⟩
    | ended => exact ⟨1, p, .pass hi (.stay p), by simp, by simp⟩

/-- A mark is passed by performing its action. -/
theorem act (w p : Chart) (a : SourceAction) : Realises w (.done a :: p) (Act a) p where
  sound n t r hwalk := by
    cases hwalk with
    | stay =>
      refine .inl ⟨⟨.underway, .underway⟩, ?_⟩
      rintro ⟨result, rest, heq⟩
      cases heq
    | done hrest => exact .inr ⟨[a], _, _, rfl, Nat.le_succ _, .ended, hrest⟩
  complete t x h := by
    cases h with
    | underway => exact ⟨0, _, .stay _, by simp, by simp⟩
    | ended => exact ⟨1, p, .done (.stay p), by simp, by simp⟩

/-- A return leaves the function. -/
theorem ret (w p q : Chart) (result : Option (MachineType × Value)) :
    Realises w (.line (.instr (.ret result)) :: p) Leave q where
  sound n t r hwalk := by
    cases hwalk with
    | stay => exact .inl ⟨⟨.returned, .returned⟩, fun _ => .returned⟩
    | pass hi => cases hi
    | leave hl => simp [Instr.successors] at hl
  complete t x h := by
    cases h
    exact ⟨0, _, .stay _, fun _ => ⟨result, p, rfl⟩, by simp⟩

/-- A jump goes on elsewhere. -/
theorem of_leads (h : Leads w p q) : Realises w p Skip q where
  sound n t r hwalk := by
    rcases h.inv hwalk with ⟨rfl, rfl⟩ | ⟨m, hm, hrest⟩
    · exact .inl ⟨⟨.underway, .underway⟩, fun hr => absurd hr h.not_returns⟩
    · exact .inr ⟨[], t, m, rfl, Nat.le_of_lt hm, .ended, hrest⟩
  complete t x hx := by
    cases hx with
    | underway => exact ⟨0, p, .stay p, by simp, by simp⟩
    | ended => exact ⟨1, q, h.walk (.stay q), by simp, by simp⟩

/-- A marked branch goes on in one of two ways. -/
theorem choice {c : Term} {first second : Chart} (h : Decides w p c first second)
    (hB : Realises w first B r) (hC : Realises w second C r) :
    Realises w p (Choice c B C) r where
  sound n t s hwalk := by
    rcases h.inv hwalk with ⟨rfl, rfl⟩ | ⟨m, outcome, v, hm, rfl, hrest⟩
    · exact .inl ⟨⟨.underway, .underway⟩, fun hr => absurd hr h.not_returns⟩
    · cases outcome with
      | true =>
        rcases hB.sound m v s (by simpa using hrest) with
          ⟨⟨x, hrun⟩, hreturns⟩ | ⟨u, v, k, rfl, hk, hu, hrest'⟩
        · exact .inl ⟨⟨x, .holds hrun⟩, fun hs => .holds (hreturns hs)⟩
        · exact .inr ⟨_ :: u, v, k, rfl, by omega, .holds hu, hrest'⟩
      | false =>
        rcases hC.sound m v s (by simpa using hrest) with
          ⟨⟨x, hrun⟩, hreturns⟩ | ⟨u, v, k, rfl, hk, hu, hrest'⟩
        · exact .inl ⟨⟨x, .fails hrun⟩, fun hs => .fails (hreturns hs)⟩
        · exact .inr ⟨_ :: u, v, k, rfl, by omega, .fails hu, hrest'⟩
  complete t x hx := by
    cases hx with
    | underway => exact ⟨0, p, .stay p, by simp, by simp⟩
    | holds hrun =>
      obtain ⟨n, s, hwalk, hend⟩ := hB.complete _ x hrun
      exact ⟨n + 1, s, h.walk true (by simpa using hwalk), hend⟩
    | fails hrun =>
      obtain ⟨n, s, hwalk, hend⟩ := hC.complete _ x hrun
      exact ⟨n + 1, s, h.walk false (by simpa using hwalk), hend⟩

end Realises

/-! ## Loops -/

/-- One place leads into a round of a loop and out of it. -/
def Enters (w p : Chart) : Option Term → Chart → Chart → Prop
  | none, body, _ => Leads w p body
  | some c, body, out => ∃ s, Realises w p Skip s ∧ Decides w s c body out

variable {condition : Option Term} {body out back : Chart} {round : Behavior}

/-- A walk from the head of a loop is before its test, in a round, or out of the loop. -/
theorem Enters.inv (h : Enters w p condition body out) (hwalk : Walk w n p t r) :
    (t = [] ∧ ¬ r.Returns) ∨
    (∃ m v, m ≤ n ∧ t = entering condition ++ v ∧ Walk w m body v r) ∨
    ∃ c m v, condition = some c ∧ m ≤ n ∧ t = .test c false :: v ∧ Walk w m out v r := by
  cases condition with
  | none =>
    rcases Leads.inv h hwalk with ⟨rfl, rfl⟩ | ⟨m, hm, hrest⟩
    · exact .inl ⟨rfl, Leads.not_returns h⟩
    · exact .inr (.inl ⟨m, t, Nat.le_of_lt hm, rfl, hrest⟩)
  | some c =>
    obtain ⟨s, hskip, hdecides⟩ := h
    rcases hskip.sound n t r hwalk with ⟨⟨x, hx⟩, hreturns⟩ | ⟨u, v, m, rfl, hm, hu, hrest⟩
    · obtain rfl : t = [] := by cases hx <;> rfl
      exact .inl ⟨rfl, fun hr => absurd (hreturns hr) (by rintro ⟨⟩)⟩
    · obtain rfl : u = [] := by cases hu; rfl
      rcases hdecides.inv hrest with ⟨rfl, rfl⟩ | ⟨k, outcome, v, hk, rfl, hrest'⟩
      · exact .inl ⟨rfl, hdecides.not_returns⟩
      · cases outcome with
        | true => exact .inr (.inl ⟨k, v, by omega, rfl, by simpa using hrest'⟩)
        | false => exact .inr (.inr ⟨c, k, v, rfl, by omega, rfl, by simpa using hrest'⟩)

theorem Enters.walk_body (h : Enters w p condition body out) (hwalk : Walk w n body t r) :
    ∃ m, Walk w m p (entering condition ++ t) r := by
  cases condition with
  | none => exact ⟨n + 1, Leads.walk h hwalk⟩
  | some c =>
    obtain ⟨s, hskip, hdecides⟩ := h
    obtain ⟨m, s', hwalk', -, hs⟩ := hskip.complete [] .ended .ended
    rw [hs rfl] at hwalk'
    exact ⟨m + (n + 1), hwalk'.trans (hdecides.walk true (by simpa using hwalk))⟩

theorem Enters.walk_out {c : Term} (h : Enters w p (some c) body out)
    (hwalk : Walk w n out t r) : ∃ m, Walk w m p (.test c false :: t) r := by
  obtain ⟨s, hskip, hdecides⟩ := h
  obtain ⟨m, s', hwalk', -, hs⟩ := hskip.complete [] .ended .ended
  rw [hs rfl] at hwalk'
  exact ⟨m + (n + 1), hwalk'.trans (hdecides.walk false (by simpa using hwalk))⟩

namespace Realises

/-- A round that leads back to the head of its loop. The walks are cut into rounds by induction
on their steps, of which every way back takes one. -/
theorem loop (h : Enters w p condition body out) (hround : Realises w body round back)
    (hback : ∀ t, round t .ended → Leads w back p) :
    Realises w p (Loop condition round) out where
  sound n := by
    induction n using Nat.strong_induction_on with
    | h n ih =>
      intro t r hwalk
      rcases h.inv hwalk with ⟨rfl, hr⟩ | ⟨m, v, hm, rfl, hrest⟩ | ⟨c, m, v, rfl, hm, rfl, hrest⟩
      · exact .inl ⟨⟨_, .underway⟩, fun hr' => absurd hr' hr⟩
      · rcases hround.sound m v r hrest with ⟨⟨x, hx⟩, hreturns⟩ | ⟨u, v, k, rfl, hk, hu, hrest'⟩
        · refine .inl ⟨?_, fun hr => .last (hreturns hr) (by simp)⟩
          by_cases hend : x = .ended
          · exact ⟨.underway, by simpa using Loop.again (hend ▸ hx) .underway⟩
          · exact ⟨x, .last hx hend⟩
        · rcases (hback u hu).inv hrest' with ⟨rfl, rfl⟩ | ⟨j, hj, hagain⟩
          · exact .inl ⟨⟨.underway, .again hu .underway⟩,
              fun hr => absurd hr (hback u hu).not_returns⟩
          · rcases ih j (by omega) v r hagain with
              ⟨⟨x, hx⟩, hreturns⟩ | ⟨u', v', i, rfl, hi, hu', hrest''⟩
            · exact .inl ⟨⟨x, .again hu hx⟩, fun hr => .again hu (hreturns hr)⟩
            · exact .inr ⟨_, v', i, by simp, by omega, .again hu hu', hrest''⟩
      · exact .inr ⟨[.test c false], v, m, rfl, hm, .fails rfl, hrest⟩
  complete t x hx := by
    induction hx with
    | underway => exact ⟨0, p, .stay p, by simp, by simp⟩
    | fails hc =>
      subst hc
      obtain ⟨m, hwalk⟩ := h.walk_out (.stay out)
      exact ⟨m, out, hwalk, by simp, by simp⟩
    | last hx hend =>
      obtain ⟨n, s, hwalk, hreturns, -⟩ := hround.complete _ _ hx
      obtain ⟨m, hwalk'⟩ := h.walk_body hwalk
      exact ⟨m, s, hwalk', hreturns, fun heq => absurd heq hend⟩
    | again hu _ ih =>
      obtain ⟨n, s, hwalk, -, hs⟩ := hround.complete _ _ hu
      rw [hs rfl] at hwalk
      obtain ⟨m, s', hwalk', hend⟩ := ih
      obtain ⟨k, hall⟩ := h.walk_body (hwalk.trans ((hback _ hu).walk hwalk'))
      exact ⟨k, s', hall, hend⟩

/-! ## The code of expressions -/

/-- An unmarked branch both sides of which go on to the same place. -/
theorem fork {v : Value} {ifTrue ifFalse : Nat} {first second : Chart}
    (htrue : w.behind? ifTrue = some first) (hfalse : w.behind? ifFalse = some second)
    (h : Realises w first Skip q) (h' : Realises w second Skip q) :
    Realises w (.line (.instr (.branch v ifTrue ifFalse)) :: p) Skip q where
  sound n t r hwalk := by
    cases hwalk with
    | stay =>
      refine .inl ⟨⟨.underway, .underway⟩, ?_⟩
      rintro ⟨result, rest, heq⟩
      cases heq
    | pass hi => cases hi
    | @leave n l _ _ place _ _ hl hp hrest =>
      have hplace : place = first ∨ place = second := by
        simp only [Instr.successors, List.mem_cons, List.not_mem_nil, or_false] at hl
        rcases hl with rfl | rfl
        · exact .inl (Option.some.inj (hp.symm.trans htrue))
        · exact .inr (Option.some.inj (hp.symm.trans hfalse))
      rcases hplace with rfl | rfl
      · rcases h.sound _ t r hrest with hfirst | ⟨u, v, m, rfl, hm, hu, hwalk⟩
        · exact .inl hfirst
        · exact .inr ⟨u, v, m, rfl, Nat.le_succ_of_le hm, hu, hwalk⟩
      · rcases h'.sound _ t r hrest with hfirst | ⟨u, v, m, rfl, hm, hu, hwalk⟩
        · exact .inl hfirst
        · exact .inr ⟨u, v, m, rfl, Nat.le_succ_of_le hm, hu, hwalk⟩
  complete t x hx := by
    obtain ⟨n, s, hwalk, hend⟩ := h.complete t x hx
    exact ⟨n + 1, s, .leave (by simp [Instr.successors]) htrue hwalk, hend⟩

/-- Instructions that are no terminators are passed one after the other. -/
theorem straight {x : List Item} (hx : ∀ item ∈ x, ∃ i, item = .instr i ∧ i.isTerminator = false) :
    Realises w (ofItems x ++ p) Skip p := by
  induction x with
  | nil => exact skip w p
  | cons item x ih =>
    obtain ⟨i, rfl, hi⟩ := hx item (by simp)
    exact (pass hi).append_skip (ih fun item hmem => hx item (by simp [hmem]))

/-- The code of a diamond is left at its end if the code of its inner way is. -/
theorem diamond {c d : Cursor} {v : Value} {ifTrue ifFalse : Nat} {x : List Spot}
    {pre post : Chart} (hw : w.labels.Nodup) (hfork : IsFork c ifTrue ifFalse)
    (hW : w = pre ++ (ofItems ((SsaLowering.diamond c v ifTrue ifFalse x d).map Spot.item) ++ post))
    (hx : ∀ pre' post', w = pre' ++ (ofItems (x.map Spot.item) ++ post') →
      Realises w (ofItems (x.map Spot.item) ++ post') Skip post') :
    Realises w (ofItems ((SsaLowering.diamond c v ifTrue ifFalse x d).map Spot.item) ++ post)
      Skip post := by
  let jump : Entry := .line (.instr (.jump (c.next + 1)))
  let head : Chart := .line (.instr (.branch v ifTrue ifFalse)) :: .line (.label c.next) ::
    ofItems (x.map Spot.item)
  have hW' : w = pre ++ (head ++ jump :: .line (.label (c.next + 1)) :: post) := by
    simpa [SsaLowering.diamond, Spot.item, head, jump] using hW
  have hinner : w.behind? c.next =
      some (ofItems (x.map Spot.item) ++ jump :: .line (.label (c.next + 1)) :: post) :=
    behind?_eq (p := pre ++ [.line (.instr (.branch v ifTrue ifFalse))]) hw
      (by simpa [head] using hW')
  have hmerge : w.behind? (c.next + 1) = some post :=
    behind?_eq (p := pre ++ (head ++ [jump])) hw (by simpa using hW')
  have hway : Realises w (ofItems (x.map Spot.item) ++ jump :: .line (.label (c.next + 1)) :: post)
      Skip post := by
    refine (hx (pre ++ [.line (.instr (.branch v ifTrue ifFalse)), .line (.label c.next)]) _
      (by simpa [head] using hW')).append_skip (of_leads ⟨c.next + 1, _, rfl, hmerge⟩)
  have hall : Realises w (head ++ jump :: .line (.label (c.next + 1)) :: post) Skip post := by
    rcases hfork with ⟨rfl, rfl⟩ | ⟨rfl, rfl⟩
    · exact fork hinner hmerge hway (skip w post)
    · exact fork hmerge hinner (skip w post) hway
  simpa [SsaLowering.diamond, Spot.item, head, jump] using hall

/-- The code of an expression is entered at its beginning and left at its end. -/
theorem piece {base : Set Nat} {c d : Cursor} {x : List Spot} (h : Piece base c x d)
    (pre : Chart) {post : Chart} (hw : w.labels.Nodup)
    (hW : w = pre ++ (ofItems (x.map Spot.item) ++ post)) :
    Realises w (ofItems (x.map Spot.item) ++ post) Skip post := by
  induction h generalizing pre post with
  | nil => exact skip w post
  | @append c d e x y _ _ ihx ihy =>
    rw [List.map_append, ofItems_append, List.append_assoc] at hW ⊢
    exact (ihx pre hW).append_skip (ihy (pre ++ ofItems (x.map Spot.item)) (by simpa using hW))
  | plain hi =>
    obtain ⟨hterm, -, -⟩ := Instr.isPlain_iff.mp hi
    exact pass hterm
  | abandoned _ hfork _ ih => exact diamond hw hfork hW fun pre' _ => ih pre'
  | @merged c d v short rhs ifTrue ifFalse result x type _ hfork _ _ _ ih =>
    rw [List.map_append, ofItems_append, List.append_assoc] at hW ⊢
    exact (diamond hw hfork hW fun pre' _ => ih pre').append_skip (pass rfl)

end Realises

end Chart

end SsaLowering
