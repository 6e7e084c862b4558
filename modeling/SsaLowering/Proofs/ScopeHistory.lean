import SsaLowering.Proofs.ExpressionCode
import SsaLowering.Proofs.FirstDeclarations
import Mathlib.Data.List.Induction
import Mathlib.Data.List.Sort

/-!
# The history of a scope

A scope serves one function after another. What it answers is decided by the calls since it was
last emptied: a name stands for its latest declaration, and a declaration is unused if nothing has
read it since. The same answers come from a table that keeps its entries in no particular order
and numbers the declarations instead.
-/

namespace SsaLowering

/-- A call of a scope with its arguments. -/
inductive ScopeCall where
  | declare (name : String) (binding : Binding)
  | read (name : String)
  | get (name : String)
  | clear
  | takeUnused
deriving DecidableEq

/-- What a call of a scope answers. -/
inductive ScopeAnswer where
  | done
  | found (binding : Option Binding)
  | unused (bindings : List (String × Binding))

namespace Scope

/-- The answer to a call, and the scope after it. -/
def perform (scope : Scope) : ScopeCall → ScopeAnswer × Scope
  | .declare name binding => (.done, scope.declare name binding)
  | .read name => (.found (scope.read name).1, (scope.read name).2)
  | .get name => (.found (scope.find? name), scope)
  | .clear => (.done, .empty)
  | .takeUnused => (.unused scope.unused, .empty)

/-- The scope after some calls. -/
def run (scope : Scope) (calls : List ScopeCall) : Scope :=
  calls.foldl (fun scope call => (scope.perform call).2) scope

/-- The answers to some calls, one after another. -/
def answers (scope : Scope) : List ScopeCall → List ScopeAnswer
  | [] => []
  | call :: calls => (scope.perform call).1 :: (scope.perform call).2.answers calls

theorem run_append_singleton (scope : Scope) (calls : List ScopeCall) (call : ScopeCall) :
    scope.run (calls ++ [call]) = ((scope.run calls).perform call).2 := by
  simp [run]

end Scope

/-! ## Entries with numbers -/

/-- An entry of a scope, with a number that tells when it was declared. -/
structure NumberedEntry where
  number : Nat
  name : String
  binding : Binding

namespace NumberedEntry

/-- The entry as a scope keeps it. -/
def entry (e : NumberedEntry) : String × Binding := (e.name, e.binding)

/-- The entry after a read of a name, which marks it if the name is its own. -/
def marked (name : String) (e : NumberedEntry) : NumberedEntry :=
  { e with binding := { e.binding with used := e.binding.used || e.name == name } }

/-- Nothing has read the entry, and its name does not begin with an underscore. -/
def isUnread (e : NumberedEntry) : Bool := !e.binding.used && !e.name.startsWith "_"

end NumberedEntry

/-- The entries of a scope can be numbered in their order, and no two share a name. -/
structure Scope.Numbered (scope : Scope) (entries : List NumberedEntry) : Prop where
  entries_eq : entries.map (·.entry) = scope.entries
  increasing : entries.Pairwise fun e e' => e.number < e'.number
  names_nodup : (entries.map (·.name)).Nodup

namespace Scope.Numbered

variable {scope : Scope} {entries : List NumberedEntry}

protected theorem empty : Scope.empty.Numbered [] := ⟨rfl, .nil, List.nodup_nil⟩

/-- A declaration takes the entry of its name out and puts a new one at the end. -/
theorem declare (h : scope.Numbered entries) {i : Nat} (hlt : ∀ e ∈ entries, e.number < i)
    (name : String) (binding : Binding) :
    (scope.declare name binding).Numbered
      (entries.filter (·.name != name) ++ [⟨i, name, binding⟩]) := by
  refine ⟨?_, ?_, ?_⟩
  · rw [List.map_append, Scope.declare, ← h.entries_eq, List.filter_map]
    rfl
  · refine List.pairwise_append.mpr ⟨h.increasing.filter _, List.pairwise_singleton _ _, ?_⟩
    intro e he e' he'
    rw [List.mem_singleton.mp he']
    exact hlt e (List.mem_filter.mp he).1
  · rw [List.map_append, List.map_singleton, List.nodup_append]
    refine ⟨h.names_nodup.sublist (List.filter_sublist.map _), List.nodup_singleton _, ?_⟩
    rintro n hn m hm rfl
    obtain ⟨e, he, rfl⟩ := List.mem_map.mp hn
    simpa [List.mem_singleton.mp hm] using (List.mem_filter.mp he).2

/-- A read leaves the order as it is. -/
theorem markUsed (h : scope.Numbered entries) (name : String) :
    (scope.markUsed name).Numbered (entries.map (·.marked name)) := by
  refine ⟨?_, ?_, ?_⟩
  · simp only [Scope.markUsed, ← h.entries_eq, List.map_map]
    refine List.map_congr_left fun e _ => ?_
    simp only [Function.comp_apply, NumberedEntry.entry, NumberedEntry.marked]
    cases e.name == name <;> simp
  · exact List.pairwise_map.mpr h.increasing
  · rw [List.map_map]
    exact h.names_nodup

/-- What is found under a name is the one entry of that name. -/
theorem find?_eq_some_iff (h : scope.Numbered entries) {name : String} {b : Binding} :
    scope.find? name = some b ↔ ∃ i, ⟨i, name, b⟩ ∈ entries := by
  have hmem : (name, b) ∈ scope.entries ↔ ∃ i, ⟨i, name, b⟩ ∈ entries := by
    rw [← h.entries_eq, List.mem_map]
    exact ⟨fun ⟨⟨i, _, _⟩, he, heq⟩ => by cases heq; exact ⟨i, he⟩, fun ⟨i, he⟩ => ⟨_, he, rfl⟩⟩
  rw [← hmem]
  refine ⟨Scope.mem_of_find?, fun hb => ?_⟩
  have hnames : (scope.entries.map (·.1)).Nodup := by
    rw [← h.entries_eq, List.map_map]
    exact h.names_nodup
  obtain ⟨front, rest, hsplit⟩ := List.append_of_mem hb
  rw [hsplit, List.map_append, List.nodup_append] at hnames
  refine List.lookup_eq_some_iff.mpr ⟨front, rest, hsplit, fun p hp => ?_⟩
  have hne : p.1 ≠ name := hnames.2.2 p.1 (List.mem_map_of_mem hp) name (by simp)
  simpa using hne.symm

/-- Sorting the unread entries by their numbers restores the order of the scope. -/
theorem mergeSort_unread (h : scope.Numbered entries) {drained : List NumberedEntry}
    (hperm : drained.Perm entries) :
    (drained.filter NumberedEntry.isUnread).mergeSort (fun e e' => e.number ≤ e'.number) =
      entries.filter NumberedEntry.isUnread := by
  have hnumbers : (entries.map (·.number)).Nodup :=
    (List.pairwise_map.mpr h.increasing).imp Nat.ne_of_lt
  have hsorted := List.mergeSort_perm (drained.filter NumberedEntry.isUnread)
    fun e e' => e.number ≤ e'.number
  have hall := hsorted.trans (hperm.filter NumberedEntry.isUnread)
  have hmerged : ((drained.filter NumberedEntry.isUnread).mergeSort
      fun e e' => e.number ≤ e'.number).Pairwise fun e e' => e.number ≤ e'.number := by
    have htrans (e e' e'' : NumberedEntry) (h : decide (e.number ≤ e'.number) = true)
        (h' : decide (e'.number ≤ e''.number) = true) :
        decide (e.number ≤ e''.number) = true := by
      simp only [decide_eq_true_eq] at h h' ⊢
      omega
    have htotal (e e' : NumberedEntry) :
        (decide (e.number ≤ e'.number) || decide (e'.number ≤ e.number)) = true := by
      simp only [Bool.or_eq_true, decide_eq_true_eq]
      omega
    simpa using List.pairwise_mergeSort htrans htotal (drained.filter NumberedEntry.isUnread)
  have hincreasing : (entries.filter NumberedEntry.isUnread).Pairwise
      fun e e' => e.number ≤ e'.number :=
    (h.increasing.sublist List.filter_sublist).imp Nat.le_of_lt
  refine hall.eq_of_pairwise (fun e e' he he' hle hle' => ?_) hmerged hincreasing
  have hmem : e ∈ entries := (List.mem_filter.mp (hall.subset he)).1
  exact List.inj_on_of_nodup_map hnumbers hmem (List.mem_filter.mp he').1
    (Nat.le_antisymm hle hle')

theorem unused_eq (h : scope.Numbered entries) :
    scope.unused = (entries.filter NumberedEntry.isUnread).map (·.entry) := by
  rw [Scope.unused, ← h.entries_eq, List.filter_map]
  rfl

end Scope.Numbered

/-! ## The latest declaration of a name -/

/-- The call leaves the binding of a name in place: it neither declares the name nor empties the
scope. -/
def ScopeCall.Keeps (name : String) : ScopeCall → Prop
  | .declare n _ => n ≠ name
  | .read _ | .get _ => True
  | .clear | .takeUnused => False

/-- A declaration of a name stands at a position among the calls, and no later call takes it
back. -/
def LatestAt (calls : List ScopeCall) (i : Nat) (name : String) (b : Binding) : Prop :=
  calls[i]? = some (.declare name b) ∧ ∀ call ∈ calls.drop (i + 1), call.Keeps name

/-- A name is read after a position among the calls. -/
def ReadSince (calls : List ScopeCall) (i : Nat) (name : String) : Prop :=
  .read name ∈ calls.drop (i + 1)

instance (calls : List ScopeCall) (i : Nat) (name : String) : Decidable (ReadSince calls i name) :=
  inferInstanceAs (Decidable (_ ∈ _))

/-- What is left of the latest declaration of a name: its binding, marked as used if the name is
read since. -/
inductive Remembered (calls : List ScopeCall) : NumberedEntry → Prop
  | latest {i : Nat} {name : String} {b : Binding} (h : LatestAt calls i name b) :
    Remembered calls ⟨i, name, { b with used := b.used || decide (ReadSince calls i name) }⟩

section History

variable {calls : List ScopeCall} {i j : Nat} {name : String} {b b' : Binding}

theorem LatestAt.lt (h : LatestAt calls i name b) : i < calls.length :=
  (List.getElem?_eq_some_iff.mp h.1).1

/-- Behind the latest declaration of a name, no call declares it again. -/
theorem LatestAt.not_lt (h : LatestAt calls i name b) (h' : LatestAt calls j name b') :
    ¬i < j := by
  intro hlt
  refine h.2 (.declare name b') (List.mem_of_getElem? (i := j - (i + 1)) ?_) rfl
  rw [List.getElem?_drop, ← h'.1]
  congr 1
  omega

/-- There is one latest declaration of a name. -/
theorem LatestAt.unique (h : LatestAt calls i name b) (h' : LatestAt calls j name b') :
    i = j ∧ b = b' := by
  obtain rfl : i = j := by
    have hij := h.not_lt h'
    have hji := h'.not_lt h
    omega
  exact ⟨rfl, by simpa using h.1.symm.trans h'.1⟩

/-- After one more call, the latest declaration is that call, or it was the latest one already and
the call keeps it. -/
theorem latestAt_append_singleton {call : ScopeCall} :
    LatestAt (calls ++ [call]) i name b ↔
      LatestAt calls i name b ∧ call.Keeps name ∨
      i = calls.length ∧ call = .declare name b := by
  rcases Nat.lt_trichotomy i calls.length with hlt | rfl | hgt
  · simp only [LatestAt, List.getElem?_append_left hlt, List.drop_append_of_le_length hlt,
      List.forall_mem_append, List.forall_mem_singleton, hlt.ne, and_assoc, false_and, or_false]
  · simp [LatestAt]
  · have hnone : (calls ++ [call])[i]? = none := by simp; omega
    have hnone' : calls[i]? = none := by simp; omega
    simp [LatestAt, hnone, hnone', hgt.ne']

/-- A call that keeps a declaration leaves it the latest one. -/
theorem LatestAt.keep (h : LatestAt calls i name b) (call : ScopeCall)
    (hkeeps : call.Keeps name) : LatestAt (calls ++ [call]) i name b :=
  latestAt_append_singleton.mpr (.inl ⟨h, hkeeps⟩)

theorem latestAt_declare (calls : List ScopeCall) (name : String) (b : Binding) :
    LatestAt (calls ++ [.declare name b]) calls.length name b :=
  latestAt_append_singleton.mpr (.inr ⟨rfl, rfl⟩)

theorem readSince_append_singleton {call : ScopeCall} (hi : i < calls.length) :
    ReadSince (calls ++ [call]) i name ↔ ReadSince calls i name ∨ call = .read name := by
  simp [ReadSince, List.drop_append_of_le_length hi, eq_comm]

theorem not_readSince_length {call : ScopeCall} :
    ¬ReadSince (calls ++ [call]) calls.length name := by
  simp [ReadSince]

/-- A declaration is remembered, and so is what was remembered of other names. -/
theorem remembered_declare {n : String} {d : Binding} {e : NumberedEntry} :
    Remembered (calls ++ [.declare n d]) e ↔
      Remembered calls e ∧ e.name ≠ n ∨ e = ⟨calls.length, n, d⟩ := by
  constructor
  · rintro ⟨hlatest⟩
    rcases latestAt_append_singleton.mp hlatest with ⟨hold, hkeeps⟩ | ⟨rfl, heq⟩
    · simpa [readSince_append_singleton hold.lt] using .inl ⟨.latest hold, Ne.symm hkeeps⟩
    · cases heq
      simp [not_readSince_length]
  · rintro (⟨⟨hold⟩, hne⟩ | rfl)
    · have h := Remembered.latest (hold.keep (.declare n d) (Ne.symm hne))
      simpa [readSince_append_singleton hold.lt] using h
    · simpa [not_readSince_length] using Remembered.latest (latestAt_declare calls n d)

/-- A read keeps what is remembered, and marks it if it reads its name. -/
theorem remembered_read {n : String} {e : NumberedEntry} :
    Remembered (calls ++ [.read n]) e ↔ ∃ e', Remembered calls e' ∧ e'.marked n = e := by
  have heq {i : Nat} {name : String} (hi : i < calls.length) :
      decide (ReadSince (calls ++ [.read n]) i name) =
        (decide (ReadSince calls i name) || name == n) := by
    rw [Bool.eq_iff_iff]
    simp [readSince_append_singleton hi, eq_comm (a := n)]
  constructor
  · rintro ⟨hlatest⟩
    rcases latestAt_append_singleton.mp hlatest with ⟨hold, -⟩ | ⟨-, hcall⟩
    · exact ⟨_, .latest hold, by simp [NumberedEntry.marked, heq hold.lt, Bool.or_assoc]⟩
    · cases hcall
  · rintro ⟨_, ⟨hold⟩, rfl⟩
    have h := Remembered.latest (hold.keep (.read n) trivial)
    simpa [NumberedEntry.marked, heq hold.lt, Bool.or_assoc] using h

/-- A look at a name changes nothing about what is remembered. -/
theorem remembered_get {n : String} {e : NumberedEntry} :
    Remembered (calls ++ [.get n]) e ↔ Remembered calls e := by
  constructor
  · rintro ⟨hlatest⟩
    rcases latestAt_append_singleton.mp hlatest with ⟨hold, -⟩ | ⟨-, hcall⟩
    · simpa [readSince_append_singleton hold.lt] using Remembered.latest hold
    · cases hcall
  · rintro ⟨hold⟩
    simpa [readSince_append_singleton hold.lt] using Remembered.latest (hold.keep (.get n) trivial)

/-- Nothing is remembered from before the scope was emptied. -/
theorem not_remembered_emptied {call : ScopeCall} (hcall : call = .clear ∨ call = .takeUnused)
    (e : NumberedEntry) : ¬Remembered (calls ++ [call]) e := by
  rintro ⟨hlatest⟩
  rcases hcall with rfl | rfl <;>
    rcases latestAt_append_singleton.mp hlatest with ⟨-, hkeeps⟩ | ⟨-, heq⟩
  · exact hkeeps
  · cases heq
  · exact hkeeps
  · cases heq

/-- What is remembered is declared by one of the calls. -/
theorem Remembered.lt {e : NumberedEntry} (h : Remembered calls e) : e.number < calls.length := by
  obtain ⟨hlatest⟩ := h
  exact hlatest.lt

/-- The entries of a scope are what its history leaves behind. -/
theorem exists_numbered_run (calls : List ScopeCall) : ∃ entries,
    (Scope.empty.run calls).Numbered entries ∧ ∀ e, e ∈ entries ↔ Remembered calls e := by
  induction calls using List.reverseRecOn with
  | nil => exact ⟨[], .empty, fun e => ⟨nofun, fun ⟨h⟩ => absurd h.lt (Nat.not_lt_zero _)⟩⟩
  | append_singleton calls call ih =>
    obtain ⟨entries, hnumbered, hmem⟩ := ih
    rw [Scope.run_append_singleton]
    have hempty (hcall : call = .clear ∨ call = .takeUnused) :
        ∃ entries, Scope.empty.Numbered entries ∧
          ∀ e, e ∈ entries ↔ Remembered (calls ++ [call]) e :=
      ⟨[], .empty, fun e => ⟨nofun, fun h => absurd h (not_remembered_emptied hcall e)⟩⟩
    cases call with
    | declare name binding =>
      refine ⟨_, hnumbered.declare (fun e he => ((hmem e).mp he).lt) name binding, fun e => ?_⟩
      simp [remembered_declare, hmem]
    | read name =>
      refine ⟨_, hnumbered.markUsed name, fun e => ?_⟩
      simp [remembered_read, hmem]
    | get name => exact ⟨entries, hnumbered, fun e => (hmem e).trans remembered_get.symm⟩
    | clear => exact hempty (.inl rfl)
    | takeUnused => exact hempty (.inr rfl)

/-- The binding of a name is the one of its latest declaration. -/
theorem find?_run {name : String} {b : Binding} :
    (Scope.empty.run calls).find? name = some b ↔
      ∃ i d, LatestAt calls i name d ∧
        b = { d with used := d.used || decide (ReadSince calls i name) } := by
  obtain ⟨entries, hnumbered, hmem⟩ := exists_numbered_run calls
  rw [hnumbered.find?_eq_some_iff]
  constructor
  · rintro ⟨i, he⟩
    obtain ⟨hlatest⟩ := (hmem _).mp he
    exact ⟨i, _, hlatest, rfl⟩
  · rintro ⟨i, d, hlatest, rfl⟩
    exact ⟨i, (hmem _).mpr (.latest hlatest)⟩

/-- A read answers with the binding of the latest declaration, which it marks as used. -/
theorem read_run {name : String} {b : Binding} :
    ((Scope.empty.run calls).read name).1 = some b ↔
      ∃ i d, LatestAt calls i name d ∧ b = { d with used := true } := by
  have hread : ((Scope.empty.run calls).read name).1 =
      (Scope.empty.run (calls ++ [.read name])).find? name := by
    rw [Scope.run_append_singleton]
    rfl
  rw [hread, find?_run]
  constructor
  · rintro ⟨i, d, hlatest, rfl⟩
    rcases latestAt_append_singleton.mp hlatest with ⟨hold, -⟩ | ⟨-, hcall⟩
    · exact ⟨i, d, hold, by simp [readSince_append_singleton hold.lt]⟩
    · cases hcall
  · rintro ⟨i, d, hold, rfl⟩
    refine ⟨i, d, hold.keep (.read name) trivial, ?_⟩
    simp [readSince_append_singleton hold.lt]

/-- An entry is unused if its latest declaration does not mark it and nothing reads it since. -/
theorem mem_unused_run {name : String} {b : Binding} :
    (name, b) ∈ (Scope.empty.run calls).unused ↔ b.used = false ∧ name.startsWith "_" = false ∧
      ∃ i, LatestAt calls i name b ∧ ¬ReadSince calls i name := by
  obtain ⟨entries, hnumbered, hmem⟩ := exists_numbered_run calls
  rw [hnumbered.unused_eq, List.mem_map]
  constructor
  · rintro ⟨e, he, heq⟩
    obtain ⟨he, hunread⟩ := List.mem_filter.mp he
    obtain @⟨i, n, d, hlatest⟩ := (hmem e).mp he
    cases heq
    simp only [NumberedEntry.isUnread, Bool.and_eq_true, Bool.not_eq_true', Bool.or_eq_false_iff,
      decide_eq_false_iff_not] at hunread
    obtain ⟨⟨hused, hread⟩, hstart⟩ := hunread
    have hsame : { d with used := d.used || decide (ReadSince calls i n) } = d := by
      rw [decide_eq_false hread, Bool.or_false]
    rw [hsame]
    exact ⟨hused, hstart, i, hlatest, hread⟩
  · rintro ⟨hused, hstart, i, hlatest, hread⟩
    refine ⟨⟨i, name, b⟩, List.mem_filter.mpr ⟨(hmem _).mpr ?_, ?_⟩, rfl⟩
    · simpa [hread] using Remembered.latest hlatest
    · simp [NumberedEntry.isUnread, hused, hstart]

/-- The unused entries have different names and stand in the order of their declarations. -/
theorem unused_run_ordered :
    ((Scope.empty.run calls).unused.map (·.1)).Nodup ∧
      (Scope.empty.run calls).unused.Pairwise fun e e' => ∀ i j, LatestAt calls i e.1 e.2 →
        LatestAt calls j e'.1 e'.2 → i < j := by
  obtain ⟨entries, hnumbered, hmem⟩ := exists_numbered_run calls
  have hsub : (entries.filter NumberedEntry.isUnread).Sublist entries := List.filter_sublist
  rw [hnumbered.unused_eq, List.map_map, List.pairwise_map]
  refine ⟨hnumbered.names_nodup.sublist (hsub.map _), ?_⟩
  refine (hnumbered.increasing.sublist hsub).imp_of_mem fun {e e'} he he' hlt i j hi hj => ?_
  obtain ⟨hlatest⟩ := (hmem e).mp (hsub.subset he)
  obtain ⟨hlatest'⟩ := (hmem e').mp (hsub.subset he')
  rw [(hi.unique hlatest).1, (hj.unique hlatest').1]
  exact hlt

end History

/-! ## A table in no particular order -/

/-- A table of numbered declarations, and the next number. Its entries stand in any order. -/
structure NumberedTable where
  entries : List NumberedEntry
  next : Nat

namespace NumberedTable

def empty : NumberedTable := ⟨[], 0⟩

def find? (table : NumberedTable) (name : String) : Option Binding :=
  (table.entries.find? (·.name == name)).map (·.binding)

/-- What a call of a table may answer, and what it may leave behind. A call that goes through the
entries, or changes them, meets them in any order. -/
inductive Performs (table : NumberedTable) :
    ScopeCall → ScopeAnswer → NumberedTable → Prop
  | declare {name : String} {binding : Binding} {entries : List NumberedEntry}
    (h : entries.Perm (⟨table.next, name, binding⟩ :: table.entries.filter (·.name != name))) :
    table.Performs (.declare name binding) .done ⟨entries, table.next + 1⟩
  | read {name : String} {entries : List NumberedEntry}
    (h : entries.Perm (table.entries.map (·.marked name))) :
    table.Performs (.read name) (.found (find? ⟨entries, table.next⟩ name)) ⟨entries, table.next⟩
  | get {name : String} : table.Performs (.get name) (.found (table.find? name)) table
  | clear : table.Performs .clear .done .empty
  | takeUnused {drained : List NumberedEntry} (h : drained.Perm table.entries) :
    table.Performs .takeUnused (.unused (((drained.filter NumberedEntry.isUnread).mergeSort
      fun e e' => e.number ≤ e'.number).map (·.entry))) .empty

/-- The answers that calls of a table may give, one after another. -/
inductive Answers : NumberedTable → List ScopeCall → List ScopeAnswer → Prop
  | nil (table : NumberedTable) : table.Answers [] []
  | cons {table table' : NumberedTable} {call : ScopeCall} {answer : ScopeAnswer}
    {calls : List ScopeCall} {answers : List ScopeAnswer} (h : table.Performs call answer table')
    (hrest : table'.Answers calls answers) : table.Answers (call :: calls) (answer :: answers)

/-- A table holds the entries of a scope, with numbers in their order and below the next one. -/
def Holds (table : NumberedTable) (scope : Scope) : Prop :=
  ∃ entries, scope.Numbered entries ∧ table.entries.Perm entries ∧
    ∀ e ∈ entries, e.number < table.next

variable {table table' : NumberedTable} {scope : Scope} {call : ScopeCall} {answer : ScopeAnswer}

theorem holds_empty : empty.Holds .empty :=
  ⟨[], .empty, .refl _, fun _ he => absurd he List.not_mem_nil⟩

/-- The table and the scope find the same binding under a name. -/
theorem Holds.find?_eq (h : table.Holds scope) (name : String) :
    table.find? name = scope.find? name := by
  obtain ⟨entries, hnumbered, hperm, -⟩ := h
  have hnodup : (table.entries.map (·.name)).Nodup :=
    (hperm.map _).nodup_iff.mpr hnumbered.names_nodup
  ext b
  rw [hnumbered.find?_eq_some_iff, find?, Option.map_eq_some_iff]
  constructor
  · rintro ⟨⟨i, n, b⟩, hfind, rfl⟩
    obtain rfl : n = name := by simpa using List.find?_some hfind
    exact ⟨i, hperm.subset (List.mem_of_find?_eq_some hfind)⟩
  · rintro ⟨i, he⟩
    exact ⟨_, find?_of_nodup (·.name) hnodup (hperm.symm.subset he), rfl⟩

/-- A table that holds the entries of a scope gives the same answer to a call, and holds the
entries of the scope after it. -/
theorem Performs.agrees (hstep : table.Performs call answer table') (h : table.Holds scope) :
    answer = (scope.perform call).1 ∧ table'.Holds (scope.perform call).2 := by
  obtain ⟨entries, hnumbered, hperm, hlt⟩ := id h
  cases hstep with
  | @declare name binding entries' hentries =>
    refine ⟨rfl, _, hnumbered.declare hlt name binding, ?_, fun e he => ?_⟩
    · exact hentries.trans (((hperm.filter _).cons _).trans (List.perm_append_singleton _ _).symm)
    · rcases List.mem_append.mp he with he | he
      · exact Nat.lt_succ_of_lt (hlt e (List.mem_filter.mp he).1)
      · rw [List.mem_singleton.mp he]
        exact Nat.lt_succ_self _
  | @read name entries' hentries =>
    have hholds : Holds ⟨entries', table.next⟩ (scope.markUsed name) := by
      refine ⟨_, hnumbered.markUsed name, hentries.trans (hperm.map _), fun e he => ?_⟩
      obtain ⟨e', he', rfl⟩ := List.mem_map.mp he
      exact hlt e' he'
    exact ⟨congrArg _ (hholds.find?_eq name), hholds⟩
  | get => exact ⟨congrArg _ (h.find?_eq _), h⟩
  | clear => exact ⟨rfl, holds_empty⟩
  | @takeUnused drained hdrained =>
    refine ⟨?_, holds_empty⟩
    rw [hnumbered.mergeSort_unread (hdrained.trans hperm), ← hnumbered.unused_eq]
    rfl

/-- Every call of a table can be performed. -/
theorem exists_performs (table : NumberedTable) (call : ScopeCall) :
    ∃ answer table', table.Performs call answer table' := by
  cases call with
  | declare => exact ⟨_, _, .declare (.refl _)⟩
  | read => exact ⟨_, _, .read (.refl _)⟩
  | get => exact ⟨_, _, .get⟩
  | clear => exact ⟨_, _, .clear⟩
  | takeUnused => exact ⟨_, _, .takeUnused (.refl _)⟩

/-- A table that holds the entries of a scope answers as the scope does, in whatever order it keeps
them. -/
theorem Holds.answers_iff (h : table.Holds scope) (calls : List ScopeCall)
    {answers : List ScopeAnswer} : table.Answers calls answers ↔ answers = scope.answers calls := by
  induction calls generalizing table scope answers with
  | nil =>
    constructor
    · rintro ⟨⟩
      rfl
    · rintro rfl
      exact .nil table
  | cons call calls ih =>
    constructor
    · rintro (_ | ⟨hstep, hrest⟩)
      obtain ⟨rfl, hholds⟩ := hstep.agrees h
      rw [(ih hholds).mp hrest]
      rfl
    · rintro rfl
      obtain ⟨answer, table', hstep⟩ := table.exists_performs call
      obtain ⟨rfl, hholds⟩ := hstep.agrees h
      exact .cons hstep ((ih hholds).mpr rfl)

end NumberedTable

/-- However a scope is used, a name stands for its latest declaration since the scope was last
emptied, with the mark of being used if the name is read since. What is unused are the declarations
that are the latest ones of their names, are not marked and not read since, and have names that do
not begin with an underscore, each once and in the order of the declarations, and nothing is left
after they are taken. A table that keeps its entries in any order gives the same answers. -/
theorem Scope.answers_latest (calls : List ScopeCall) :
    (∀ name, ∃ found, ((Scope.empty.run calls).perform (.get name)).1 = .found found ∧
      ∀ b, found = some b ↔ ∃ i d, LatestAt calls i name d ∧
        b = { d with used := d.used || decide (ReadSince calls i name) }) ∧
    (∀ name, ∃ found, ((Scope.empty.run calls).perform (.read name)).1 = .found found ∧
      ∀ b, found = some b ↔ ∃ i d, LatestAt calls i name d ∧ b = { d with used := true }) ∧
    (∃ bindings, (Scope.empty.run calls).perform .takeUnused = (.unused bindings, .empty) ∧
      (bindings.map (·.1)).Nodup ∧
      (∀ name b, (name, b) ∈ bindings ↔ b.used = false ∧ name.startsWith "_" = false ∧
        ∃ i, LatestAt calls i name b ∧ ¬ReadSince calls i name) ∧
      bindings.Pairwise fun e e' => ∀ i j, LatestAt calls i e.1 e.2 →
        LatestAt calls j e'.1 e'.2 → i < j) ∧
    ∀ answers, NumberedTable.empty.Answers calls answers ↔ answers = Scope.empty.answers calls := by
  refine ⟨fun name => ⟨_, rfl, fun b => find?_run⟩, fun name => ⟨_, rfl, fun b => read_run⟩,
    ⟨_, rfl, unused_run_ordered.1, fun name b => mem_unused_run, unused_run_ordered.2⟩,
    fun answers => NumberedTable.holds_empty.answers_iff calls⟩

end SsaLowering
