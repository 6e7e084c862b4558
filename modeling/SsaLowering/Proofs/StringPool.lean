import Mathlib.Data.List.Nodup
import SsaLowering.Lowering.Literal

/-!
# The pool of string literals

The constants of string literals are numbered in the order of their first use, and named after
their numbers. So they have different names, and the name of a literal is always that of a
constant in the pool.
-/

namespace SsaLowering

namespace StringPool

variable {globals globals' globals'' : List GlobalVariable} {g : GlobalVariable} {text : String}

theorem text?_eq_none (h : ∀ text, g.initializer ≠ some (.bytes text)) : text? g = none := by
  unfold text?
  split
  · next text htext => exact absurd htext (h text)
  · rfl

/-- The constants of string literals among some global variables. -/
def literals (globals : List GlobalVariable) : List GlobalVariable :=
  globals.filter fun g => (text? g).isSome

/-- The constants of string literals are named after their numbers. -/
def Numbered (globals : List GlobalVariable) : Prop :=
  (literals globals).map (·.name) = (List.range (texts globals).length).map nameOf

theorem numbered_nil : Numbered [] := rfl

/-- Any other global variable makes no difference. -/
theorem Numbered.append (h : Numbered globals) (hg : text? g = none) :
    Numbered (globals ++ [g]) := by
  simpa [Numbered, literals, texts, hg] using h

/-- The next number is that of the next literal. -/
theorem Numbered.append_constant (h : Numbered globals) (text : String) :
    Numbered (globals ++ [constant (texts globals).length text]) := by
  have htexts : texts (globals ++ [constant (texts globals).length text]) =
      texts globals ++ [text] := by
    rw [texts, List.filterMap_append]
    rfl
  rw [Numbered, htexts, literals, List.filter_append, List.map_append, List.length_append,
    List.length_singleton, List.range_succ, List.map_append]
  exact congrArg (· ++ _) h

theorem Numbered.of_intern (h : Numbered globals) (text : String) :
    Numbered (intern globals text).2 := by
  unfold intern
  split
  · exact h
  · exact h.append_constant text

/-- The name of a number that is in use is that of a constant in the pool. -/
theorem Numbered.exists_name (h : Numbered globals) {number : Nat}
    (hnumber : number < (texts globals).length) : ∃ g ∈ globals, g.name = nameOf number := by
  have hmem : nameOf number ∈ (literals globals).map (·.name) := by
    rw [h]
    exact List.mem_map_of_mem (List.mem_range.mpr hnumber)
  obtain ⟨g, hg, hname⟩ := List.mem_map.mp hmem
  exact ⟨g, (List.mem_filter.mp hg).1, hname⟩

/-- The name of a literal is that of a constant in the pool. -/
theorem Numbered.exists_intern (h : Numbered (intern globals text).2) :
    ∃ g ∈ (intern globals text).2, g.name = (intern globals text).1 := by
  cases hindex : (texts globals).idxOf? text with
  | some number =>
    have hlt : number < (texts globals).length := by
      rw [List.idxOf?] at hindex
      exact (List.findIdx?_eq_some_iff_getElem.mp hindex).1
    simp only [intern, hindex] at h ⊢
    exact h.exists_name hlt
  | none =>
    simp only [intern, hindex]
    exact ⟨_, List.mem_append_right _ (List.mem_singleton.mpr rfl), rfl⟩

theorem nameOf_injective : Function.Injective nameOf := by
  intro m n h
  have hdigits : Nat.toDigits 10 m = Nat.toDigits 10 n :=
    String.ofList_injective ((String.append_right_inj _).mp h)
  calc
    m = Nat.ofDigitChars 10 (Nat.toDigits 10 m) 0 := by
      rw [Nat.ofDigitChars_toDigits (by decide) (by decide)]
    _ = Nat.ofDigitChars 10 (Nat.toDigits 10 n) 0 := by rw [hdigits]
    _ = n := Nat.ofDigitChars_toDigits (by decide) (by decide)

/-- Literals have different names. -/
theorem Numbered.nodup (h : Numbered globals) : ((literals globals).map (·.name)).Nodup := by
  rw [h]
  exact List.nodup_range.map nameOf_injective

theorem subset_intern : globals ⊆ (intern globals text).2 := by
  unfold intern
  split
  · exact List.Subset.refl globals
  · exact List.subset_append_left globals _

/-- The only global variable that a string literal adds holds its text. -/
theorem mem_or_of_mem_intern (h : g ∈ (intern globals text).2) :
    g ∈ globals ∨ g.initializer = some (.bytes text) := by
  unfold intern at h
  split at h
  · exact .inl h
  · rcases List.mem_append.mp h with h | h
    · exact .inl h
    · obtain rfl := List.mem_singleton.mp h
      exact .inr rfl

/-! ## Texts in the pool -/

/-- The constants in the pool hold different texts, and each is that of its number. -/
structure Pooled (globals : List GlobalVariable) : Prop where
  literals_eq : literals globals = (texts globals).mapIdx constant
  nodup : (texts globals).Nodup

theorem texts_append (globals : List GlobalVariable) (number : Nat) (text : String) :
    texts (globals ++ [constant number text]) = texts globals ++ [text] := by
  rw [texts, List.filterMap_append]
  rfl

theorem mem_texts_intern {other : String} :
    other ∈ texts (intern globals text).2 ↔ other = text ∨ other ∈ texts globals := by
  unfold intern
  split
  · next number hindex =>
    have hmem : text ∈ texts globals := by
      rw [← List.isSome_idxOf?, hindex]
      rfl
    exact ⟨.inr, fun h => h.elim (fun heq => heq ▸ hmem) id⟩
  · rw [texts_append, List.mem_append, List.mem_singleton, or_comm]

theorem pooled_nil : Pooled [] := ⟨rfl, List.nodup_nil⟩

/-- Any other global variable makes no difference. -/
theorem Pooled.append (h : Pooled globals) (hg : text? g = none) : Pooled (globals ++ [g]) := by
  have htexts : texts (globals ++ [g]) = texts globals := by simp [texts, hg]
  refine ⟨?_, htexts ▸ h.nodup⟩
  rw [htexts, ← h.literals_eq]
  simp [literals, hg]

theorem Pooled.of_intern (h : Pooled globals) (text : String) : Pooled (intern globals text).2 := by
  unfold intern
  split
  · exact h
  · next hindex =>
    have hnew : text ∉ texts globals := List.idxOf?_eq_none_iff.mp hindex
    refine ⟨?_, ?_⟩
    · rw [texts_append, literals, List.filter_append, List.mapIdx_concat, ← h.literals_eq]
      rfl
    · rw [texts_append]
      exact List.concat_eq_append ▸ h.nodup.concat hnew

/-- The name of a literal is that of the constant that holds its text. -/
theorem Pooled.exists_constant (h : Pooled globals) (text : String) :
    ∃ c ∈ (intern globals text).2, text? c = some text ∧ (intern globals text).1 = c.name := by
  cases hindex : (texts globals).idxOf? text with
  | some number =>
    obtain ⟨hlt, heq, -⟩ := List.findIdx?_eq_some_iff_getElem.mp hindex
    have hmem : constant number text ∈ literals globals := by
      rw [h.literals_eq]
      refine List.mem_iff_getElem?.mpr ⟨number, ?_⟩
      rw [List.getElem?_mapIdx, List.getElem?_eq_getElem hlt, beq_iff_eq.mp heq]
      rfl
    simp only [intern, hindex]
    exact ⟨_, (List.mem_filter.mp hmem).1, rfl, rfl⟩
  | none =>
    simp only [intern, hindex]
    exact ⟨_, List.mem_append_right _ (List.mem_singleton.mpr rfl), rfl, rfl⟩

theorem Pooled.numbered (h : Pooled globals) : Numbered globals := by
  rw [Numbered, h.literals_eq]
  exact List.ext_getElem (by simp) (by simp [constant])

theorem isPrefix_intern (globals : List GlobalVariable) (text : String) :
    globals <+: (intern globals text).2 := by
  unfold intern
  split
  · exact List.prefix_rfl
  · exact List.prefix_append ..

/-! ## Additions to the pool -/

/-- A text gets into the pool, if there is one. -/
def hold (globals : List GlobalVariable) : Option String → List GlobalVariable
  | some text => (intern globals text).2
  | none => globals

/-- Some string literals were added to the global variables. -/
inductive Interned (globals : List GlobalVariable) : List GlobalVariable → Prop
  | refl : Interned globals globals
  | step {globals' : List GlobalVariable} (text : String) : Interned globals globals' →
    Interned globals (intern globals' text).2

theorem interned_hold (globals : List GlobalVariable) (text : Option String) :
    Interned globals (hold globals text) := by
  cases text with
  | none => exact .refl
  | some text => exact .step text .refl

theorem mem_texts_hold {held : Option String} :
    text ∈ texts (hold globals held) ↔ held = some text ∨ text ∈ texts globals := by
  cases held with
  | none => simp [hold]
  | some other => rw [hold, mem_texts_intern, Option.some.injEq, eq_comm]

theorem Interned.subset (h : Interned globals globals') : globals ⊆ globals' := by
  induction h with
  | refl => exact List.Subset.refl _
  | step text _ ih => exact List.Subset.trans ih subset_intern

theorem Interned.trans (h : Interned globals globals') (h' : Interned globals' globals'') :
    Interned globals globals'' := by
  induction h' with
  | refl => exact h
  | step text _ ih => exact .step text ih

/-- What is there stays at its place. -/
theorem Interned.isPrefix_of (h : Interned globals globals') : globals <+: globals' := by
  induction h with
  | refl => exact List.prefix_rfl
  | step text _ ih => exact ih.trans (isPrefix_intern _ text)

theorem Interned.pooled (h : Interned globals globals') (hp : Pooled globals) :
    Pooled globals' := by
  induction h with
  | refl => exact hp
  | step text _ ih => exact ih.of_intern text

theorem Interned.numbered (h : Interned globals globals') (hn : Numbered globals) :
    Numbered globals' := by
  induction h with
  | refl => exact hn
  | step text _ ih => exact ih.of_intern text

/-- The global variables that are no string literals stay the same. -/
theorem Interned.filter_eq (h : Interned globals globals') :
    globals'.filter (fun g => (text? g).isNone) = globals.filter fun g => (text? g).isNone := by
  induction h with
  | refl => rfl
  | step text _ ih =>
    rw [← ih, intern]
    split
    · rfl
    · simp [text?, constant]

theorem Interned.mem_cases (h : Interned globals globals') (hg : g ∈ globals') :
    g ∈ globals ∨ ∃ number text, g = constant number text := by
  induction h with
  | refl => exact .inl hg
  | step text _ ih =>
    rw [intern] at hg
    split at hg
    · exact ih hg
    · rcases List.mem_append.mp hg with hg | hg
      · exact ih hg
      · exact .inr ⟨_, _, List.mem_singleton.mp hg⟩

end StringPool

end SsaLowering
