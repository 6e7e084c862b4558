import SsaLowering.Proofs.StatementCode

/-!
# Functions as the lowering leaves them

A draft is a function in which only the last block may be open. What is available in a block
and where the block may be entered from are known for each of its labels, and each
instruction has what it needs. The spots that the lowering writes form a draft.
-/

namespace SsaLowering

/-- The results of some instructions. -/
def resultsOf (code : List Instr) : Set Nat := {t | ∃ i ∈ code, i.result? = some t}

@[simp] theorem resultsOf_nil : resultsOf [] = ∅ := by simp [resultsOf]

theorem resultsOf_cons (i : Instr) (code : List Instr) :
    resultsOf (i :: code) = {t | i.result? = some t} ∪ resultsOf code := by
  ext t
  simp [resultsOf]

theorem resultsOf_append (code code' : List Instr) :
    resultsOf (code ++ code') = resultsOf code ∪ resultsOf code' := by
  ext t
  simp [resultsOf, or_and_right, exists_or]

/-- The code of a block from some place on: phis in front, and a terminator only at the
end. -/
def IsCode (front : Bool) : List Instr → Prop
  | [] => True
  | i :: rest => (i.isPhi = true → front = true) ∧ (i.isTerminator = true → rest = []) ∧
      IsCode (front && i.isPhi) rest

namespace IsCode

variable {front : Bool} {pre post code : List Instr} {i : Instr}

theorem tail_eq_nil (h : IsCode front (pre ++ i :: post)) (hi : i.isTerminator = true) :
    post = [] := by
  induction pre generalizing front with
  | nil => exact h.2.1 hi
  | cons j pre ih => exact ih h.2.2

end IsCode

namespace Spot

/-- The spots of the code of a block from some place on. -/
def lines (label : Nat) : Set Nat → List Instr → List Spot
  | _, [] => []
  | avail, i :: rest => .line label avail i :: lines label (avail ∪ {t | i.result? = some t}) rest

/-- The spots of a block, given what is available in it and its sources. -/
def ofBlock (avail sources : Nat → Set Nat) (b : Block) : List Spot :=
  .head b.label (avail b.label) (sources b.label) :: lines b.label (avail b.label) b.code

variable {label : Nat} {avail : Set Nat} {code : List Instr}

theorem mem_lines {l : Nat} {avail' : Set Nat} {i : Instr} :
    .line l avail' i ∈ lines label avail code ↔ l = label ∧ ∃ pre post,
      code = pre ++ i :: post ∧ avail' = avail ∪ resultsOf pre := by
  induction code generalizing avail with
  | nil => simp [lines]
  | cons j rest ih =>
    simp only [lines, List.mem_cons, Spot.line.injEq, ih]
    constructor
    · rintro (⟨rfl, rfl, rfl⟩ | ⟨rfl, pre, post, rfl, rfl⟩)
      · exact ⟨rfl, [], rest, rfl, by simp⟩
      · exact ⟨rfl, j :: pre, post, rfl, by rw [resultsOf_cons, Set.union_assoc]⟩
    · rintro ⟨rfl, pre, post, heq, rfl⟩
      cases pre with
      | nil =>
        simp only [List.nil_append, List.cons.injEq] at heq
        exact .inl ⟨rfl, by simp, heq.1.symm⟩
      | cons j' pre =>
        simp only [List.cons_append, List.cons.injEq] at heq
        obtain ⟨rfl, rfl⟩ := heq
        exact .inr ⟨rfl, pre, post, rfl, by rw [resultsOf_cons, Set.union_assoc]⟩

theorem head_not_mem_lines {l : Nat} {avail' sources : Set Nat} :
    .head l avail' sources ∉ lines label avail code := by
  induction code generalizing avail with
  | nil => simp [lines]
  | cons j rest ih => simp [lines, ih]

/-- Behind a terminator there is no place, so no code. -/
theorem code_eq_nil {q : Option Site} {x : List Spot} {rest : List Item}
    (hx : Threads none x q) (hitems : x.map item = code.map .instr ++ rest) : code = [] := by
  cases code with
  | nil => rfl
  | cons i code =>
    cases x with
    | nil => simp at hitems
    | cons spot x =>
      cases spot with
      | head => simp [item] at hitems
      | line => exact hx.elim

/-- Spots that spell the code of a block are its lines. -/
theorem exists_lines {p : Site} {q : Option Site} {x : List Spot} {rest : List Item}
    (hx : Threads (some p) x q) (hitems : x.map item = code.map .instr ++ rest) :
    ∃ y r, x = lines p.label p.avail code ++ y ∧ y.map item = rest ∧ Threads r y q ∧
      IsCode p.isFront code ∧
      (r = none ↔ (code.getLast?.filter (·.isTerminator)).isSome = true) := by
  induction code generalizing p x with
  | nil =>
    exact ⟨x, some p, rfl, by simpa using hitems, hx, trivial, by simp⟩
  | cons i code ih =>
    cases x with
    | nil => simp at hitems
    | cons spot x =>
      simp only [List.map_cons, List.cons_append, List.cons.injEq] at hitems
      obtain ⟨hspot, hitems⟩ := hitems
      cases spot with
      | head => cases hspot
      | line l a i' =>
        obtain rfl : i' = i := by simpa [item] using hspot
        obtain ⟨rfl, rfl, -, hphi, hthreads⟩ := hx
        cases hterm : i'.isTerminator with
        | true =>
          rw [Site.after, hterm, if_pos rfl] at hthreads
          obtain rfl := code_eq_nil hthreads hitems
          exact ⟨x, none, rfl, by simpa using hitems, hthreads, ⟨hphi, by simp, trivial⟩,
            by simp [hterm]⟩
        | false =>
          rw [Site.after, hterm] at hthreads
          obtain ⟨y, r, rfl, hy, hr, hcode, hlast⟩ := ih hthreads hitems
          refine ⟨y, r, rfl, hy, hr, ⟨hphi, by simp [hterm], hcode⟩, ?_⟩
          rw [hlast]
          cases code with
          | nil => simp [hterm]
          | cons j code => simp [List.getLast?_cons_cons]

section

variable {avail sources : Nat → Set Nat} {blocks : List Block} {l : Nat} {a so : Set Nat}

/-- The heads among the spots of some blocks are those of the blocks. -/
theorem head_mem_ofBlocks : .head l a so ∈ blocks.flatMap (ofBlock avail sources) ↔
    l ∈ blocks.map (·.label) ∧ a = avail l ∧ so = sources l := by
  simp only [List.mem_flatMap, ofBlock, List.mem_cons, head_not_mem_lines, or_false,
    Spot.head.injEq, List.mem_map]
  constructor
  · rintro ⟨b, hb, rfl, rfl, rfl⟩
    exact ⟨⟨b, hb, rfl⟩, rfl, rfl⟩
  · rintro ⟨⟨b, hb, rfl⟩, rfl, rfl⟩
    exact ⟨b, hb, rfl, rfl, rfl⟩

/-- The lines among the spots of some blocks are the places in the code of the blocks. -/
theorem line_mem_ofBlocks {i : Instr} : .line l a i ∈ blocks.flatMap (ofBlock avail sources) ↔
    ∃ b ∈ blocks, l = b.label ∧ ∃ pre post, b.code = pre ++ i :: post ∧
      a = avail b.label ∪ resultsOf pre := by
  simp only [List.mem_flatMap, ofBlock, List.mem_cons, mem_lines, reduceCtorEq, false_or]

/-- What is known of a label is of no concern to the blocks that have other labels. -/
theorem flatMap_ofBlock_update (h : l ∉ blocks.map (·.label)) :
    blocks.flatMap (ofBlock (Function.update avail l a) (Function.update sources l so)) =
      blocks.flatMap (ofBlock avail sources) := by
  apply List.flatMap_congr
  intro b hb
  have hlabel : b.label ≠ l := by
    rintro rfl
    exact h (List.mem_map_of_mem hb)
  simp [ofBlock, Function.update_of_ne hlabel]

end

/-- Blocks are written only where no code goes on. -/
theorem eq_none_of_listing {blocks : List Block} {r q : Option Site} {x : List Spot}
    (hx : Threads r x q) (hitems : x.map item = blocks.flatMap Block.listing)
    (hne : blocks ≠ []) : r = none := by
  cases blocks with
  | nil => exact absurd rfl hne
  | cons b blocks =>
    cases x with
    | nil => simp [Block.listing] at hitems
    | cons spot x => cases spot <;> cases r <;> simp_all [Threads, Block.listing, item]

/-- Spots that spell some blocks are the spots of these blocks. -/
theorem exists_ofBlocks {blocks : List Block} {q : Option Site} {x : List Spot}
    (hx : Threads none x q) (hitems : x.map item = blocks.flatMap Block.listing)
    (hlabels : (blocks.map (·.label)).Nodup)
    (hslots : ∀ b ∈ blocks, b.body = b.slots ++ b.code) :
    ∃ avail sources, x = blocks.flatMap (ofBlock avail sources) ∧
      (∀ b ∈ blocks, IsCode true b.code) ∧ ∀ b ∈ blocks.dropLast, b.isTerminated = true := by
  induction blocks generalizing x with
  | nil =>
    have hnil : x = [] := by simpa using hitems
    exact ⟨fun _ => ∅, fun _ => ∅, by simp [hnil], by simp, by simp⟩
  | cons b blocks ih =>
    cases x with
    | nil => simp [Block.listing] at hitems
    | cons spot x =>
      simp only [List.map_cons, List.flatMap_cons, Block.listing, List.cons_append,
        List.cons.injEq] at hitems
      obtain ⟨hspot, hitems⟩ := hitems
      cases spot with
      | line => cases hspot
      | head l a sourcesOf =>
        obtain rfl : l = b.label := by simpa [item] using hspot
        obtain ⟨y, r, rfl, hy, hr, hcode, hlast⟩ := exists_lines hx hitems
        have hterm : b.isTerminated = true ↔ r = none := by
          rw [Block.isTerminated_of_slots_first (hslots b (by simp)), hlast]
        simp only [List.map_cons, List.nodup_cons] at hlabels
        by_cases hne : blocks = []
        · subst hne
          obtain rfl : y = [] := by simpa using hy
          exact ⟨fun _ => a, fun _ => sourcesOf, by simp [ofBlock], by simpa using hcode, by simp⟩
        · have hnone : r = none := eq_none_of_listing hr hy hne
          rw [hnone] at hr
          obtain ⟨avail, sources, hblocks, hcodes, hterms⟩ := ih hr hy hlabels.2
            fun c hc => hslots c (by simp [hc])
          refine ⟨Function.update avail b.label a, Function.update sources b.label sourcesOf, ?_,
            by simpa using ⟨hcode, hcodes⟩, ?_⟩
          · rw [List.flatMap_cons, flatMap_ofBlock_update hlabels.1, ← hblocks]
            simp [ofBlock]
          · rw [List.dropLast_cons_of_ne_nil hne]
            simpa using ⟨hterm.mpr hnone, hterms⟩

end Spot

namespace FunctionDef

/-- What can be read everywhere in a function: parameters and addresses of stack slots. -/
def base (f : FunctionDef) : Set Nat := {t | t ∈ f.parameters ∨ t ∈ f.slots}

/-- A function in which only the last block may be open. The sets say what was computed on
every way into a block, and from which blocks it may be entered. -/
structure Draft (f : FunctionDef) (avail sources : Nat → Set Nat) : Prop where
  front : ∃ b done last, FunctionBuilder.Front b f done last
  entry : ∀ b rest, f.blocks = b :: rest → avail b.label = ∅ ∧ sources b.label = Set.univ
  code : ∀ b ∈ f.blocks, IsCode true b.code
  terminated : ∀ b ∈ f.blocks.dropLast, b.isTerminated = true
  computed : ∀ b ∈ f.blocks, ∀ t ∈ avail b.label, ∃ c ∈ f.blocks, t ∈ resultsOf c.code
  operands : ∀ b ∈ f.blocks, ∀ pre i post, b.code = pre ++ i :: post → i.isPhi = false →
    i.temps ⊆ avail b.label ∪ resultsOf pre ∪ f.base
  targets : ∀ b ∈ f.blocks, ∀ pre i post, b.code = pre ++ i :: post → ∀ l ∈ i.successors,
    l ∈ f.labels ∧ avail l ⊆ avail b.label ∪ resultsOf pre ∧ b.label ∈ sources l
  incoming : ∀ b ∈ f.blocks, ∀ result incoming type, .phi result incoming type ∈ b.code →
    (incoming.map Prod.snd).Nodup ∧ (∀ l ∈ sources b.label, l ∈ incoming.map Prod.snd) ∧
    ∀ value source, (value, source) ∈ incoming → ∃ c ∈ f.blocks, c.label = source ∧
      ∃ pre i post, c.code = pre ++ i :: post ∧ b.label ∈ i.successors ∧
        value.temps ⊆ avail source ∪ resultsOf pre ∪ f.base
  returns : ∀ b ∈ f.blocks, ∀ i ∈ b.code, returnsAs f.returnType i = true

/-- Spots that support each other are a draft. -/
theorem exists_draft {f : FunctionDef} (hf : ∃ b done last, FunctionBuilder.Front b f done last)
    {x : List Spot} {q : Option Site} (hx : Spot.Threads none x q)
    (hitems : x.map Spot.item = f.listing) (hentry : ∃ l y, x = Spot.entry l :: y)
    (hgrounded : Spot.Grounded none x)
    (hsupported : Spot.AllSupported f.returnType f.base x x) :
    ∃ avail sources, f.Draft avail sources := by
  obtain ⟨b, done, last, hfront⟩ := hf
  obtain ⟨avail, sources, rfl, hcode, hterminated⟩ :=
    Spot.exists_ofBlocks hx hitems hfront.labels_nodup hfront.slots_first
  have hline {c : Block} (hc : c ∈ f.blocks) {pre post : List Instr} {i : Instr}
      (hi : c.code = pre ++ i :: post) :
      Spot.Supported f.returnType f.base (f.blocks.flatMap (Spot.ofBlock avail sources)) c.label
        (avail c.label ∪ resultsOf pre) i :=
    hsupported _ _ _ (Spot.line_mem_ofBlocks.mpr ⟨c, hc, rfl, pre, post, hi, rfl⟩)
  refine ⟨avail, sources, {
    front := ⟨b, done, last, hfront⟩
    entry := ?_
    code := hcode
    terminated := hterminated
    computed := ?_
    operands := fun c hc pre i post hi hphi => (hline hc hi).temps hphi
    targets := ?_
    incoming := ?_
    returns := ?_ }⟩
  · intro c rest hblocks
    obtain ⟨l, y, heq⟩ := hentry
    simp only [hblocks, List.flatMap_cons, Spot.ofBlock, List.cons_append, List.cons.injEq,
      Spot.entry, Spot.head.injEq] at heq
    exact heq.1.2
  · intro c hc t ht
    have hhead : Spot.head c.label (avail c.label) (sources c.label) ∈
        f.blocks.flatMap (Spot.ofBlock avail sources) :=
      Spot.head_mem_ofBlocks.mpr ⟨List.mem_map_of_mem hc, rfl, rfl⟩
    rcases hgrounded _ _ _ hhead ht with ht | ⟨l, a, i, hi, ht⟩
    · exact ht.elim
    · obtain ⟨d, hd, rfl, pre, post, hcode', rfl⟩ := Spot.line_mem_ofBlocks.mp hi
      exact ⟨d, hd, i, by simp [hcode'], ht⟩
  · intro c hc pre i post hi l hl
    obtain ⟨a, so, hmem, ha, hso⟩ := (hline hc hi).targets l hl
    obtain ⟨hlabel, rfl, rfl⟩ := Spot.head_mem_ofBlocks.mp hmem
    exact ⟨hlabel, ha, hso⟩
  · intro c hc result incoming type hi
    obtain ⟨pre, post, hi⟩ := List.append_of_mem hi
    obtain ⟨hnodup, ⟨a, so, hmem, hso⟩, hin⟩ := (hline hc hi).incoming result incoming type rfl
    obtain ⟨-, rfl, rfl⟩ := Spot.head_mem_ofBlocks.mp hmem
    refine ⟨hnodup, hso, fun value source hvs => ?_⟩
    obtain ⟨a', j, hj, hlabel, hvalue⟩ := hin value source hvs
    obtain ⟨d, hd, rfl, pre', post', hj', rfl⟩ := Spot.line_mem_ofBlocks.mp hj
    exact ⟨d, hd, rfl, pre', j, post', hj', hlabel, hvalue⟩
  · intro c hc i hi
    obtain ⟨pre, post, hi⟩ := List.append_of_mem hi
    exact (hline hc hi).returns

end FunctionDef

end SsaLowering
