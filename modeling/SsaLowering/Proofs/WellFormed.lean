import SsaLowering.Proofs.Dominance

/-!
# What the check accepts

A function of any origin is well formed if its blocks have different labels and each block has
the shape that later stages rely on. The check accepts the well-formed functions and those that
are only declared. For any other function it names a condition that fails, and a block at which
it does. A way through an accepted function is then never lost: it leads from block to block and
ends where the function is left.
-/

namespace SsaLowering

namespace Instr

/-- Whether control leaves the function, or never gets behind the instruction. -/
def isExit : Instr → Bool
  | .ret _ | .unreachable => true
  | _ => false

theorem exists_eq_phi {i : Instr} (h : i.isPhi = true) :
    ∃ result incoming type, i = .phi result incoming type := by
  cases i <;> simp_all [isPhi]

/-- The terminators that lead to no block are the exits. -/
theorem successors_eq_nil_iff {i : Instr} (h : i.isTerminator = true) :
    i.successors = [] ↔ i.isExit = true := by
  cases i <;> simp_all [isTerminator, successors, isExit]

end Instr

/-! ## Well-formed functions -/

namespace Block

variable {f : FunctionDef} {b : Block} {fault : ShapeFault}

/-- No phi stands behind another instruction. -/
def PhisFirst (body : List Instr) : Prop :=
  body.Pairwise fun earlier later => later.isPhi = true → earlier.isPhi = true

/-- A phi among some instructions has a value for entering from the given block. -/
def PhiNames (body : List Instr) (source : Nat) : Prop :=
  ∃ result incoming type, .phi result incoming type ∈ body ∧ source ∈ incoming.map Prod.snd

/-- A last instruction that returns nothing is for `void`, and one that returns a value writes
the given type with it. -/
def Returns (type : MachineType) (last : Instr) : Prop :=
  (last = .ret none → type = .void) ∧ ∀ t v, last = .ret (some (t, v)) → t = type

/-- A block of a function has the shape that later stages rely on. -/
structure WellFormed (f : FunctionDef) (b : Block) : Prop where
  ended : ∃ front last, b.body = front ++ [last] ∧ last.isTerminator = true ∧
    ∀ i ∈ front, i.isTerminator = false
  targets : ∀ target ∈ b.successors, target ∈ f.labels
  phis_first : PhisFirst b.body
  sources : ∀ source, PhiNames b.body source →
    ∃ c ∈ f.blocks, c.label = source ∧ b.label ∈ c.successors
  returns : ∀ last, b.body.getLast? = some last → Returns f.returnType last

/-- What a fault says about a block. -/
def Violates (f : FunctionDef) (b : Block) : ShapeFault → Prop
  | .noBlocks | .duplicateBlock _ => False
  | .emptyBlock label => b.label = label ∧ b.body = []
  | .missingTerminator label =>
    b.label = label ∧ ∃ last, b.body.getLast? = some last ∧ last.isTerminator = false
  | .earlyTerminator label =>
    b.label = label ∧ ∃ i ∈ b.body.dropLast, i.isTerminator = true
  | .unknownTarget label target => b.label = label ∧ target ∈ b.successors ∧ target ∉ f.labels
  | .misplacedPhi label => b.label = label ∧ ¬ PhisFirst b.body
  | .strangePhi label source =>
    b.label = label ∧ PhiNames b.body source ∧
      ∀ c ∈ f.blocks, c.label = source → label ∉ c.successors
  | .wrongReturn label expected =>
    b.label = label ∧ f.returnType = expected ∧
      ∃ last, b.body.getLast? = some last ∧ ¬ Returns expected last

/-- A block with a fault is not well formed. -/
theorem Violates.not_wellFormed (h : b.Violates f fault) : ¬ b.WellFormed f := by
  intro hwell
  obtain ⟨front, last, hbody, hlast, hfront⟩ := hwell.ended
  have hend : b.body.getLast? = some last := by simp [hbody]
  cases fault with
  | noBlocks => exact h
  | duplicateBlock label => exact h
  | emptyBlock label => simp [h.2] at hbody
  | missingTerminator label =>
    obtain ⟨-, i, hi, hterm⟩ := h
    obtain rfl : last = i := by simpa [hend] using hi
    rw [hlast] at hterm
    cases hterm
  | earlyTerminator label =>
    obtain ⟨-, i, hi, hterm⟩ := h
    rw [hbody, List.dropLast_concat] at hi
    rw [hfront i hi] at hterm
    cases hterm
  | unknownTarget label target => exact h.2.2 (hwell.targets target h.2.1)
  | misplacedPhi label => exact h.2 hwell.phis_first
  | strangePhi label source =>
    obtain ⟨rfl, hnames, hstrange⟩ := h
    obtain ⟨c, hc, hlabel, hleads⟩ := hwell.sources source hnames
    exact hstrange c hc hlabel hleads
  | wrongReturn label expected =>
    obtain ⟨-, rfl, i, hi, hreturns⟩ := h
    exact hreturns (hwell.returns i hi)

end Block

namespace FunctionDef

variable {f : FunctionDef} {fault : ShapeFault}

/-- A function has blocks with different labels, all of them well formed. -/
structure WellFormed (f : FunctionDef) : Prop where
  blocks_ne_nil : f.blocks ≠ []
  labels_nodup : f.labels.Nodup
  blocks : ∀ b ∈ f.blocks, b.WellFormed f

/-- What a fault says about a function. -/
def Violates (f : FunctionDef) : ShapeFault → Prop
  | .noBlocks => f.blocks = []
  | .duplicateBlock label => 2 ≤ f.labels.count label
  | fault => ∃ b ∈ f.blocks, b.Violates f fault

/-- A fault of a block is a fault of its function. -/
theorem violates_of_block {b : Block} (hb : b ∈ f.blocks) (h : b.Violates f fault) :
    f.Violates fault := by
  cases fault with
  | noBlocks => exact h.elim
  | duplicateBlock label => exact h.elim
  | _ => exact ⟨b, hb, h⟩

/-- A function with a fault is not well formed. -/
theorem Violates.not_wellFormed (h : f.Violates fault) : ¬ f.WellFormed := by
  intro hwell
  cases fault with
  | noBlocks => exact hwell.blocks_ne_nil h
  | duplicateBlock label =>
    have hcount := List.nodup_iff_count_le_one.mp hwell.labels_nodup label
    have htwice : 2 ≤ f.labels.count label := h
    omega
  | _ =>
    obtain ⟨b, hb, hfault⟩ := h
    exact hfault.not_wellFormed (hwell.blocks b hb)

/-! ## What each part of the check finds -/

/-- The search for a repeated label ends with one that stands further in front, or there is none. -/
theorem firstRepeated_spec (seen labels : List Nat) :
    match firstRepeated seen labels with
    | none => labels.Nodup ∧ ∀ l ∈ labels, l ∉ seen
    | some l => l ∈ labels ∧ (l ∈ seen ∨ 2 ≤ labels.count l) := by
  induction labels generalizing seen with
  | nil => simp [firstRepeated]
  | cons k labels ih =>
    unfold firstRepeated
    split_ifs with hk
    · exact ⟨by simp, .inl hk⟩
    · have hrest := ih (k :: seen)
      cases hfirst : firstRepeated (k :: seen) labels with
      | none =>
        rw [hfirst] at hrest
        obtain ⟨hnodup, hnew⟩ := hrest
        refine ⟨List.nodup_cons.mpr ⟨fun hmem => hnew k hmem (by simp), hnodup⟩, ?_⟩
        rintro l (_ | ⟨_, hl⟩)
        · exact hk
        · exact fun hseen => hnew l hl (List.mem_cons_of_mem k hseen)
      | some l =>
        rw [hfirst] at hrest
        obtain ⟨hmem, hl | hl⟩ := hrest
        · rcases List.mem_cons.mp hl with rfl | hseen
          · exact ⟨by simp, .inr (by simpa using List.count_pos_iff.mpr hmem)⟩
          · exact ⟨List.mem_cons_of_mem k hmem, .inl hseen⟩
        · exact ⟨List.mem_cons_of_mem k hmem, .inr (hl.trans List.count_le_count_cons)⟩

/-- The phis stand in front, also of what came before if that was another instruction. -/
def PhisStand (afterOther : Bool) (body : List Instr) : Prop :=
  Block.PhisFirst body ∧ (afterOther = true → ∀ i ∈ body, i.isPhi = false)

theorem phisStand_cons_phi {afterOther : Bool} {i : Instr} {body : List Instr}
    (hi : i.isPhi = true) :
    PhisStand afterOther (i :: body) ↔ afterOther = false ∧ PhisStand false body := by
  cases afterOther <;> simp [PhisStand, Block.PhisFirst, hi]

theorem phisStand_cons_other {afterOther : Bool} {i : Instr} {body : List Instr}
    (hi : i.isPhi = false) : PhisStand afterOther (i :: body) ↔ PhisStand true body := by
  have hfirst (hnone : ∀ j ∈ body, j.isPhi = false) : Block.PhisFirst body :=
    List.pairwise_of_forall_mem_list fun _ _ j hj hphi => by simp [hnone j hj] at hphi
  simp only [PhisStand, Block.PhisFirst, List.pairwise_cons, hi, Bool.false_eq_true, imp_false,
    Bool.not_eq_true, List.forall_mem_cons, true_and, forall_const]
  exact ⟨fun h => ⟨h.1.2, h.1.1⟩, fun h => ⟨⟨h.2, h.1⟩, fun _ => h.2⟩⟩

theorem phiNames_cons_phi {result : Nat} {incoming : List (Value × Nat)} {type : MachineType}
    {body : List Instr} {source : Nat} :
    Block.PhiNames (.phi result incoming type :: body) source ↔
      source ∈ incoming.map Prod.snd ∨ Block.PhiNames body source := by
  constructor
  · rintro ⟨r, inc, t, hmem, hsource⟩
    rcases List.mem_cons.mp hmem with heq | hmem
    · cases heq
      exact .inl hsource
    · exact .inr ⟨r, inc, t, hmem, hsource⟩
  · rintro (hsource | ⟨r, inc, t, hmem, hsource⟩)
    · exact ⟨result, incoming, type, by simp, hsource⟩
    · exact ⟨r, inc, t, List.mem_cons_of_mem _ hmem, hsource⟩

theorem phiNames_cons_other {i : Instr} {body : List Instr} {source : Nat} (hi : i.isPhi = false) :
    Block.PhiNames (i :: body) source ↔ Block.PhiNames body source := by
  constructor
  · rintro ⟨result, incoming, type, hmem, hsource⟩
    rcases List.mem_cons.mp hmem with rfl | hmem
    · cases hi
    · exact ⟨result, incoming, type, hmem, hsource⟩
  · rintro ⟨result, incoming, type, hmem, hsource⟩
    exact ⟨result, incoming, type, List.mem_cons_of_mem i hmem, hsource⟩

/-- Behind an instruction that is no phi there is no place for one. -/
theorem phiFault?_cons_other {label : Nat} {predecessors : List Nat} {afterOther : Bool} {i : Instr}
    {body : List Instr} (hi : i.isPhi = false) :
    phiFault? label predecessors afterOther (i :: body) =
      phiFault? label predecessors true body := by
  cases i <;> first | rfl | cases hi

/-- The walk over the phis of a block finds that they stand in front and name given blocks only, or
it stops at one that does not. -/
theorem phiFault?_spec (label : Nat) (predecessors : List Nat) (afterOther : Bool)
    (body : List Instr) :
    match phiFault? label predecessors afterOther body with
    | none => PhisStand afterOther body ∧
      ∀ source, Block.PhiNames body source → source ∈ predecessors
    | some fault => (fault = .misplacedPhi label ∧ ¬ PhisStand afterOther body) ∨
      ∃ source, fault = .strangePhi label source ∧ Block.PhiNames body source ∧
        source ∉ predecessors := by
  induction body generalizing afterOther with
  | nil => simp [phiFault?, PhisStand, Block.PhisFirst, Block.PhiNames]
  | cons i body ih =>
    cases hi : i.isPhi with
    | false =>
      rw [phiFault?_cons_other hi]
      simpa only [phisStand_cons_other hi, phiNames_cons_other hi] using ih true
    | true =>
      obtain ⟨result, incoming, type, rfl⟩ := Instr.exists_eq_phi hi
      simp only [phiFault?, phisStand_cons_phi hi, phiNames_cons_phi]
      split_ifs with hafter
      · exact .inl ⟨rfl, fun h => by simp [hafter] at h⟩
      · obtain rfl : afterOther = false := by simpa using hafter
        have hrest := ih false
        generalize hfind : List.find? _ incoming = found
        cases found with
        | some entry =>
          have hforeign : entry.2 ∉ predecessors := by simpa using List.find?_some hfind
          have hmem : entry.2 ∈ incoming.map Prod.snd :=
            List.mem_map_of_mem (List.mem_of_find?_eq_some hfind)
          exact .inr ⟨entry.2, rfl, .inl hmem, hforeign⟩
        | none =>
          have hknown : ∀ source ∈ incoming.map Prod.snd, source ∈ predecessors := by
            intro source hmem
            obtain ⟨entry, hentry, rfl⟩ := List.mem_map.mp hmem
            simpa using List.find?_eq_none.mp hfind entry hentry
          dsimp only
          split at hrest
          · exact ⟨⟨rfl, hrest.1⟩, fun source h => h.elim (hknown source) (hrest.2 source)⟩
          · rcases hrest with ⟨rfl, hplace⟩ | ⟨source, rfl, hnames, hforeign⟩
            · exact .inl ⟨rfl, fun h => hplace h.2⟩
            · exact .inr ⟨source, rfl, .inr hnames, hforeign⟩

theorem mem_predecessors {label source : Nat} :
    source ∈ f.predecessors label ↔ ∃ c ∈ f.blocks, c.label = source ∧ label ∈ c.successors := by
  simp only [predecessors, List.mem_map, List.mem_filter, List.contains_iff_mem]
  exact ⟨fun ⟨c, ⟨hc, hleads⟩, hlabel⟩ => ⟨c, hc, hlabel, hleads⟩,
    fun ⟨c, hc, hlabel, hleads⟩ => ⟨c, ⟨hc, hleads⟩, hlabel⟩⟩

theorem returnsAs_iff {type : MachineType} {last : Instr} :
    returnsAs type last = true ↔ Block.Returns type last := by
  cases last with
  | ret value =>
    rcases value with _ | ⟨t, v⟩
    · simp [returnsAs, Block.Returns]
    · simp [returnsAs, Block.Returns]
  | _ => simp [returnsAs, Block.Returns]

/-- The check of a block finds that it is well formed, or a fault of it. -/
theorem blockFault?_spec (f : FunctionDef) (b : Block) :
    match f.blockFault? b with
    | none => b.WellFormed f
    | some fault => b.Violates f fault := by
  rcases List.eq_nil_or_concat' b.body with hbody | ⟨front, last, hbody⟩
  · simp [blockFault?, hbody, Block.Violates]
  have hend : b.body.getLast? = some last := by simp [hbody]
  have hfront : b.body.dropLast = front := by simp [hbody]
  have hphis := phiFault?_spec b.label (f.predecessors b.label) false b.body
  simp only [PhisStand, Bool.false_eq_true, false_imp_iff, and_true, mem_predecessors] at hphis
  simp only [blockFault?, hend, hfront]
  cases hlast : last.isTerminator with
  | false => exact ⟨rfl, last, hend, hlast⟩
  | true =>
  cases hearly : front.any (·.isTerminator) with
  | true => exact ⟨rfl, by simpa [hfront] using hearly⟩
  | false =>
  cases htarget : last.successors.find? fun target => !(f.blocks.map (·.label)).contains target with
  | some target =>
    have hforeign := List.find?_some htarget
    exact ⟨rfl, by rw [Block.successors_eq hbody]; exact List.mem_of_find?_eq_some htarget,
      by simpa [FunctionDef.labels] using hforeign⟩
  | none =>
  cases hphi : phiFault? b.label (f.predecessors b.label) false b.body with
  | some fault =>
    rw [hphi] at hphis
    rcases hphis with ⟨rfl, hplace⟩ | ⟨source, rfl, hnames, hforeign⟩
    · exact ⟨rfl, hplace⟩
    · exact ⟨rfl, hnames, fun c hc hlabel hleads => hforeign ⟨c, hc, hlabel, hleads⟩⟩
  | none =>
  rw [hphi] at hphis
  cases hreturns : returnsAs f.returnType last with
  | false => exact ⟨rfl, rfl, last, hend, fun h => by simp [returnsAs_iff.mpr h] at hreturns⟩
  | true =>
    refine ⟨⟨front, last, hbody, hlast, by simpa using hearly⟩, ?_, hphis.1, hphis.2, ?_⟩
    · intro target hmem
      rw [Block.successors_eq hbody] at hmem
      simpa [FunctionDef.labels] using List.find?_eq_none.mp htarget target hmem
    · intro i hi
      obtain rfl : last = i := by simpa [hend] using hi
      exact returnsAs_iff.mp hreturns

/-- The check finds that a function is only declared or well formed, or a fault of a definition. -/
theorem fault?_spec (f : FunctionDef) :
    match f.fault? with
    | none => f.isExternal = true ∨ f.WellFormed
    | some fault => f.isExternal = false ∧ f.Violates fault := by
  unfold fault?
  split_ifs with hext hempty
  · exact .inl hext
  · exact ⟨by simpa using hext, by simpa [Violates] using hempty⟩
  have hlabels := firstRepeated_spec [] (f.blocks.map (·.label))
  cases hfirst : firstRepeated [] (f.blocks.map (·.label)) with
  | some l =>
    rw [hfirst] at hlabels
    exact ⟨by simpa using hext, hlabels.2.resolve_left (by simp)⟩
  | none =>
    rw [hfirst] at hlabels
    dsimp only
    cases hblocks : f.blocks.findSome? f.blockFault? with
    | some fault =>
      obtain ⟨b, hb, hfault⟩ := List.exists_of_findSome?_eq_some hblocks
      have hspec := blockFault?_spec f b
      rw [hfault] at hspec
      exact ⟨by simpa using hext, violates_of_block hb hspec⟩
    | none =>
      refine .inr ⟨by simpa using hempty, hlabels.1, fun b hb => ?_⟩
      have hspec := blockFault?_spec f b
      rw [List.findSome?_eq_none_iff.mp hblocks b hb] at hspec
      exact hspec

/-! ## Ways through an accepted function -/

namespace WellFormed

variable {left : List Nat} {l : Nat}

/-- A way through a well-formed function leads from block to block. -/
theorem mem_labels_of_path (h : f.WellFormed) (hpath : f.Path left l) :
    ∀ k ∈ left ++ [l], k ∈ f.labels := by
  induction hpath with
  | entry hf =>
    intro k hk
    obtain rfl := List.mem_singleton.mp hk
    simp [labels, hf]
  | @step left b l _ hb hl ih =>
    intro k hk
    rcases List.mem_append.mp hk with hk | hk
    · exact ih k hk
    · obtain rfl := List.mem_singleton.mp hk
      exact (h.blocks b hb).targets _ hl

/-- A way through a well-formed function can be continued unless its last block leaves the
function. -/
theorem path_continues_iff (h : f.WellFormed) (hpath : f.Path left l) :
    (∀ next, ¬ f.Path (left ++ [l]) next) ↔
      ∃ b ∈ f.blocks, b.label = l ∧ ∃ last, b.body.getLast? = some last ∧ last.isExit = true := by
  obtain ⟨b, hb, rfl⟩ := List.mem_map.mp (h.mem_labels_of_path hpath l (by simp))
  obtain ⟨front, last, hbody, hlast, -⟩ := (h.blocks b hb).ended
  have hend : b.body.getLast? = some last := by simp [hbody]
  have hsuccessors : b.successors = last.successors := Block.successors_eq hbody
  constructor
  · intro hstops
    refine ⟨b, hb, rfl, last, hend, (Instr.successors_eq_nil_iff hlast).mp ?_⟩
    refine List.eq_nil_iff_forall_not_mem.mpr fun next hnext => hstops next ?_
    exact hpath.step hb (hsuccessors ▸ hnext)
  · rintro ⟨c, hc, hlabel, i, hi, hexit⟩ next hnext
    obtain rfl : c = b := List.inj_on_of_nodup_map h.labels_nodup hc hb hlabel
    obtain rfl : last = i := by simpa [hend] using hi
    generalize hleft : left ++ [c.label] = left' at hnext
    cases hnext with
    | entry => simp at hleft
    | @step _ d _ _ hd hleads =>
      obtain ⟨-, hsame⟩ := List.append_inj' hleft rfl
      obtain rfl : c = d := List.inj_on_of_nodup_map h.labels_nodup hc hd (by simpa using hsame)
      rw [hsuccessors, (Instr.successors_eq_nil_iff hlast).mpr hexit] at hleads
      cases hleads

end WellFormed

/-- The check accepts exactly the functions that are only declared and the well-formed ones, and
otherwise names a fault of the function. A way through an accepted definition leads from
block to block, however long it is, and stops only where a block leaves the function. -/
theorem fault?_eq_none_iff_wellFormed (f : FunctionDef) :
    (f.fault? = none ↔ f.isExternal = true ∨ f.WellFormed) ∧
      (∀ fault, f.fault? = some fault → f.Violates fault) ∧
      (f.fault? = none → f.isExternal = false → ∀ left l, f.Path left l →
        (∀ k ∈ left ++ [l], k ∈ f.labels) ∧
        ((∀ next, ¬ f.Path (left ++ [l]) next) ↔
          ∃ b ∈ f.blocks, b.label = l ∧
            ∃ last, b.body.getLast? = some last ∧ last.isExit = true)) := by
  have hspec := fault?_spec f
  refine ⟨⟨fun h => ?_, fun h => ?_⟩, fun fault h => ?_, fun h hext left l hpath => ?_⟩
  · rwa [h] at hspec
  · cases hfault : f.fault? with
    | none => rfl
    | some fault =>
      rw [hfault] at hspec
      rcases h with hext | hwell
      · simp [hext] at hspec
      · exact absurd hwell hspec.2.not_wellFormed
  · rw [h] at hspec
    exact hspec.2
  · rw [h] at hspec
    have hwell := hspec.resolve_left (by simp [hext])
    exact ⟨hwell.mem_labels_of_path hpath, hwell.path_continues_iff hpath⟩

/-- A loop that is left when its parameter says so. Its phi has a value for entering from the
entry, and one for entering from the given block. -/
def spinning (source : Nat) : FunctionDef where
  name := "spin"
  returnType := .void
  params := [(0, .bool)]
  blocks := [
    ⟨0, none, [.jump 1]⟩,
    ⟨1, none, [.phi 1 [(.bool true, 0), (.temp 0, source)] .bool, .branch (.temp 1) 1 2]⟩,
    ⟨2, none, [.ret none]⟩]
  isExternal := false
  isVararg := false
  linkage := .external
  location := none

/-- The loop goes on from itself, and from nowhere else but the entry. -/
theorem fault?_eq_none_iff_wellFormed_spinning :
    (spinning 2).fault? = some (.strangePhi 1 2) ∧ (spinning 2).Violates (.strangePhi 1 2) ∧
      (spinning 1).fault? = none ∧ (spinning 1).WellFormed ∧
      (spinning 1).Path [0, 1, 1] 2 ∧ (∀ k ∈ [0, 1, 1, 2], k ∈ (spinning 1).labels) ∧
      ∀ next, ¬ (spinning 1).Path [0, 1, 1, 2] next := by
  have hfault : (spinning 2).fault? = some (.strangePhi 1 2) := by decide
  have haccepted : (spinning 1).fault? = none := by decide
  have hpath : (spinning 1).Path [0, 1, 1] 2 := by
    have hfirst : (spinning 1).Path [0] 1 := by
      have hentry : ⟨0, none, [.jump 1]⟩ ∈ (spinning 1).blocks := by decide
      exact Path.step (l := 1) (.entry rfl) hentry (by decide)
    have hloop : ⟨1, none, [.phi 1 [(.bool true, 0), (.temp 0, 1)] .bool,
        .branch (.temp 1) 1 2]⟩ ∈ (spinning 1).blocks := by decide
    have hagain : (spinning 1).Path [0, 1] 1 := hfirst.step (l := 1) hloop (by decide)
    exact hagain.step (l := 2) hloop (by decide)
  obtain ⟨hiff, -, hways⟩ := fault?_eq_none_iff_wellFormed (spinning 1)
  obtain ⟨hlabels, hstops⟩ := hways haccepted rfl [0, 1, 1] 2 hpath
  exact ⟨hfault, (fault?_eq_none_iff_wellFormed (spinning 2)).2.1 _ hfault, haccepted,
    (hiff.mp haccepted).resolve_left (by decide), hpath, hlabels,
    hstops.mpr ⟨⟨2, none, [.ret none]⟩, by decide, rfl, .ret none, rfl, rfl⟩⟩

end FunctionDef

end SsaLowering
