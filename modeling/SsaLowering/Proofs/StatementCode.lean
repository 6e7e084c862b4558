import SsaLowering.Proofs.Charting
import SsaLowering.Proofs.Laying

/-!
# Every statement is laid out

One statement for each action of the lowering of statements. Whatever fails inside, the code
that is left has no loose ends: every label that is branched to has its block, and every
block but the last has its terminator. If nothing fails, the code is charted.
-/

namespace SsaLowering

namespace Lower

open BodyState Spot Charting

variable {α : Type} {s s' : BodyState} {n : Nat}

/-- The branch of a choice: the first side is open, and two labels wait for their blocks. -/
theorem exists_openBranch (hs : s.Steady) (ho : s.StandsOpen) (hn : s.builder.nextLabel = n)
    (v : Value) : ∃ s', Reaches (openBranch v) s ⟨n + 1, n + 2⟩ s'
      [.instr (.branch v n (n + 1)), .label n] n (n + 3) ∧ s'.StandsOpen ∧ s'.Unused (n + 1) ∧
      s'.Unused (n + 2) := by
  subst hn
  obtain ⟨s', h, ho'⟩ := reaches_branchTo (hs.draw 3).steady ((standsOpen_draw 3).mpr ho) v
    s.builder.nextLabel (s.builder.nextLabel + 1) (hs.unused_draw (Nat.le_refl _) (by omega)) "then"
  have hu (k : Nat) (hk : 0 < k) (hk' : k < 3) : s'.Unused (s.builder.nextLabel + k) :=
    (hs.unused_draw (by omega) (by omega)).writes h.writes (by simp; omega)
  exact ⟨s', .of_draw (h.returning _) hs rfl, ho', hu 1 (by omega) (by omega),
    hu 2 (by omega) (by omega)⟩

/-- The beginning of a loop without an update: the block of the condition is open. -/
theorem exists_openWhile (hs : s.Steady) (ho : s.StandsOpen) (hn : s.builder.nextLabel = n) :
    ∃ s', Reaches openWhile s ⟨n, n + 1, n, n + 2⟩ s' [.instr (.jump n), .label n] n (n + 3) ∧
      s'.StandsOpen ∧ s'.Unused (n + 1) ∧ s'.Unused (n + 2) := by
  subst hn
  obtain ⟨s', h, ho'⟩ := reaches_jumpTo (hs.draw 3).steady ((standsOpen_draw 3).mpr ho)
    s.builder.nextLabel (hs.unused_draw (Nat.le_refl _) (by omega)) "while.cond"
  have hu (k : Nat) (hk : 0 < k) (hk' : k < 3) : s'.Unused (s.builder.nextLabel + k) :=
    (hs.unused_draw (by omega) (by omega)).writes h.writes (by simp; omega)
  exact ⟨s', .of_draw (h.returning _) hs rfl, ho', hu 1 (by omega) (by omega),
    hu 2 (by omega) (by omega)⟩

/-- The beginning of a loop with an update. -/
theorem exists_openFor (hs : s.Steady) (ho : s.StandsOpen) (hn : s.builder.nextLabel = n) :
    ∃ s', Reaches openFor s ⟨n, n + 1, n + 2, n + 3⟩ s' [.instr (.jump n), .label n] n (n + 4) ∧
      s'.StandsOpen ∧ s'.Unused (n + 1) ∧ s'.Unused (n + 2) ∧ s'.Unused (n + 3) := by
  subst hn
  obtain ⟨s', h, ho'⟩ := reaches_jumpTo (hs.draw 4).steady ((standsOpen_draw 4).mpr ho)
    s.builder.nextLabel (hs.unused_draw (Nat.le_refl _) (by omega)) "for.cond"
  have hu (k : Nat) (hk : 0 < k) (hk' : k < 4) : s'.Unused (s.builder.nextLabel + k) :=
    (hs.unused_draw (by omega) (by omega)).writes h.writes (by simp; omega)
  exact ⟨s', .of_draw (h.returning _) hs rfl, ho', hu 1 (by omega) (by omega),
    hu 2 (by omega) (by omega), hu 3 (by omega) (by omega)⟩

/-- Behind a terminator, the beginning of a loop with an update fails and only draws labels. -/
theorem exec_openFor_of_closed (hs : s.Steady) (ho : ¬ s.StandsOpen) :
    ∃ l, exec openFor s =
      (.error (.unplaced (.internal (BuildFault.terminatedBlock l).message)), s.draw 4) := by
  obtain ⟨l, hl⟩ := exec_emit_of_closed (hs.draw 4).steady ho (.jump s.builder.nextLabel)
  refine ⟨l, ?_⟩
  have hjump : exec (jumpTo s.builder.nextLabel s.builder.nextLabel "for.cond") (s.draw 4) =
      (.error (.unplaced (.internal (BuildFault.terminatedBlock l).message)), s.draw 4) :=
    exec_bind_of_error hl
  exact exec_bind_of_error (f := fun _ => pure _) hjump

/-- An action has succeeded, and no error was reported meanwhile. -/
def Clean {α : Type} (s : BodyState) (result : Except LoweringError α × BodyState) : Prop :=
  (∃ a, result.1 = .ok a) ∧ result.2.log.count .error = s.log.count .error

theorem not_clean_error {s s' : BodyState} {e : LoweringError} :
    ¬ Clean s ((.error e : Except LoweringError α), s') := fun h => by simp [Clean] at h

theorem clean_ok {s s' : BodyState} {a : α} :
    Clean s (.ok a, s') ↔ s'.log.count .error = s.log.count .error := by simp [Clean]

theorem Clean.errors {s s' : BodyState} {result : Except LoweringError α}
    (h : Clean s (result, s')) : s'.log.count .error = s.log.count .error := h.2

/-- Started at an open place, the action lays out code, whatever fails inside. If nothing fails,
its code is charted. -/
def LaysFrom (type : MachineType) (s : BodyState) (place : Site) (action : Lower Unit)
    (P : Charting) : Prop :=
  ∃ x q, Laid type [] s.builder.nextLabel s (exec action s).2 (some place) x q ∧
    (Clean s (exec action s) →
      ∃ w : Chart, w.items = x.map Spot.item ∧ P s w (exec action s).2)

/-- Started in any open block, the action lays out code that is charted if nothing fails. -/
def Lays (type : MachineType) (action : Lower Unit) (P : Charting) : Prop :=
  ∀ s place, s.Steady → s.Stands (some place) → LaysFrom type s place action P

/-- The action never fails. -/
def Recovers (action : Lower Unit) : Prop :=
  ∀ s, ∃ s', exec action s = (.ok (), s')

/-- Started in an open block, the action ends in an open block. -/
def StaysOpen (action : Lower Unit) : Prop :=
  ∀ s, s.Steady → s.StandsOpen → (exec action s).2.StandsOpen

variable {type : MachineType} {place : Site} {v : Value} {low : Nat} {owed : List Nat}
  {P Q R : Charting}

/-- An action that never fails as one part of the code. -/
theorem Lays.exists_laid {action : Lower Unit} (h : Lays type action P) (h' : Recovers action)
    (owed : List Nat) (hs : s.Steady) (hp : s.Stands (some place))
    (hlow : low ≤ s.builder.nextLabel) :
    ∃ s' x q, exec action s = (.ok (), s') ∧ Laid type owed low s s' (some place) x q ∧
      (s'.log.count .error = s.log.count .error →
        ∃ w : Chart, w.items = x.map Spot.item ∧ P s w s') := by
  obtain ⟨x, q, hx, hchart⟩ := h s place hs hp
  obtain ⟨s', hs'⟩ := h' s
  rw [hs'] at hx hchart
  exact ⟨s', x, q, hs', hx.mono (by simp) hlow, fun herrors => hchart ⟨⟨(), rfl⟩, herrors⟩⟩

/-- The code of an expression, and code that uses its value. -/
theorem laysFrom_of_emits (type : MachineType) {known : Set Nat} {temps : α → Set Nat}
    {action : Lower α} {f : α → Lower Unit} {rest : α → Charting} (ha : Emits known action temps)
    (hs : s.Steady) (hp : s.Stands (some place)) (hknown : known ⊆ place.avail ∪ s.builder.base)
    (hf : ∀ a s' p', s.builder.base ⊆ s'.builder.base → s'.Steady → s'.Stands (some p') →
      temps a ⊆ p'.avail ∪ s'.builder.base → LaysFrom type s' p' (f a) (rest a)) :
    LaysFrom type s place (action >>= f) (Charting.Bind action rest) := by
  obtain ⟨x, avail, hx, htemps⟩ := ha s place.avail hs hp.1 hknown
  obtain ⟨q, rfl, l₁⟩ := hx.laid type [] hs hp (Nat.le_refl _)
  unfold LaysFrom
  rcases hexec : exec action s with ⟨e | a, s₁⟩
  all_goals rw [hexec] at hx l₁ htemps
  · rw [exec_bind_of_error hexec]
    exact ⟨x, some q, l₁, fun hclean => absurd hclean not_clean_error⟩
  · rw [exec_bind_of_ok hexec]
    have hknown' : temps a ⊆ q.avail ∪ s₁.builder.base := by
      rw [hx.base]
      exact htemps a rfl
    obtain ⟨y, r, l₂, hchart⟩ := hf a s₁ q l₁.base l₁.writes.steady l₁.stands hknown'
    refine ⟨x ++ y, r, l₁.append (l₂.mono (List.Subset.refl _) (l₁.le_next (Nat.le_refl _))),
      fun hclean => ?_⟩
    have e₁ : s.log.count .error ≤ s₁.log.count .error := l₁.writes.errors
    have e₂ := l₂.writes.errors
    have heq := hclean.2
    obtain ⟨w, hw, hrest⟩ := hchart ⟨hclean.1, by omega⟩
    exact ⟨_, by simp [hw], .intro (hx.addsPiece hexec) hrest⟩

/-- A statement that begins with the code of an expression. -/
theorem Lays.of_emits {temps : α → Set Nat} {x : Lower α} {f : α → Lower Unit}
    {rest : α → Charting} (hx : Emits ∅ x temps) (hf : ∀ a s place, s.Steady →
      s.Stands (some place) → temps a ⊆ place.avail ∪ s.builder.base →
      LaysFrom type s place (f a) (rest a)) :
    Lays type (x >>= f) (Charting.Bind x rest) := fun _ _ hs hp =>
  laysFrom_of_emits type hx hs hp (Set.empty_subset _) fun a s' p' _ => hf a s' p'

theorem Lays.pure : Lays type (pure ()) Nothing :=
  fun s _ hs hp => ⟨[], _, .refl hs hp, fun _ => ⟨[], rfl, .intro s⟩⟩

theorem Lays.fail (cause : Cause) : Lays type (fail cause) P :=
  fun _ _ hs hp => ⟨[], _, .refl hs hp, fun hclean => absurd hclean not_clean_error⟩

theorem Lays.located {location : Option Location} {action : Lower Unit} (h : Lays type action P) :
    Lays type (located location action) P := by
  intro s place hs hp
  obtain ⟨x, q, hx, hchart⟩ := h s place hs hp
  unfold LaysFrom
  rw [exec_located]
  rcases hexec : exec action s with ⟨e | a, s₁⟩
  all_goals rw [hexec] at hx hchart
  · exact ⟨x, q, hx, fun hclean => absurd hclean not_clean_error⟩
  · exact ⟨x, q, hx, hchart⟩

theorem Lays.recovering {action : Lower Unit} (h : Lays type action P) :
    Lays type (recovering action) P := by
  intro s place hs hp
  obtain ⟨x, q, hx, hchart⟩ := h s place hs hp
  unfold LaysFrom
  rw [exec_recovering]
  rcases hexec : exec action s with ⟨e | a, s₁⟩
  all_goals rw [hexec] at hx hchart
  · have hreport : s₁.Writes { s₁ with log := s₁.log.report e.toDiagnostic } [] :=
      ⟨⟨hx.writes.steady.front, hx.writes.steady.scope⟩, .refl _, by simp⟩
    have hall := hx.append (.of_writes hreport rfl rfl hx.stands)
    rw [List.append_nil] at hall
    refine ⟨x, q, hall, fun hclean => ?_⟩
    -- The report counts as an error.
    have hle : s.log.count .error ≤ s₁.log.count .error := hx.writes.errors
    have heq := hclean.errors
    simp only [DiagnosticLog.count_report, LoweringError.toDiagnostic, Diagnostic.error,
      if_true] at heq
    omega
  · exact ⟨x, q, hx, hchart⟩

theorem recovers_recovering (action : Lower Unit) : Recovers (recovering action) := by
  intro s
  rw [exec_recovering]
  rcases exec action s with ⟨e | a, s₁⟩ <;> exact ⟨_, rfl⟩

theorem recovers_pure : Recovers (pure ()) := fun s => ⟨s, rfl⟩

/-- A return ends its block. -/
theorem laysFrom_ret {result : Option (MachineType × Value)} {marks : Chart}
    (hmarks : marks.items = []) (hs : s.Steady) (hp : s.Stands (some place))
    (htemps : (Instr.ret result).temps ⊆ place.avail ∪ s.builder.base)
    (hreturns : FunctionDef.returnsAs type (.ret result) = true) :
    LaysFrom type s place (build (Build.ret result)) (Leaves marks result) := by
  obtain ⟨s', h, hterm⟩ := reaches_emit hs hp.1 (i := .ret result) rfl rfl
  have hclosed : ¬ s'.StandsOpen := by
    rw [StandsOpen, hterm]
    simp [Instr.isTerminator]
  unfold LaysFrom
  rw [Build.ret, h.exec]
  refine ⟨[.line place.label place.avail (.ret result)], none, ⟨⟨h.writes,
    ⟨rfl, rfl, rfl, by simp [Instr.isPhi], rfl⟩, hclosed, h.base.ge⟩, by simp,
    by simp [Grounded], fun whole _ _ => ?_⟩, fun _ => ?_⟩
  · rw [h.base]
    exact Spot.allSupported_line.mpr
      ⟨⟨fun _ => htemps, by simp [Instr.successors], by simp, hreturns⟩, Spot.allSupported_nil⟩
  · exact ⟨_, by simp [hmarks, item], .intro ⟨h.exec, h.writes.builder.listing⟩⟩

/-- The code of a choice behind its condition. -/
theorem laysFrom_choice {first second : Lower Unit} (c : Term) (hf : Lays type first P)
    (hf' : Recovers first) (hg : Lays type second Q) (hg' : Recovers second) (hs : s.Steady)
    (hp : s.Stands (some place)) (hv : v.temps ⊆ place.avail ∪ s.builder.base) :
    LaysFrom type s place (do
      let labels ← openBranch v
      first
      proceedTo labels.merge labels.other "else"
      second
      proceedTo labels.merge labels.merge "ifcont") (Decide c P Q v) := by
  unfold LaysFrom
  generalize hn : s.builder.nextLabel = n
  let owed := [n, n + 1, n + 2]
  obtain ⟨s₁, h₁, ho₁, hother, hmerge⟩ := exists_openBranch hs hp.1 hn v
  have l₁ : Laid type owed n s s₁ (some place) _ _ := h₁.laid ho₁ rfl (Nat.le_refl n)
    fun whole howed => supported_branch (h₁.base ▸ hv) (howed n (by simp [owed]))
      (howed (n + 1) (by simp [owed]))
  have hn₁ : n + 3 ≤ s₁.builder.nextLabel := h₁.next.ge
  obtain ⟨s₂, x, q, h₂, l₂, hx⟩ := hf.exists_laid hf' owed l₁.writes.steady l₁.stands hn₁
  obtain ⟨s₃, z, h₃, ho₃, l₃, hz, hlines⟩ := exists_proceedTo type l₂.writes.steady l₂.stands
    (show n + 2 ∈ owed by simp [owed]) (l₂.unused hother (by omega)) (show n ≤ n + 1 by omega)
    "else"
  obtain ⟨s₄, y, r, h₄, l₄, hy⟩ := hg.exists_laid hg' owed l₃.writes.steady l₃.stands
    (h₃.next ▸ l₂.le_next hn₁)
  have hmerge₃ : s₃.Unused (n + 2) := h₃.unused (l₂.unused hmerge (by omega)) (by simp)
  obtain ⟨s₅, z', h₅, ho₅, l₅, hz', hlines'⟩ := exists_proceedTo type l₄.writes.steady l₄.stands
    (show n + 2 ∈ owed by simp [owed]) (l₄.unused hmerge₃ (by omega)) (show n ≤ n + 2 by omega)
    "ifcont"
  simp only [exec_bind, h₁.exec, h₂, h₃.exec, h₄, h₅.exec]
  have hle : n ≤ n + 3 := by omega
  have hall := l₁.append ((l₂.mono (List.Subset.refl _) hle).append
    (l₃.append ((l₄.mono (List.Subset.refl _) hle).append l₅)))
  refine ⟨_, _, hall.settle (by simp [owed, hz, hz']), fun hclean => ?_⟩
  have e₁ := l₁.writes.errors
  have e₂ := l₂.writes.errors
  have e₃ := l₃.writes.errors
  have e₄ := l₄.writes.errors
  have e₅ := l₅.writes.errors
  have heq := hclean.errors
  obtain ⟨u, hu, hP⟩ := hx (by omega)
  obtain ⟨w, hw, hQ⟩ := hy (by omega)
  exact ⟨_, by simp [hu, hw, hlines, hlines', item, entry], .intro (h₁.addsOpen ho₁) hP
    (proceeds_of_reaches h₃ ho₃) hQ (proceeds_of_reaches h₅ ho₅)⟩

/-- The head of a loop: the code of the condition, and the way into the body. -/
theorem laid_enterBody (type : MachineType) {test : Term → Lower Value}
    (condition : Option Term) (hc : ∀ c, Emits ∅ (test c) Value.temps) (labels : LoopLabels)
    (hint : String)
    (hs : s.Steady) (hp : s.Stands (some place)) (hbody : labels.body ∈ owed)
    (hexit : labels.exit ∈ owed) (hl : s.Unused labels.body) (hlow : low ≤ labels.body) :
    (∃ e s' x q, exec (enterBody (condition.map test) labels hint) s = (.error e, s') ∧
      Laid type [] low s s' (some place) x q) ∨
    ∃ s' x w, exec (enterBody (condition.map test) labels hint) s = (.ok (), s') ∧
      Laid type owed low s s' (some place) x (some (atEntry labels.body)) ∧
      entry labels.body ∈ x ∧ (∀ k, k ≠ labels.body → s.Unused k → s'.Unused k) ∧
      Chart.items w = x.map Spot.item ∧ Enter test labels hint condition s w s' := by
  have hlow' : low ≤ s.builder.nextLabel := Nat.le_of_lt (Nat.lt_of_le_of_lt hlow hl.2)
  cases condition with
  | none =>
    obtain ⟨s', h, ho, l⟩ := exists_jumpTo type hs hp hbody hl hlow hint
    exact .inr ⟨s', _, _, h.exec, l, by simp, fun k hk hu => h.unused hu (by simp [hk]), by
      simp [item, entry], Always.intro (h.addsOpen ho)⟩
  | some c =>
    obtain ⟨x, avail, hx, htemps⟩ := hc c s place.avail hs hp.1 (Set.empty_subset _)
    obtain ⟨q, rfl, l₁⟩ := hx.laid type [] hs hp (Nat.le_refl _)
    rcases hexec : exec (test c) s with ⟨e | v, s₁⟩
    all_goals rw [hexec] at l₁ htemps hx
    · exact .inl ⟨e, s₁, x, some q, exec_bind_of_error hexec, l₁.mono (List.Subset.refl _) hlow'⟩
    · have hu₁ (k : Nat) (hk : s.Unused k) : s₁.Unused k := l₁.unused hk hk.2
      have hv : v.temps ⊆ q.avail ∪ s₁.builder.base := by
        rw [hx.base]
        exact htemps v rfl
      obtain ⟨s₂, h₂, ho₂, l₂⟩ := exists_branchTo type hx.writes.steady l₁.stands hv hbody hexit
        (hu₁ _ hl) hlow hint
      exact .inr ⟨s₂, _, _, (exec_bind_of_ok hexec).trans h₂.exec,
        (l₁.mono (List.nil_subset _) hlow').append l₂, by simp,
        fun k hk hu => h₂.unused (hu₁ k hu) (by simp [hk]), by simp [item, entry],
        .intro (hx.addsPiece hexec) (.intro (h₂.addsOpen ho₂))⟩

/-- The code of a loop without an update. -/
theorem Lays.whileLoop {test : Term → Lower Value} {body : Lower Unit}
    (hc : ∀ c, Emits ∅ (test c) Value.temps) (c : Term) (hb : Lays type body P)
    (hb' : Recovers body) : Lays type (lowerWhile (test c) body) (While test c P) := by
  intro s place hs hp
  unfold LaysFrom
  generalize hn : s.builder.nextLabel = n
  let owed := [n, n + 1, n + 2]
  obtain ⟨s₁, h₁, ho₁, hbody, hexit⟩ := exists_openWhile hs hp.1 hn
  have l₁ : Laid type [n] n s s₁ (some place) _ _ := h₁.laid ho₁ rfl (Nat.le_refl n)
    fun whole howed => supported_jump (howed n (by simp))
  have henter := laid_enterBody type (some c) hc ⟨n, n + 1, n, n + 2⟩ "while.body"
    l₁.writes.steady l₁.stands (show n + 1 ∈ owed by simp [owed])
    (show n + 2 ∈ owed by simp [owed]) hbody (show n ≤ n + 1 by omega)
  simp only [Option.map_some] at henter
  rw [lowerWhile, exec_bind_of_ok h₁.exec]
  rcases henter with ⟨e, s₂, x, q, h₂, l₂⟩ | ⟨s₂, x, u, h₂, l₂, hx, hu₂, hu, henter⟩
  · rw [exec_bind_of_error h₂]
    exact ⟨_, _, (l₁.append (l₂.mono (List.nil_subset _) (Nat.le_refl n))).settle (by simp),
      fun hclean => absurd hclean not_clean_error⟩
  · have hn₁ : n + 3 ≤ s₁.builder.nextLabel := h₁.next.ge
    obtain ⟨s₃, y, r, h₃, l₃, hy⟩ := hb.exists_laid hb' owed l₂.writes.steady l₂.stands
      (l₂.le_next hn₁)
    obtain ⟨s₄, z, h₄, ho₄, l₄, hz, hlines⟩ := exists_proceedTo type l₃.writes.steady l₃.stands
      (show n ∈ owed by simp [owed]) (l₃.unused (hu₂ (n + 2) (by simp) hexit) (by omega))
      (show n ≤ n + 2 by omega) "while.end"
    simp only [exec_bind, h₂, h₃, h₄.exec]
    have hall := (l₁.mono (by simp [owed]) (Nat.le_refl n)).append
      (l₂.append ((l₃.mono (List.Subset.refl _) (by omega)).append l₄))
    refine ⟨_, _, hall.settle (by simp [owed, hx, hz]), fun hclean => ?_⟩
    have e₁ := l₁.writes.errors
    have e₂ := l₂.writes.errors
    have e₃ := l₃.writes.errors
    have e₄ := l₄.writes.errors
    have heq := hclean.errors
    obtain ⟨w, hw, hP⟩ := hy (by omega)
    exact ⟨_, by simp [hu, hw, hlines, item, entry],
      .intro (h₁.addsOpen ho₁) henter hP (proceeds_of_reaches h₄ ho₄)⟩

/-- The code of a loop with an update, behind the part that runs once. -/
theorem laysFrom_forLoop {test : Term → Lower Value} {update body : Lower Unit}
    (hc : ∀ c, Emits ∅ (test c) Value.temps) (condition : Option Term)
    (hu : Lays type update Q) (hu' : Recovers update) (huo : StaysOpen update)
    (hb : Lays type body P) (hb' : Recovers body) (R : Charting) (hs : s.Steady)
    (hp : s.Stands (some place)) : LaysFrom type s place (do
      let labels ← openFor
      enterBody (condition.map test) labels "for.body"
      body
      proceedTo labels.update labels.update "for.inc"
      update
      jumpTo labels.condition labels.exit "for.end") fun s w s' =>
        ∀ s₀ x₀, R s₀ x₀ s → For test R condition Q P s₀ (x₀ ++ w) s' := by
  unfold LaysFrom
  generalize hn : s.builder.nextLabel = n
  let owed := [n, n + 1, n + 2, n + 3]
  obtain ⟨s₁, h₁, ho₁, hbody, hupdate, hexit⟩ := exists_openFor hs hp.1 hn
  have l₁ : Laid type [n] n s s₁ (some place) _ _ := h₁.laid ho₁ rfl (Nat.le_refl n)
    fun whole howed => supported_jump (howed n (by simp))
  rw [exec_bind_of_ok h₁.exec]
  rcases laid_enterBody type condition hc ⟨n, n + 1, n + 2, n + 3⟩ "for.body" l₁.writes.steady
    l₁.stands (show n + 1 ∈ owed by simp [owed]) (show n + 3 ∈ owed by simp [owed]) hbody
    (show n ≤ n + 1 by omega) with
    ⟨e, s₂, x, q, h₂, l₂⟩ | ⟨s₂, x, v, h₂, l₂, hx, hu₂, hv, henter⟩
  · rw [exec_bind_of_error h₂]
    exact ⟨_, _, (l₁.append (l₂.mono (List.nil_subset _) (Nat.le_refl n))).settle (by simp),
      fun hclean => absurd hclean not_clean_error⟩
  · have hn₁ : n + 4 ≤ s₁.builder.nextLabel := h₁.next.ge
    obtain ⟨s₃, y, r, h₃, l₃, hy⟩ := hb.exists_laid hb' owed l₂.writes.steady l₂.stands
      (l₂.le_next hn₁)
    obtain ⟨s₄, z, h₄, ho₄, l₄, hz, hlines⟩ := exists_proceedTo type l₃.writes.steady l₃.stands
      (show n + 2 ∈ owed by simp [owed])
      (l₃.unused (hu₂ (n + 2) (by simp) hupdate) (by omega)) (show n ≤ n + 2 by omega) "for.inc"
    have hn₄ : n + 4 ≤ s₄.builder.nextLabel := h₄.next ▸ l₃.le_next (l₂.le_next hn₁)
    obtain ⟨s₅, t, r', h₅, l₅, ht⟩ := hu.exists_laid hu' owed l₄.writes.steady l₄.stands hn₄
    have ho₅ : s₅.StandsOpen := by
      have hopen := huo s₄ l₄.writes.steady ho₄
      rwa [h₅] at hopen
    have hexit₃ : s₃.Unused (n + 3) := l₃.unused (hu₂ (n + 3) (by simp) hexit) (by omega)
    have hexit₅ : s₅.Unused (n + 3) := l₅.unused (h₄.unused hexit₃ (by simp)) (by omega)
    cases r' with
    | none => exact absurd ho₅ l₅.stands
    | some r' =>
      obtain ⟨s₆, h₆, ho₆, l₆⟩ := exists_jumpTo type l₅.writes.steady l₅.stands
        (show n ∈ owed by simp [owed]) hexit₅ (show n ≤ n + 3 by omega) "for.end"
      simp only [exec_bind, h₂, h₃, h₄.exec, h₅, h₆.exec]
      have hall := (l₁.mono (by simp [owed]) (Nat.le_refl n)).append
        (l₂.append ((l₃.mono (List.Subset.refl _) (by omega)).append
          (l₄.append ((l₅.mono (List.Subset.refl _) (by omega)).append l₆))))
      refine ⟨_, _, hall.settle (by simp [owed, hx, hz]), fun hclean => ?_⟩
      have e₁ := l₁.writes.errors
      have e₂ := l₂.writes.errors
      have e₃ := l₃.writes.errors
      have e₄ := l₄.writes.errors
      have e₅ := l₅.writes.errors
      have e₆ := l₆.writes.errors
      have heq := hclean.errors
      obtain ⟨w, hw, hP⟩ := hy (by omega)
      obtain ⟨w', hw', hQ⟩ := ht (by omega)
      exact ⟨_, by simp [hv, hw, hw', hlines, item, entry], fun s₀ x₀ hinit =>
        .intro hinit hp.1 (h₁.addsOpen ho₁) henter hP (proceeds_of_reaches h₄ ho₄) hQ ho₅
          (h₆.addsOpen ho₆)⟩

theorem Lays.branch {test : Term → Lower Value} {first second : Lower Unit}
    (hc : ∀ c, Emits ∅ (test c) Value.temps) (c : Term) (hf : Lays type first P)
    (hf' : Recovers first) (hg : Lays type second Q) (hg' : Recovers second) :
    Lays type (lowerBranch (test c) first second) (Branch test c P Q) :=
  .of_emits (hc c) fun _ _ _ hs hp hv => laysFrom_choice c hf hf' hg hg' hs hp hv

/-- The code of a loop with an update. If the part that runs once leaves, there is no more. -/
theorem Lays.forLoop {test : Term → Lower Value} {init update body : Lower Unit}
    (hi : Lays type init R) (hc : ∀ c, Emits ∅ (test c) Value.temps) (condition : Option Term)
    (hu : Lays type update Q) (hu' : Recovers update) (huo : StaysOpen update)
    (hb : Lays type body P) (hb' : Recovers body) :
    Lays type (lowerFor init (condition.map test) update body) (For test R condition Q P) := by
  intro s place hs hp
  obtain ⟨x, q, l₁, hinit⟩ := hi s place hs hp
  unfold LaysFrom
  rcases hexec : exec init s with ⟨e | a, s₁⟩
  all_goals rw [hexec] at l₁ hinit
  · rw [lowerFor, exec_bind_of_error hexec]
    exact ⟨x, q, l₁, fun hclean => absurd hclean not_clean_error⟩
  · rw [lowerFor, exec_bind_of_ok hexec]
    cases q with
    | none =>
      obtain ⟨l, hl⟩ := exec_openFor_of_closed l₁.writes.steady l₁.stands
      rw [exec_bind_of_error hl]
      have hall := l₁.append (.of_writes (l₁.writes.steady.draw 4) rfl rfl l₁.stands)
      exact ⟨_, _, hall, fun hclean => absurd hclean not_clean_error⟩
    | some q =>
      replace l₁ : Laid type [] s.builder.nextLabel s s₁ (some place) x (some q) := l₁
      obtain ⟨y, r, l₂, hrest⟩ :=
        laysFrom_forLoop hc condition hu hu' huo hb hb' R l₁.writes.steady l₁.stands
      refine ⟨x ++ y, r, l₁.append (l₂.mono (List.Subset.refl _) (l₁.le_next (Nat.le_refl _))),
        fun hclean => ?_⟩
      have e₁ := l₁.writes.errors
      have e₂ := l₂.writes.errors
      have heq := hclean.2
      obtain ⟨u, hu, hR⟩ := hinit (clean_ok.mpr (by omega))
      obtain ⟨w, hw, hloop⟩ := hrest ⟨hclean.1, by omega⟩
      exact ⟨_, by simp [hu, hw], hloop s u hR⟩

/-- Binding a name to a slot lays out nothing. -/
theorem writes_declareLocal (decl : VariableDecl Term) (source : SourceType) (t : MachineType)
    {slot : Value} (hs : s.Steady) (hslot : slot.temps ⊆ s.builder.base) :
    s.Writes (exec (declareLocal decl source t slot) s).2 [] := by
  rw [declareLocal, exec_modify]
  refine ⟨⟨hs.front, fun entry he => ?_⟩, .refl _, Nat.le_refl _⟩
  simp only [Scope.declare, List.mem_append, List.mem_filter, List.mem_singleton] at he
  rcases he with ⟨he, -⟩ | rfl
  · exact hs.scope entry he
  · exact hslot

/-- The first value of a variable is stored by a line, if there is one. -/
theorem exists_storeInitial (type t : MachineType) {slot : Value} {initial : Option Value}
    (hs : s.Steady) (hp : s.Stands (some place))
    (h : optional Value.temps initial ∪ slot.temps ⊆ place.avail ∪ s.builder.base) :
    ∃ s' x place', exec (storeInitial slot t initial) s = (.ok (), s') ∧
      Laid type [] s.builder.nextLabel s s' (some place) x (some place') ∧
      ∀ spot ∈ x, ∃ i, spot.item = .instr i ∧ i.isTerminator = false := by
  cases initial with
  | none => exact ⟨s, [], place, rfl, .refl hs hp, by simp⟩
  | some value =>
    obtain ⟨s', h', hterm⟩ := reaches_emit hs hp.1 (i := .store value slot t) rfl rfl
    have htemps : (Instr.store value slot t).temps ⊆ place.avail ∪ s.builder.base := by
      intro u hu
      apply h
      simpa [Instr.operands, eq_comm] using hu
    obtain ⟨q, -, l⟩ := (Emits.of_reaches h' hterm rfl htemps).laid type [] hs hp (Nat.le_refl _)
    exact ⟨s', _, q, h'.exec, l, by simp [item, Instr.isTerminator]⟩

/-- The slot of a variable, and its first value. -/
theorem laysFrom_bindVariable (type : MachineType) (decl : VariableDecl Term)
    (v : SourceType × MachineType × Option Value) (hs : s.Steady) (hp : s.Stands (some place))
    (hv : optional Value.temps v.2.2 ⊆ place.avail ∪ s.builder.base) :
    LaysFrom type s place (bindVariable decl v.1 v.2.1 v.2.2) (Binds decl v) := by
  obtain ⟨slot, s₁, h₁, w₁, hslot, hhere, hnext, hterm⟩ := exists_entryAlloca hs v.2.1
  have l₁ : Laid type [] s.builder.nextLabel s s₁ (some place) [] (some place) :=
    .of_writes w₁ hhere hterm hp
  have hknown : optional Value.temps v.2.2 ∪ slot.temps ⊆ place.avail ∪ s₁.builder.base :=
    Set.union_subset (hv.trans (Set.union_subset_union_right _ l₁.base))
      (hslot.trans Set.subset_union_right)
  obtain ⟨s₂, x, q, h₂, l₂, hplain⟩ :=
    exists_storeInitial type v.2.1 w₁.steady l₁.stands hknown
  have w₃ := writes_declareLocal decl v.1 v.2.1 l₂.writes.steady (hslot.trans l₂.base)
  have hexec : exec (bindVariable decl v.1 v.2.1 v.2.2) s =
      (.ok (), (exec (declareLocal decl v.1 v.2.1 slot) s₂).2) := by
    rw [bindVariable, exec_bind_of_ok h₁, exec_bind_of_ok h₂]
    rfl
  have hall := l₁.append ((l₂.mono (List.Subset.refl _) hnext.ge).append
    (.of_writes w₃ rfl rfl l₂.stands))
  rw [List.append_nil, List.nil_append] at hall
  unfold LaysFrom
  rw [hexec]
  refine ⟨x, _, hall, fun _ => ⟨_, ?_, .intro ⟨⟨hexec, hall.writes.builder.listing⟩,
    hall.stands.1⟩ ?_⟩⟩
  · rw [initialMark]
    cases decl.initializer <;> simp
  · intro item hitem
    obtain ⟨spot, hspot, rfl⟩ := List.mem_map.mp hitem
    exact hplain spot hspot

variable {env : Environment}

theorem emits_inferVariable (henv : env.Rooted) (decl : VariableDecl Term) :
    Emits ∅ (inferVariable env decl) fun result => optional Value.temps result.2.2 := by
  unfold inferVariable
  cases decl.initializer with
  | none => exact .throw _
  | some initializer =>
    exact (Emits.lowerTerm henv initializer ∅).bind fun v => .guarded' (.pure (by simp))

theorem emits_declaredVariable (henv : env.Rooted) (decl : VariableDecl Term) :
    Emits ∅ (declaredVariable env decl) fun result => optional Value.temps result.2.2 := by
  unfold declaredVariable
  dsimp only
  cases decl.initializer with
  | none =>
    split
    · exact .pure (by simp)
    · exact (Emits.warn _ _).bind fun _ => .pure (by simp)
  | some initializer =>
    have hvalue (known : Set Nat) : Emits known (do
        let v ← lowerTerm env initializer
        let value ← coerce v decl.type (env.structs.resolve decl.type)
          ("initializer of '" ++ decl.name ++ "'")
        pure (decl.type, env.structs.resolve decl.type, some value))
        fun result => optional Value.temps result.2.2 :=
      (Emits.lowerTerm henv initializer known).bind fun v =>
        (Emits.coerce _ _ _ Set.subset_union_right).bind fun value => .pure (by simp)
    split
    · exact hvalue ∅
    · exact (Emits.warn _ _).bind fun _ => hvalue _

theorem emits_variableValue (henv : env.Rooted) (decl : VariableDecl Term) :
    Emits ∅ (variableValue env decl) fun result => optional Value.temps result.2.2 := by
  unfold variableValue
  split
  · exact emits_inferVariable henv decl
  · exact emits_declaredVariable henv decl

theorem Lays.variableDecl (henv : env.Rooted) (decl : VariableDecl Term) :
    Lays type (lowerVariableDecl env decl) (Variable env decl) :=
  .of_emits (emits_variableValue henv decl) fun v _ _ hs hp hv =>
    laysFrom_bindVariable type decl v hs hp hv

theorem emits_lowerEffect (henv : env.Rooted) (value : Term) :
    Emits ∅ (lowerEffect env value) noTemps :=
  (Emits.lowerTerm henv value ∅).bind fun _ => .pure (by simp)

/-- An evaluation for its effects is marked behind its code. -/
theorem Lays.effect (henv : env.Rooted) (value : Term) (mark : SourceAction) :
    Lays type (lowerEffect env value) (Evaluation (lowerEffect env value) mark) := by
  intro s place hs hp
  obtain ⟨x, avail, hx, -⟩ :=
    emits_lowerEffect henv value s place.avail hs hp.1 (Set.empty_subset _)
  obtain ⟨q, -, l⟩ := hx.laid type [] hs hp (Nat.le_refl _)
  refine ⟨x, some q, l, fun hclean => ?_⟩
  obtain ⟨a, ha⟩ := hclean.1
  exact ⟨_, by simp, .intro (hx.addsPiece (Prod.ext ha rfl)) (.intro _)⟩

theorem emits_returnedValue (henv : env.Rooted) (context : FunctionContext) (value : Term) :
    Emits ∅ (returnedValue env context value) Value.temps :=
  (Emits.lowerTerm henv value ∅).bind fun _ => .coerce _ _ _ Set.subset_union_right

theorem Lays.return (henv : env.Rooted) (context : FunctionContext) (value : Option Term) :
    Lays context.returnType (lowerReturn env context value) (Return env context value) := by
  cases value with
  | none =>
    rw [lowerReturn]
    split
    · next hvoid =>
      intro s place hs hp
      exact laysFrom_ret rfl hs hp (by simp [Instr.temps, Instr.operands])
        (by simp [FunctionDef.returnsAs, hvoid])
    · exact .fail _
  | some value =>
    rw [lowerReturn]
    split
    · exact .fail _
    · refine .of_emits (emits_returnedValue henv context value) fun v s place hs hp hv => ?_
      refine laysFrom_ret rfl hs hp ?_ (by simp [FunctionDef.returnsAs])
      intro t ht
      apply hv
      simpa [Instr.operands, eq_comm] using ht

theorem emits_lowerCondition (henv : env.Rooted) (condition : Term) :
    Emits ∅ (lowerCondition env condition) Value.temps :=
  .truthOf (Emits.lowerTerm henv condition ∅)

/-- The parts of a loop with an update. -/
theorem lays_forParts (henv : env.Rooted) {init body : Lower Unit} (condition update : Option Term)
    (hi : Lays type init R) (hb : Lays type body P) (hb' : Recovers body) :
    Lays type (lowerFor init (condition.map (lowerCondition env))
      (match update with
        | some value => recovering (lowerEffect env value)
        | none => pure ()) body) (For (lowerCondition env) R condition
      (match update with
        | some value => Evaluation (lowerEffect env value) (.update value)
        | none => Nothing) P) := by
  cases update with
  | none =>
    exact .forLoop hi (emits_lowerCondition henv) condition .pure recovers_pure
      (fun _ _ ho => ho) hb hb'
  | some value =>
    have hopen : StaysOpen (recovering (lowerEffect env value)) := by
      intro s hs ho
      obtain ⟨x, avail, hx, -⟩ :=
        Emits.recovering (emits_lowerEffect henv value) s ∅ hs ho (Set.empty_subset _)
      exact hx.isOpen
    exact .forLoop hi (emits_lowerCondition henv) condition (.recovering (.effect henv value _))
      (recovers_recovering _) hopen hb hb'

/-- Behind a terminator a block is opened for what follows. -/
theorem exists_openIfTerminated (type : MachineType) (hs : s.Steady) {p : Option Site}
    (hp : s.Stands p) : ∃ s' x place, AddsOpen openIfTerminated s () (x.map Spot.item) s' ∧
      (s.StandsOpen → x = []) ∧ Laid type [] s.builder.nextLabel s s' p x (some place) := by
  cases p with
  | some p =>
    refine ⟨s, [], p, ⟨⟨?_, by simp⟩, hp.1⟩, fun _ => rfl, .refl hs hp⟩
    simp [openIfTerminated, exec_bind, exec_isTerminated, show s.builder.isTerminated = false from
      hp.1]
  | none =>
    have hterm : s.builder.isTerminated = true := by simpa [Stands, StandsOpen] using hp
    obtain ⟨s', h, ho⟩ := reaches_appendBlock hs "dead"
    refine ⟨s', [entry s.builder.nextLabel], atEntry s.builder.nextLabel,
      ⟨⟨?_, h.writes.builder.listing⟩, ho⟩, fun hopen => absurd hopen hp,
      h.laid_entry ho (Nat.le_refl _)⟩
    simp [openIfTerminated, exec_bind, exec_map, exec_isTerminated, hterm, h.exec]

/-- A block is lowered to the end wherever it starts, and charted if nothing fails. -/
def LaysBlock (type : MachineType) (action : Lower Unit) (P : Charting) : Prop :=
  ∀ (s : BodyState) (p : Option Site), s.Steady → s.Stands p →
    ∃ s' x q, exec action s = (.ok (), s') ∧ Laid type [] s.builder.nextLabel s s' p x q ∧
      (s'.log.count .error = s.log.count .error →
        ∃ w : Chart, w.items = x.map Spot.item ∧ P s w s')

theorem LaysBlock.lays {action : Lower Unit} (h : LaysBlock type action P) :
    Lays type action P := by
  intro s place hs hp
  obtain ⟨s', x, q, hexec, hx, hchart⟩ := h s (some place) hs hp
  unfold LaysFrom
  rw [hexec]
  exact ⟨x, q, hx, fun hclean => hchart hclean.errors⟩

mutual

/-- Every statement is laid out, by recursion on the statement. -/
theorem Lays.statement (henv : env.Rooted) (context : FunctionContext) :
    (statement : Statement) → Lays context.returnType (lowerStatement env context statement)
      (statement.charts env context)
  | .block _ body => .located (Lays.block henv context body).lays
  | .expression _ value => .located (.effect henv value _)
  | .variable _ decl => .located (.variableDecl henv decl)
  | .branch _ condition thenBranch none =>
    .located (.branch (emits_lowerCondition henv) condition
      (.recovering (Lays.statement henv context thenBranch)) (recovers_recovering _)
      .pure recovers_pure)
  | .branch _ condition thenBranch (some elseBranch) =>
    .located (.branch (emits_lowerCondition henv) condition
      (.recovering (Lays.statement henv context thenBranch)) (recovers_recovering _)
      (.recovering (Lays.statement henv context elseBranch)) (recovers_recovering _))
  | .whileLoop _ condition body =>
    .located (.whileLoop (emits_lowerCondition henv) condition
      (.recovering (Lays.statement henv context body)) (recovers_recovering _))
  | .forLoop _ none condition update body =>
    .located (lays_forParts henv condition update .pure
      (.recovering (Lays.statement henv context body)) (recovers_recovering _))
  | .forLoop _ (some init) condition update body =>
    .located (lays_forParts henv condition update (Lays.statement henv context init)
      (.recovering (Lays.statement henv context body)) (recovers_recovering _))
  | .ret _ value => .located (.return henv context value)

theorem Lays.block (henv : env.Rooted) (context : FunctionContext) :
    (body : List Statement) → LaysBlock context.returnType (lowerBlock env context body)
      (Statement.chartsOf env context body)
  | [] => fun s p hs hp => ⟨s, [], p, rfl, .refl hs hp, fun _ => ⟨[], rfl, .intro s⟩⟩
  | statement :: rest => by
    intro s p hs hp
    obtain ⟨s₁, x, place, h₁, hx, l₁⟩ := exists_openIfTerminated context.returnType hs hp
    obtain ⟨s₂, y, q, h₂, l₂, hy⟩ :=
      (Lays.recovering (Lays.statement henv context statement)).exists_laid
        (recovers_recovering _) [] l₁.writes.steady l₁.stands (l₁.le_next (Nat.le_refl _))
    obtain ⟨s₃, z, r, h₃, l₃, hz⟩ :=
      Lays.block henv context rest s₂ q l₂.writes.steady l₂.stands
    refine ⟨s₃, x ++ (y ++ z), r, ?_, l₁.append (l₂.append (l₃.mono (List.Subset.refl _)
      (l₂.le_next (l₁.le_next (Nat.le_refl _))))), fun herrors => ?_⟩
    · simp only [lowerBlock, exec_bind, exec_tryCatch, h₁.exec, exec_pure, if_true, h₂, h₃]
    · have e₁ := l₁.writes.errors
      have e₂ := l₂.writes.errors
      have e₃ := l₃.writes.errors
      obtain ⟨u, hu, hP⟩ := hy (by omega)
      obtain ⟨w, hw, hQ⟩ := hz (by omega)
      exact ⟨_, by simp [hu, hw], .intro h₁ (by simpa using hx) hP hQ⟩

end

end Lower

end SsaLowering
