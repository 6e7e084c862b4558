import SsaLowering.Proofs.Unit

/-!
# The control flow of finished functions

If no error is reported for a function, the walks through its chart from the entry perform
exactly the runs of its body. They return where a run returns, or where it ends and there is
no result to be returned.
-/

namespace SsaLowering

namespace Block

/-- A block written out with its stack slots. -/
def lines (b : Block) : List Item := .label b.label :: b.body.map .instr

end Block

namespace FunctionDef

/-- A function written out with its stack slots. -/
def lines (f : FunctionDef) : List Item := f.blocks.flatMap Block.lines

variable {f : FunctionDef} {b : FunctionBuilder} {done : List Block} {last : Block}

theorem filterMap_label?_lines (f : FunctionDef) : f.lines.filterMap Item.label? = f.labels := by
  have h (b : Block) : b.lines.filterMap Item.label? = [b.label] := by
    have hbody : (b.body.map Item.instr).filterMap Item.label? = [] := by
      simp [List.filterMap_map, Function.comp_def, Item.label?]
    simp [Block.lines, Item.label?, hbody]
  simp only [lines, labels]
  induction f.blocks with
  | nil => rfl
  | cons b rest ih => simp [List.filterMap_append, h, ih]

/-- The stack slots stand behind the label of the entry block. -/
theorem exists_lines_eq (h : b.Front f done last) {l : Nat} {rest : List Item}
    (hl : f.listing = .label l :: rest) :
    ∃ slots : List Instr, (∀ i ∈ slots, i.isAlloca = true) ∧
      f.lines = .label l :: (slots.map .instr ++ rest) := by
  cases hf : f.blocks with
  | nil => simp [listing, hf] at hl
  | cons e es =>
    have hes : es.flatMap Block.lines = es.flatMap Block.listing := by
      apply List.flatMap_congr
      intro c hc
      have hbody := h.slots_first c (by simp [hf, hc])
      rw [h.slots_entry c (by simpa [hf] using hc), List.nil_append] at hbody
      rw [Block.lines, Block.listing, ← hbody]
    have hbody := h.slots_first e (by simp [hf])
    simp only [listing, hf, List.flatMap_cons, Block.listing, List.cons_append,
      List.cons.injEq, Item.label.injEq] at hl
    refine ⟨e.slots, fun i hi => (Block.mem_slots.mp hi).2, ?_⟩
    rw [lines, hf, List.flatMap_cons, hes, Block.lines, hbody, hl.1, ← hl.2]
    simp

/-- Ending the last block adds a line. -/
theorem lines_pushLast (hf : f.blocks = done ++ [last]) (i : Instr) :
    (f.pushLast done last i).lines = f.lines ++ [.instr i] := by
  simp [lines, pushLast, hf, Block.lines]

end FunctionDef

namespace Chart

variable {w p q : Chart} {n l : Nat} {t : List SourceAction}

theorem mem_labels : l ∈ w.labels ↔ .line (.label l) ∈ w := by
  simp only [labels, items, List.mem_filterMap]
  constructor
  · rintro ⟨item, ⟨entry, hentry, heq⟩, hlabel⟩
    cases entry <;> cases heq
    cases item <;> cases hlabel
    exact hentry
  · intro h
    exact ⟨_, ⟨_, h, rfl⟩, rfl⟩

theorem mem_items {item : Item} : item ∈ w.items ↔ .line item ∈ w := by
  simp only [items, List.mem_filterMap]
  constructor
  · rintro ⟨entry, hentry, heq⟩
    cases entry <;> cases heq
    exact hentry
  · intro h
    exact ⟨_, h, rfl⟩

/-- A chart is cut where its lines are cut in front of a line. -/
theorem exists_cut {x y : List Item} {item : Item} (h : w.items = x ++ item :: y) :
    ∃ p q : Chart, w = p ++ .line item :: q ∧ q.items = y := by
  obtain ⟨u, v, rfl, -, hv⟩ := List.filterMap_eq_append_iff.mp h
  obtain ⟨p, entry, q, rfl, -, hentry, hq⟩ := List.filterMap_eq_cons_iff.mp hv
  cases entry <;> cases hentry
  exact ⟨u ++ p, q, by simp, hq⟩

/-- What is found behind a label stands there. -/
theorem exists_eq_of_behind? (h : w.behind? l = some p) :
    ∃ pre, w = pre ++ .line (.label l) :: p := by
  induction w with
  | nil => cases h
  | cons entry w ih =>
    cases entry with
    | done a =>
      obtain ⟨pre, rfl⟩ := ih h
      exact ⟨.done a :: pre, rfl⟩
    | tested c =>
      obtain ⟨pre, rfl⟩ := ih h
      exact ⟨.tested c :: pre, rfl⟩
    | line item =>
      cases item with
      | instr i =>
        obtain ⟨pre, rfl⟩ := ih h
        exact ⟨.line (.instr i) :: pre, rfl⟩
      | label k =>
        rw [behind?] at h
        split at h
        · next heq =>
          cases h
          exact ⟨[], by rw [heq]; rfl⟩
        · obtain ⟨pre, rfl⟩ := ih h
          exact ⟨.line (.label k) :: pre, rfl⟩

/-- The last label stands behind every other one. -/
theorem mem_of_last {a b pre : Chart} {k : Nat} (hw : w = a ++ .line (.label l) :: b)
    (hb : b.labels = []) (hp : w = pre ++ .line (.label k) :: p) (hk : k ≠ l) :
    .line (.label l) ∈ p := by
  rw [hw, List.append_eq_append_iff] at hp
  rcases hp with ⟨c, -, hc⟩ | ⟨c, -, hc⟩
  · cases c with
    | nil => simp_all
    | cons entry c =>
      have hmem : .line (.label k) ∈ b := by
        simp only [List.cons_append, List.cons.injEq] at hc
        simp [hc.2]
      simp [← mem_labels, hb] at hmem
  · cases c with
    | nil => simp_all
    | cons entry c =>
      simp only [List.cons_append, List.cons.injEq] at hc
      simp [hc.2]

/-- Where nothing leads to the last label, a walk from before it stays before it. -/
theorem Walk.mem_of_unentered {a b : Chart} (hw : w = a ++ .line (.label l) :: b)
    (hb : b.labels = []) (hnone : ∀ i, .line (.instr i) ∈ w → l ∉ i.successors)
    (hwalk : Walk w n p t q) (hp : p <:+ w) (hl : .line (.label l) ∈ p) :
    .line (.label l) ∈ q := by
  induction hwalk with
  | stay => exact hl
  | pass _ _ ih => exact ih ((List.suffix_cons _ _).trans hp) (by simpa using hl)
  | done _ ih => exact ih ((List.suffix_cons _ _).trans hp) (by simpa using hl)
  | @leave n k i rest p' q t hk hp' _ ih =>
    obtain ⟨pre, hpre⟩ := exists_eq_of_behind? hp'
    refine ih ⟨pre ++ [.line (.label k)], by simp [hpre]⟩ (mem_of_last hw hb hpre ?_)
    rintro rfl
    exact hnone i (hp.subset (by simp)) hk
  | @test n ifTrue ifFalse c v rest p' q t outcome hp' _ ih =>
    obtain ⟨pre, hpre⟩ := exists_eq_of_behind? hp'
    refine ih ⟨pre ++ [.line (.label (if outcome then ifTrue else ifFalse))], by simp [hpre]⟩
      (mem_of_last hw hb hpre ?_)
    rintro rfl
    refine hnone (.branch v ifTrue ifFalse) (hp.subset (by simp)) ?_
    cases outcome <;> simp [Instr.successors]

/-- Where there is no step, a walk stays. -/
theorem Walk.eq_of_final (hp : p = [] ∨ ∃ i rest, p = .line (.instr i) :: rest ∧
    i.isTerminator = true ∧ i.successors = []) (hwalk : Walk w n p t q) : t = [] ∧ q = p := by
  rcases hp with rfl | ⟨i, rest, rfl, hterm, hnone⟩
  · cases hwalk
    exact ⟨rfl, rfl⟩
  · cases hwalk with
    | stay => exact ⟨rfl, rfl⟩
    | pass hi => simp [hterm] at hi
    | leave hl => simp [hnone] at hl

end Chart

namespace DiagnosticLog

/-- A warning is no error. -/
theorem count_error_warning (log : DiagnosticLog) (w : Warning) (location : Option Location) :
    (log.report (w.toDiagnostic location)).count .error = log.count .error := by
  simp [Warning.toDiagnostic]

end DiagnosticLog

namespace UnitState

variable {s : UnitState} {d : DeclaredFunction} {body : Statement} {options : LoweringOptions}
  {f : FunctionDef}

theorem count_bodyLog : (s.bodyLog options d body).count .error =
    (s.lowerBody d body).log.count .error := by
  have hunused (entries : List (String × Binding)) (log : DiagnosticLog) :
      (entries.foldl (fun log entry =>
        log.report ((Warning.unusedVariable entry.1).toDiagnostic entry.2.location))
        log).count .error = log.count .error := by
    induction entries generalizing log with
    | nil => rfl
    | cons entry entries ih => rw [List.foldl_cons, ih, log.count_error_warning]
  simp only [bodyLog]
  split
  · exact hunused _ _
  · rfl

/-- A function for which no error is reported has no fault, and nothing failed in its body. -/
theorem clean_of_addBody (hf : (s.lowerBody d body).builder.function = some f)
    (hle : s.log.count .error ≤ (s.lowerBody d body).log.count .error)
    (hclean : (s.addBody options d body).log.count .error = s.log.count .error) :
    f.finalize.fault? = none ∧ (s.lowerBody d body).log.count .error = s.log.count .error := by
  cases hfault : f.finalize.fault? with
  | none =>
    rw [addBody_of_sound hf hfault, count_bodyLog] at hclean
    exact ⟨rfl, hclean⟩
  | some fault =>
    rw [addBody_of_fault hf hfault, DiagnosticLog.count_report, count_bodyLog] at hclean
    simp only [LoweringError.toDiagnostic, Diagnostic.error, if_true] at hclean
    omega

/-- A chart of a function from its entry on: behind the stack slots come the statements of its
body, charted as they were lowered, and what ended a block that was left open. -/
structure Charted (s : UnitState) (d : DeclaredFunction) (body : Statement) (f : FunctionDef)
    (start : Chart) : Prop where
  lines : f.lines = .label 0 :: start.items
  parts : ∃ (slots finish : List Instr) (inner : Chart),
    start = Chart.ofItems (slots.map .instr) ++ (inner ++ Chart.ofItems (finish.map .instr)) ∧
    (∀ i ∈ slots, i.isAlloca = true) ∧
    Statement.chartsOf (s.environment d) (context d) body.parts (s.opened d) inner
      (s.lowerBody d body)

/-- From the entry, the walks through a chart perform the runs of the statements. -/
theorem realises_parts {start inner : Chart} {slots finish : List Instr}
    (hstart : start = Chart.ofItems (slots.map .instr) ++
      (inner ++ Chart.ofItems (finish.map .instr)))
    (hslots : ∀ i ∈ slots, i.isAlloca = true) {env : Environment} {context : FunctionContext}
    {parts : List Statement} {final : BodyState}
    (hinner : Statement.chartsOf env context parts (s.opened d) inner final)
    (hw : (Chart.labels (.line (.label 0) :: start)).Nodup) :
    Chart.Realises (.line (.label 0) :: start) start (Statement.runsOf parts)
      (Chart.ofItems (finish.map .instr)) := by
  have hW : Entry.line (.label 0) :: start =
      (.line (.label 0) :: Chart.ofItems (slots.map .instr)) ++
      (inner ++ Chart.ofItems (finish.map .instr)) := by
    rw [hstart, List.cons_append]
  have hruns := (Statement.runs_chartsOf env context parts).realises hinner
    (show (s.opened d).StandsOpen from rfl) _ hw hW
  have hpass : Chart.Realises (.line (.label 0) :: start)
      (Chart.ofItems (slots.map .instr) ++ (inner ++ Chart.ofItems (finish.map .instr)))
      Behavior.Skip (inner ++ Chart.ofItems (finish.map .instr)) := by
    refine .straight fun item hitem => ?_
    obtain ⟨i, hi, rfl⟩ := List.mem_map.mp hitem
    refine ⟨i, rfl, ?_⟩
    by_contra hterm
    have halloca := Instr.isAlloca_eq_false_of_isTerminator (by simpa using hterm)
    simp [hslots i hi] at halloca
  rw [← hstart] at hpass
  exact hpass.skip_append hruns

end UnitState

namespace FunctionDef

variable {f : FunctionDef} {avail sources : Nat → Set Nat} {done : List Block} {last : Block}

/-- What the finishing of a function without a fault adds behind its last line. -/
theorem Draft.exists_finish (h : f.Draft avail sources) (hext : f.isExternal = false)
    (hf : f.blocks = done ++ [last]) (hfault : f.finalize.fault? = none) :
    ∃ finish : List Instr, f.finalize.lines = f.lines ++ finish.map .instr ∧
      (finish = [] ∧ last.isTerminated = true ∨
        f.returnType = .void ∧ finish = [.ret none] ∨
        f.returnType ≠ .void ∧ finish = [.unreachable] ∧ done ≠ [] ∧
          f.predecessors last.label = []) := by
  rcases h.finalize_cases hf with ⟨heq, hlast⟩ | ⟨-, hvoid, heq⟩ | ⟨-, hresult, hdone, hpred, heq⟩
  · refine ⟨[], by simp [heq], .inl ⟨rfl, ?_⟩⟩
    rcases hlast with hterm | ⟨hresult, hentered⟩
    · exact hterm
    · by_contra hopen
      rw [h.fault?_finalize_of_result hext hf hresult,
        if_pos ⟨by simpa using hopen, hentered⟩] at hfault
      cases hfault
  · exact ⟨[.ret none], by simp [heq, lines_pushLast hf], .inr (.inl ⟨hvoid, rfl⟩)⟩
  · exact ⟨[.unreachable], by simp [heq, lines_pushLast hf],
      .inr (.inr ⟨hresult, rfl, hdone, hpred⟩)⟩

/-- A block without predecessors is no target of any line. -/
theorem Draft.not_mem_successors (h : f.Draft avail sources) {l : Nat}
    (hl : f.predecessors l = []) {i : Instr} (hi : .instr i ∈ f.lines) : l ∉ i.successors := by
  intro hmem
  obtain ⟨b, hb, hline⟩ := List.mem_flatMap.mp hi
  have hbody : i ∈ b.body := by simpa [Block.lines] using hline
  have hterm : i.isTerminator = true := by
    by_contra hterm
    simp [Instr.successors_eq_nil (by simpa using hterm)] at hmem
  obtain ⟨pre, hcode, -⟩ := h.terminator_last hb hbody hterm
  have hpred := h.source_mem_predecessors hb hcode hmem
  simp [hl] at hpred

/-- No walk from the entry gets into the last block, if nothing leads there. -/
theorem Draft.last_mem_of_walk (h : f.Draft avail sources) (hf : f.blocks = done ++ [last])
    (hdone : done ≠ []) (hpred : f.predecessors last.label = []) {start q : Chart}
    (hlines : f.lines ++ [.instr .unreachable] = .label 0 :: start.items) {n : Nat}
    {t : List SourceAction} (hwalk : Chart.Walk (.line (.label 0) :: start) n start t q) :
    .line (.label last.label) ∈ q := by
  have hnone : ∀ i, .line (.instr i) ∈ Entry.line (.label 0) :: start →
      last.label ∉ i.successors := by
    intro i hi
    have hmem : .instr i ∈ f.lines ++ [.instr .unreachable] := by
      rw [hlines]
      simpa [Chart.mem_items] using hi
    rcases List.mem_append.mp hmem with hmem | hmem
    · exact h.not_mem_successors hpred hmem
    · obtain rfl : i = .unreachable := by simpa using hmem
      simp [Instr.successors]
  obtain ⟨e, es, rfl⟩ := List.exists_cons_of_ne_nil hdone
  have hcut : start.items = (e.body.map .instr ++ es.flatMap Block.lines) ++
      .label last.label :: (last.body.map .instr ++ [.instr .unreachable]) := by
    simp only [lines, hf, List.cons_append, List.flatMap_cons, Block.lines, List.cons.injEq]
      at hlines
    rw [← hlines.2]
    simp [Block.lines]
  obtain ⟨a, b, rfl, hb⟩ := Chart.exists_cut hcut
  have hlabels : b.labels = [] := by
    simp [Chart.labels, hb, List.filterMap_map, Function.comp_def, Item.label?]
  exact hwalk.mem_of_unentered (a := .line (.label 0) :: a) rfl hlabels hnone
    (List.suffix_cons _ _) (by simp)

end FunctionDef

namespace Statement

/-- The statements of a body perform what the body performs. -/
theorem performs_parts (body : Statement) (t : List SourceAction) :
    (∃ x, runsOf body.parts t x) ↔ ∃ x, body.runs t x := by
  cases body with
  | block => exact Iff.rfl
  | _ => exact Behavior.seq_skip_performs

theorem runsOf_parts_returned (body : Statement) (t : List SourceAction) :
    runsOf body.parts t .returned ↔ body.runs t .returned := by
  cases body with
  | block => exact Iff.rfl
  | _ => exact Behavior.seq_skip_returned

theorem runsOf_parts_ended (body : Statement) (t : List SourceAction) :
    runsOf body.parts t .ended ↔ body.runs t .ended := by
  cases body with
  | block => exact Iff.rfl
  | _ => exact Behavior.seq_skip_ended

end Statement

namespace Program

variable {p : Program} {options : LoweringOptions} {log : DiagnosticLog} {s : UnitState}
  {d : DeclaredFunction} {body : Statement}

open UnitState Chart

/-- A function for which no error is reported performs, on the walks from its entry, exactly the
runs of its body. Where a walk returns, the run returns, or it ends and the function has no
result. Nothing that follows a return in its block is performed on any walk. -/
theorem walks_perform_runs (h : p.Turn options log s d body)
    (hclean : (s.addBody options d body).log.count .error = s.log.count .error) :
    ∃ f start, (p.generate options log).1.function? d.decl.name = some f ∧
      f.isExternal = false ∧ s.Charted d body f start ∧
      (∀ t, (∃ n q, Walk (.line (.label 0) :: start) n start t q) ↔ ∃ x, body.runs t x) ∧
      (∀ t, (∃ n q, Walk (.line (.label 0) :: start) n start t q ∧ q.Returns) ↔
        body.runs t .returned ∨ d.signature.returnType = .void ∧ body.runs t .ended) ∧
      (d.signature.returnType ≠ .void → body.runs.NeverEnds) ∧
      ∀ n t q, Walk (.line (.label 0) :: start) n start t q → ∃ x, body.pruned.runs t x := by
  obtain ⟨f, avail, sources, hf, ⟨blocks, hsignature⟩, hdraft⟩ :=
    exists_draft_lowerBody (h.sound.rooted.environment d) body
  obtain ⟨-, x, q, hx, hchart⟩ := exists_laid_lowerBody (h.sound.rooted.environment d) body
  obtain ⟨f', done, last, hfront⟩ := hx.writes.steady.front
  obtain rfl : f' = f := Option.some.inj (hfront.function.symm.trans hf)
  obtain ⟨hfault, hcount⟩ := clean_of_addBody hf hx.writes.errors hclean
  obtain ⟨inner, hitems, hinner⟩ := hchart hcount
  have hname : f'.name = d.decl.name := by rw [hsignature]; rfl
  have hext : f'.isExternal = false := by rw [hsignature]
  have htype : f'.returnType = d.signature.returnType := by rw [hsignature]; rfl
  -- The lines of the function are those of the chart.
  have hlisting : f'.listing = .label 0 :: inner.items := by
    rw [← hfront.listing_eq, hx.writes.builder.listing, hitems]
    rfl
  obtain ⟨slots, hslots, hlines⟩ := FunctionDef.exists_lines_eq hfront hlisting
  obtain ⟨finish, hfinish, hcases⟩ := hdraft.exists_finish hext hfront.blocks hfault
  generalize hstart : ofItems (slots.map .instr) ++ (inner ++ ofItems (finish.map .instr)) = start
  have hall : f'.finalize.lines = .label 0 :: start.items := by
    rw [hfinish, hlines, ← hstart]
    simp
  have hnodup : (Chart.labels (.line (.label 0) :: start)).Nodup := by
    have hlabels := hdraft.finalize.labels_nodup
    rwa [← FunctionDef.filterMap_label?_lines, hall] at hlabels
  have hreal := realises_parts hstart.symm hslots hinner hnodup
  have hfinal : (ofItems (finish.map Item.instr)) = [] ∨ ∃ i rest,
      ofItems (finish.map .instr) = .line (.instr i) :: rest ∧ i.isTerminator = true ∧
        i.successors = [] := by
    rcases hcases with ⟨rfl, -⟩ | ⟨-, rfl⟩ | ⟨-, rfl, -⟩
    · exact .inl rfl
    · exact .inr ⟨_, _, rfl, rfl, rfl⟩
    · exact .inr ⟨_, _, rfl, rfl, rfl⟩
  -- A body can end only where a return is added.
  have hends : ∀ t, body.runs t .ended →
      d.signature.returnType = .void ∧ finish = [.ret none] := by
    intro t ht
    rw [← Statement.runsOf_parts_ended] at ht
    rcases hcases with ⟨-, hterm⟩ | ⟨hvoid, hret⟩ | ⟨-, rfl, hdone, hpred⟩
    · have hclosed : ¬ (s.lowerBody d body).StandsOpen := by
        simp [BodyState.StandsOpen, hfront.isTerminated_eq, hterm]
      exact absurd ht ((Statement.runs_chartsOf _ _ _).ends hinner rfl hclosed t)
    · exact ⟨htype ▸ hvoid, hret⟩
    · obtain ⟨n, q, hwalk, -, hq⟩ := hreal.complete t .ended ht
      have hmem := hdraft.last_mem_of_walk hfront.blocks hdone hpred (hfinish ▸ hall) hwalk
      simp [hq rfl] at hmem
  have hsound : ∀ {n t q}, Walk (.line (.label 0) :: start) n start t q →
      (∃ x, body.runs t x) ∧ (q.Returns → body.runs t .returned ∨
        d.signature.returnType = .void ∧ body.runs t .ended) := by
    intro n t q hwalk
    rcases hreal.sound n t q hwalk with ⟨hx, hreturns⟩ | ⟨u, v, m, rfl, -, hu, hrest⟩
    · exact ⟨(body.performs_parts t).mp hx, fun hr =>
        .inl ((body.runsOf_parts_returned t).mp (hreturns hr))⟩
    · obtain ⟨rfl, rfl⟩ := hrest.eq_of_final hfinal
      rw [List.append_nil]
      have hu' := (body.runsOf_parts_ended u).mp hu
      exact ⟨⟨_, hu'⟩, fun _ => .inr ⟨(hends u hu').1, hu'⟩⟩
  refine ⟨f'.finalize, start, ?_, hext, ⟨hall, slots, finish, inner, hstart.symm, hslots, hinner⟩,
    fun t => ⟨?_, fun hrun => ?_⟩, fun t => ⟨?_, ?_⟩,
    fun hresult t ht => hresult (hends t ht).1,
    fun n t q hwalk => body.runs_pruned ▸ (hsound hwalk).1⟩
  · rw [h.generate_function?, addBody_of_sound hf hfault]
    exact (CodeModule.function?_replaceFunction _ _ _).trans (if_pos hname)
  · rintro ⟨n, q, hwalk⟩
    exact (hsound hwalk).1
  · obtain ⟨x, hx⟩ := (body.performs_parts t).mpr hrun
    obtain ⟨n, q, hwalk, -⟩ := hreal.complete t x hx
    exact ⟨n, q, hwalk⟩
  · rintro ⟨n, q, hwalk, hr⟩
    exact (hsound hwalk).2 hr
  · rintro (hreturned | ⟨-, hended⟩)
    · obtain ⟨n, q, hwalk, hr, -⟩ :=
        hreal.complete t .returned ((body.runsOf_parts_returned t).mpr hreturned)
      exact ⟨n, q, hwalk, hr rfl⟩
    · obtain ⟨n, q, hwalk, -, hq⟩ :=
        hreal.complete t .ended ((body.runsOf_parts_ended t).mpr hended)
      refine ⟨n, q, hwalk, none, [], ?_⟩
      rw [hq rfl, (hends t hended).2]
      rfl

/-- A loop that is left in its first round. What follows the return is never performed. -/
def leavesAtOnce : FunctionDecl Statement where
  name := "leavesAtOnce"
  params := [⟨"flag", .named "bool"⟩]
  returnType := .named "void"
  body := some (.whileLoop none (.variable none "flag") (.block none
    [.ret none none, .expression none (.variable none "flag")]))
  owner := none
  location := none

theorem walks_perform_runs_leavesAtOnce :
    ∃ s d body, Turn ⟨[.function leavesAtOnce]⟩ .standard .empty s d body ∧
      (s.addBody .standard d body).log.count .error = s.log.count .error ∧
      ∃ f start, s.Charted d body f start ∧ ∃ n q, Walk (.line (.label 0) :: start) n start
        [.test (.variable none "flag") true] q ∧ q.Returns := by
  have hturn : Turn ⟨[.function leavesAtOnce]⟩ .standard .empty
      (declare ⟨[.function leavesAtOnce]⟩ "main" .empty).1
      ⟨leavesAtOnce, .ofSource .empty [.named "bool"] (.named "void") false none⟩
      (.whileLoop none (.variable none "flag") (.block none
        [.ret none none, .expression none (.variable none "flag")])) :=
    ⟨rfl, [], [], rfl, rfl⟩
  have hclean : ((declare ⟨[.function leavesAtOnce]⟩ "main" .empty).1.addBody .standard
      ⟨leavesAtOnce, .ofSource .empty [.named "bool"] (.named "void") false none⟩
      (.whileLoop none (.variable none "flag") (.block none
        [.ret none none, .expression none (.variable none "flag")]))).log.count .error =
      (declare ⟨[.function leavesAtOnce]⟩ "main" .empty).1.log.count .error := by
    decide +kernel
  obtain ⟨f, start, -, -, hcharted, -, hreturns, -⟩ := walks_perform_runs hturn hclean
  refine ⟨_, _, _, hturn, hclean, f, start, hcharted, (hreturns _).mpr (.inl ?_)⟩
  exact .last (t := []) (.first .returned (by simp)) (by simp)

end Program

end SsaLowering
