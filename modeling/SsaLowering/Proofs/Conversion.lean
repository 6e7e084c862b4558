import SsaLowering.Proofs.Simulation

/-!
# Values at other types

Conversions and truth tests keep what their operands stand for.
-/

namespace SsaLowering

variable {m : Surroundings} {d a b : Datum} {v : TypedValue} {value : Value}
  {target : MachineType} {ρ : Temps} {k : Nat} {l r : TypedValue}

namespace Datum

theorem adaptsTo_self (d : Datum) : d.adaptsTo d.type = true := by simp [adaptsTo]

/-- A truth value is kept as a number. -/
theorem toInt_isTrue (h : MachineType.bool.Holds d.value) : d.isTrue.toInt = d.value := by
  obtain hzero | hone := h
  · simp [isTrue, hzero]
  · simp [isTrue, hone]

/-- Only integers adapt to other types. -/
theorem ne_bool_of_adaptsTo (h : d.adaptsTo target = true) (hne : d.type ≠ target) :
    d.type ≠ .bool ∧ target ≠ .bool := by
  simp only [adaptsTo, if_neg hne] at h
  constructor
  · intro heq
    simp [heq] at h
  · intro heq
    simp [heq] at h

/-- The left operand adapts if it comes first or the right one does not. -/
theorem common?_of_left (h : a.adaptsTo b.type = true)
    (horder : (a.isConstant || !b.isConstant) = true ∨ b.adaptsTo a.type = false) :
    a.common? b = some b.type := by
  cases hfirst : a.isConstant || !b.isConstant with
  | true => simp [common?, hfirst, h]
  | false => simp [common?, hfirst, h, horder.resolve_left (by simp [hfirst])]

/-- The right operand adapts if it comes first or the left one does not. -/
theorem common?_of_right (h : b.adaptsTo a.type = true)
    (horder : (a.isConstant || !b.isConstant) = false ∨ a.adaptsTo b.type = false) :
    a.common? b = some a.type := by
  cases hfirst : a.isConstant || !b.isConstant with
  | true => simp [common?, hfirst, h, horder.resolve_left (by simp [hfirst])]
  | false => simp [common?, hfirst, h]

theorem common?_of_eq (h : a.type = b.type) : a.common? b = some a.type := by
  have hleft : a.adaptsTo b.type = true := h ▸ a.adaptsTo_self
  have hright : b.adaptsTo a.type = true := h ▸ b.adaptsTo_self
  cases horder : a.isConstant || !b.isConstant with
  | true => rw [common?_of_left hleft (.inl horder), h]
  | false => exact common?_of_right hright (.inl horder)

end Datum

namespace Assertion

/-- A constant stands for the same number at every type that takes it. -/
theorem carries_of_convertConstant? (hv : (represents m v d).Holds ρ k) (ht : target.IsScalar)
    (h : convertConstant? v target = some value) :
    d.adaptsTo target = true ∧ (carries m value { d with type := target }).Holds ρ k := by
  obtain ⟨htype : v.type = d.type, hfit : IsFit v.value d, hn⟩ := hv
  by_cases hsame : v.type = target
  · obtain rfl : d.type = target := htype.symm.trans hsame
    simp only [convertConstant?, if_pos hsame, Option.some.injEq] at h
    exact ⟨d.adaptsTo_self, h ▸ hfit, h ▸ hn⟩
  · have hne : d.type ≠ target := fun heq => hsame (htype.trans heq)
    simp only [convertConstant?, if_neg hsame] at h
    obtain hbool | ⟨w, hw⟩ := MachineType.isScalar_iff.mp hfit.isScalar
    · cases hvalue : v.value <;>
        simp [hvalue, htype, hbool, MachineType.isInteger, MachineType.isFloat] at h
    · obtain rfl | ⟨w', rfl⟩ := MachineType.isScalar_iff.mp ht
      · cases hvalue : v.value <;>
          simp [hvalue, MachineType.isInteger, MachineType.isFloat] at h
      · cases hvalue : v.value with
        | int n =>
          simp only [hvalue, htype, hw, MachineType.isInteger, MachineType.isFloat, Bool.true_and,
            Bool.and_false, Bool.false_eq_true, if_false] at h
          obtain ⟨hfits, rfl⟩ : (MachineType.int .signed w').fits n = true ∧ .int n = value := by
            simpa using h
          have hconstant : d.isConstant = true := by
            rw [← hfit.isConstant (by simp [hw]), hvalue]
            rfl
          have hvalue' : n.toInt = d.value := by simpa [hvalue, Surroundings.operand?] using hn.1
          have hholds := hvalue' ▸ MachineType.fits_iff.mp hfits
          refine ⟨by simp [Datum.adaptsTo, hw, hconstant, hholds], ?_, hvalue ▸ hn⟩
          exact ⟨ht, hholds, fun _ => hconstant.symm, fun _ _ => ⟨n, rfl⟩⟩
        | _ => simp [hvalue, htype, hw, MachineType.isFloat] at h

/-- What is no constant of a type is taken to it by extending its sign, if it is narrower. -/
theorem widening?_of_represents (hv : (represents m v d).Holds ρ k) (ht : target.IsScalar)
    (h : convertConstant? v target = none) :
    (widening? v.type target = some (.extend .sext) ∧ d.adaptsTo target = true ∧
      d.isConstant = false ∧ target.Holds d.value) ∨
      (widening? v.type target = none ∧ d.adaptsTo target = false) := by
  obtain ⟨htype : v.type = d.type, hfit : IsFit v.value d, hn⟩ := hv
  have hne : v.type ≠ target := by
    rintro hsame
    simp [convertConstant?, hsame] at h
  have hne' : d.type ≠ target := htype ▸ hne
  obtain hbool | ⟨w, hw⟩ := MachineType.isScalar_iff.mp hfit.isScalar
  · right
    simp [widening?, Datum.adaptsTo, htype, hbool, hbool ▸ hne']
  · obtain rfl | ⟨w', rfl⟩ := MachineType.isScalar_iff.mp ht
    · right
      simp [widening?, Datum.adaptsTo, htype, hw]
    · have hconstant : d.isConstant = true → ¬ (MachineType.int .signed w').Holds d.value := by
        intro hc hholds
        obtain ⟨n, hvalue⟩ := hfit.int (by simp [hw]) hc
        have hvalue' : n.toInt = d.value := by simpa [hvalue, Surroundings.operand?] using hn.1
        have hfits : (MachineType.int .signed w').fits n = true :=
          MachineType.fits_iff.mpr (hvalue' ▸ hholds)
        simp [convertConstant?, hvalue, htype, hw, MachineType.isInteger, hfits] at h
      have hw' : w ≠ w' := fun heq => hne' (hw.trans (heq ▸ rfl))
      have hbits : w.bits ≠ w'.bits := by
        cases w <;> cases w' <;> simp_all [IntWidth.bits, IntWidth.bytes]
      have hholds : (MachineType.int .signed w).Holds d.value := hw ▸ hfit.holds
      by_cases hlt : w.bits < w'.bits
      · have hwide := MachineType.holds_of_narrower hlt.le hholds
        refine .inl ⟨?_, ?_, ?_, hwide⟩
        · simp [widening?, htype, hw, hbits, hlt]
        · simp [Datum.adaptsTo, hw, hw', hlt]
        · by_contra hc
          exact hconstant (by simpa using hc) hwide
      · refine .inr ⟨?_, ?_⟩
        · simp [widening?, htype, hw, hbits, hlt]
        · simpa [Datum.adaptsTo, hw, hw', hlt] using hconstant

/-- A value at another type, if it can be taken there. -/
def converted (m : Surroundings) (d : Datum) (target : MachineType) : Option Value → Assertion
  | some value => (of (d.adaptsTo target = true)).and (carries m value { d with type := target })
  | none => of (d.adaptsTo target = false)

/-- Operands at a common type, if there is one. -/
def unified (m : Surroundings) (a b : Datum) : Option Lower.Operands → Assertion
  | some o => (of (a.common? b = some o.type ∧ o.type.IsScalar)).and
      ((denotes m o.left a.value).and (denotes m o.right b.value))
  | none => of True

theorem isScalar_of_represents (hv : (represents m v d).Holds ρ k) : v.type.IsScalar := by
  have htype : v.type = d.type := hv.1
  rw [htype]
  exact hv.2.1.isScalar

/-- If one of two operands adapts to the other, they are constants where their data are. -/
theorem isConstant_eq_of_represents (hl : (represents m l a).Holds ρ k)
    (hr : (represents m r b).Holds ρ k) (hne : l.type ≠ r.type)
    (h : a.adaptsTo b.type = true ∨ b.adaptsTo a.type = true) :
    l.value.isConstant = a.isConstant ∧ r.value.isConstant = b.isConstant := by
  obtain ⟨hltype : l.type = a.type, hlfit : IsFit l.value a, -⟩ := hl
  obtain ⟨hrtype : r.type = b.type, hrfit : IsFit r.value b, -⟩ := hr
  have hne' : a.type ≠ b.type := hltype ▸ hrtype ▸ hne
  have hbool : a.type ≠ .bool ∧ b.type ≠ .bool := by
    cases h with
    | inl h => exact Datum.ne_bool_of_adaptsTo h hne'
    | inr h => exact (Datum.ne_bool_of_adaptsTo h hne'.symm).symm
  exact ⟨hlfit.isConstant hbool.1, hrfit.isConstant hbool.2⟩

/-- The left operand at the type of the right one. -/
theorem unified_of_left {o : Lower.Operands} (hl : (represents m l a).Holds ρ k)
    (hr : (represents m r b).Holds ρ k) (hne : l.type ≠ r.type)
    (hadapts : a.adaptsTo r.type = true) (hright : o.right = r.value) (htype : o.type = r.type)
    (hn : (denotes m o.left a.value).Holds ρ k)
    (horder : (l.value.isConstant || !r.value.isConstant) = true ∨ b.adaptsTo l.type = false) :
    (unified m a b (some o)).Holds ρ k := by
  have hltype : l.type = a.type := hl.1
  have hrtype : r.type = b.type := hr.1
  rw [hrtype] at hadapts htype
  rw [hltype] at horder
  obtain ⟨hlc, hrc⟩ := isConstant_eq_of_represents hl hr hne (.inl hadapts)
  rw [hlc, hrc] at horder
  refine ⟨⟨?_, htype ▸ hr.2.1.isScalar⟩, hn, hright ▸ hr.2.2⟩
  rw [htype]
  exact Datum.common?_of_left hadapts horder

/-- The right operand at the type of the left one. -/
theorem unified_of_right {o : Lower.Operands} (hl : (represents m l a).Holds ρ k)
    (hr : (represents m r b).Holds ρ k) (hne : l.type ≠ r.type)
    (hadapts : b.adaptsTo l.type = true) (hleft : o.left = l.value) (htype : o.type = l.type)
    (hn : (denotes m o.right b.value).Holds ρ k)
    (horder : (l.value.isConstant || !r.value.isConstant) = false ∨ a.adaptsTo r.type = false) :
    (unified m a b (some o)).Holds ρ k := by
  have hltype : l.type = a.type := hl.1
  have hrtype : r.type = b.type := hr.1
  rw [hltype] at hadapts htype
  rw [hrtype] at horder
  obtain ⟨hlc, hrc⟩ := isConstant_eq_of_represents hl hr hne (.inr hadapts)
  rw [hlc, hrc] at horder
  refine ⟨⟨?_, htype ▸ hl.2.1.isScalar⟩, hleft ▸ hl.2.2, hn⟩
  rw [htype]
  exact Datum.common?_of_right hadapts horder

end Assertion

namespace Lower

open Assertion

variable {env : Environment} {c : SourceContext} {pre : Assertion}

theorem convert?_simulates (hv : ∀ ρ k, pre.Holds ρ k →
    (represents m v d).Holds ρ k ∧ target.IsScalar) :
    Simulates m env c pre (convert? v target) (pure ()) fun value? _ =>
      converted m d target value? := by
  rw [convert?]
  cases hconstant : convertConstant? v target with
  | some value =>
    refine .pure fun ρ k hp => ?_
    obtain ⟨hrep, ht⟩ := hv ρ k hp
    exact carries_of_convertConstant? hrep ht hconstant
  | none =>
    cases hwide : widening? v.type target with
    | none =>
      refine .pure fun ρ k hp => ?_
      obtain ⟨hrep, ht⟩ := hv ρ k hp
      obtain ⟨hsome, -⟩ | ⟨-, hno⟩ := widening?_of_represents hrep ht hconstant
      · simp [hwide] at hsome
      · exact hno
    | some widening =>
      cases widening with
      | same =>
        refine .pure fun ρ k hp => ?_
        obtain ⟨hrep, ht⟩ := hv ρ k hp
        obtain ⟨hsome, -⟩ | ⟨hnone, -⟩ := widening?_of_represents hrep ht hconstant
        · simp [hwide] at hsome
        · simp [hwide] at hnone
      | extend op =>
        have hdefine : Simulates m env c pre (build (Build.convert op v.value v.type target))
            (pure ()) fun value _ => converted m d target (some value) := ?_
        · exact .map hdefine fun _ _ _ _ _ hpost => hpost
        refine .define fun σ t hp => ?_
        obtain ⟨hrep, ht⟩ := hv _ _ hp
        obtain ⟨hsome, hadapts, hc, hholds⟩ | ⟨hnone, -⟩ :=
          widening?_of_represents hrep ht hconstant
        · obtain rfl : op = .sext := by simpa [hwide] using hsome
          refine ⟨target.wrap d.value, ?_, hadapts, ?_⟩
          · rw [Surroundings.execute?, hrep.2.2.1]
            rfl
          · rw [MachineType.wrap_of_holds ht hholds, hc]
            exact carries_of_computed computed_update ht hholds
        · simp [hwide] at hnone

theorem coerce_simulates {source : SourceType} {use : String} (hv : ∀ ρ k, pre.Holds ρ k →
    (represents m v d).Holds ρ k ∧ target.IsScalar) :
    Simulates m env c pre (coerce v source target use) (pure ()) fun value _ =>
      carries m value { d with type := target } := by
  refine .before (convert?_simulates hv) fun value? => ?_
  cases value? with
  | some value => exact .pure fun ρ k hp => hp.2.2
  | none => exact .fail _

/-- The operands after one of them was taken to the type of the other. -/
theorem adaptLeft?_simulates (hl : ∀ ρ k, pre.Holds ρ k →
    (represents m l a).Holds ρ k ∧ r.type.IsScalar) :
    Simulates m env c pre (adaptLeft? l r) (pure ()) fun o? _ =>
      match o? with
      | some o => (of (a.adaptsTo r.type = true ∧ o.right = r.value ∧ o.type = r.type)).and
          (denotes m o.left a.value)
      | none => of (a.adaptsTo r.type = false) := by
  refine .map (convert?_simulates hl) fun value? _ ρ k _ hvalue => ?_
  cases value? with
  | some value => exact ⟨⟨hvalue.1, rfl, rfl⟩, hvalue.2.2⟩
  | none => exact hvalue

theorem adaptRight?_simulates (hr : ∀ ρ k, pre.Holds ρ k →
    (represents m r b).Holds ρ k ∧ l.type.IsScalar) :
    Simulates m env c pre (adaptRight? l r) (pure ()) fun o? _ =>
      match o? with
      | some o => (of (b.adaptsTo l.type = true ∧ o.left = l.value ∧ o.type = l.type)).and
          (denotes m o.right b.value)
      | none => of (b.adaptsTo l.type = false) := by
  refine .map (convert?_simulates hr) fun value? _ ρ k _ hvalue => ?_
  cases value? with
  | some value => exact ⟨⟨hvalue.1, rfl, rfl⟩, hvalue.2.2⟩
  | none => exact hvalue

section

variable (h : ∀ ρ k, pre.Holds ρ k → (represents m l a).Holds ρ k ∧ (represents m r b).Holds ρ k)

include h

/-- The left operand is the one to adapt if it is its turn, or the right one cannot be adapted. -/
theorem adaptLeft?_unifies (htype : l.type ≠ r.type) (hturn : ∀ ρ k, pre.Holds ρ k →
    (l.value.isConstant || !r.value.isConstant) = true ∨ b.adaptsTo l.type = false) :
    Simulates m env c pre (adaptLeft? l r) (pure ()) fun o? _ =>
      match o? with
      | some o => unified m a b (some o)
      | none => of (a.adaptsTo r.type = false) := by
  have hleft ρ k (hp : pre.Holds ρ k) : (represents m l a).Holds ρ k ∧ r.type.IsScalar :=
    ⟨(h ρ k hp).1, isScalar_of_represents (h ρ k hp).2⟩
  refine .weaken (adaptLeft?_simulates hleft) fun o? _ ρ k hp ho => ?_
  cases o? with
  | some o =>
    obtain ⟨hl, hr⟩ := h ρ k hp
    obtain ⟨⟨hadapts, hright, hotype⟩, hn⟩ := ho
    exact unified_of_left hl hr htype hadapts hright hotype hn (hturn ρ k hp)
  | none => exact ho

theorem adaptRight?_unifies (htype : l.type ≠ r.type) (hturn : ∀ ρ k, pre.Holds ρ k →
    (l.value.isConstant || !r.value.isConstant) = false ∨ a.adaptsTo r.type = false) :
    Simulates m env c pre (adaptRight? l r) (pure ()) fun o? _ =>
      match o? with
      | some o => unified m a b (some o)
      | none => of (b.adaptsTo l.type = false) := by
  have hright ρ k (hp : pre.Holds ρ k) : (represents m r b).Holds ρ k ∧ l.type.IsScalar :=
    ⟨(h ρ k hp).2, isScalar_of_represents (h ρ k hp).1⟩
  refine .weaken (adaptRight?_simulates hright) fun o? _ ρ k hp ho => ?_
  cases o? with
  | some o =>
    obtain ⟨hl, hr⟩ := h ρ k hp
    obtain ⟨⟨hadapts, hleft, hotype⟩, hn⟩ := ho
    exact unified_of_right hl hr htype hadapts hleft hotype hn (hturn ρ k hp)
  | none => exact ho

/-- Operands are taken to their common type, if they have one. -/
theorem unify?_simulates :
    Simulates m env c pre (unify? l r) (pure ()) fun o? _ => unified m a b o? := by
  rw [unify?]
  by_cases htype : l.type = r.type
  · rw [if_pos htype]
    refine .pure fun ρ k hp => ?_
    obtain ⟨hl, hr⟩ := h ρ k hp
    obtain ⟨hltype : l.type = a.type, -⟩ := hl
    obtain ⟨hrtype : r.type = b.type, -⟩ := hr
    have hcommon := Datum.common?_of_eq (hltype.symm.trans (htype.trans hrtype))
    exact ⟨⟨hltype ▸ hcommon, isScalar_of_represents (h ρ k hp).1⟩, (h ρ k hp).1.2.2,
      (h ρ k hp).2.2.2⟩
  · rw [if_neg htype]
    cases horder : l.value.isConstant || !r.value.isConstant with
    | true =>
      rw [if_pos rfl]
      refine .before (adaptLeft?_unifies h htype fun _ _ _ => .inl horder) fun o? => ?_
      cases o? with
      | some o => exact .pure fun ρ k hp => hp.2
      | none =>
        refine .weaken (adaptRight?_unifies (fun ρ k hp => h ρ k hp.1) htype
          fun ρ k hp => .inr hp.2) fun o? _ ρ k hp ho => ?_
        cases o? with
        | some o => exact ho
        | none => trivial
    | false =>
      rw [if_neg Bool.false_ne_true]
      refine .before (adaptRight?_unifies h htype fun _ _ _ => .inl horder) fun o? => ?_
      cases o? with
      | some o => exact .pure fun ρ k hp => hp.2
      | none =>
        refine .weaken (adaptLeft?_unifies (fun ρ k hp => h ρ k hp.1) htype
          fun ρ k hp => .inr hp.2) fun o? _ ρ k hp ho => ?_
        cases o? with
        | some o => exact ho
        | none => trivial

end

/-- A truth test yields whether the value counts as true. -/
theorem toBool_simulates (hv : ∀ ρ k, pre.Holds ρ k → (represents m v d).Holds ρ k) :
    Simulates m env c pre (toBool v) (pure d) fun value d => denotes m value d.isTrue.toInt := by
  obtain ⟨value, type, source⟩ := v
  have hscalar ρ k (hp : pre.Holds ρ k) : type.IsScalar := isScalar_of_represents (hv ρ k hp)
  cases type with
  | bool =>
    simp only [toBool]
    refine .pure fun ρ k hp => ?_
    obtain ⟨htype : MachineType.bool = d.type, hfit : IsFit value d, hn⟩ := hv ρ k hp
    have hholds : MachineType.bool.Holds d.value := htype ▸ hfit.holds
    rw [Datum.toInt_isTrue hholds]
    exact hn
  | int s w =>
    cases value with
    | int n =>
      simp only [toBool]
      refine .pure fun ρ k hp => ?_
      obtain ⟨-, -, hn, -⟩ := hv ρ k hp
      have hvalue : n.toInt = d.value := by simpa [Surroundings.operand?] using hn
      have htrue : (n != 0) = d.isTrue := by
        rw [Datum.isTrue, ← hvalue, bne, Bool.beq_eq_decide_eq, ← decide_not]
        simp [← Int64.toInt_inj]
      rw [htrue]
      exact denotes_bool
    | _ =>
      simp only [toBool]
      refine .define fun σ t hp => ⟨d.isTrue.toInt, ?_, computed_update.2⟩
      obtain ⟨-, -, hn, -⟩ := hv _ _ hp
      simp only [Surroundings.execute?, hn]
      rfl
  | ptr =>
    cases value with
    | null => exact .pure fun ρ k hp => (hscalar ρ k hp).elim
    | _ =>
      simp only [toBool]
      exact .define fun σ t hp => (hscalar _ _ hp).elim
  | float w =>
    cases value with
    | float x => exact .pure fun ρ k hp => (hscalar ρ k hp).elim
    | _ =>
      simp only [toBool]
      exact .define fun σ t hp => (hscalar _ _ hp).elim
  | _ => exact .fail _

theorem truthOf_simulates {operand : Lower TypedValue} {y : Eval Datum}
    (h : Simulates m env c pre operand y (represents m)) :
    Simulates m env c pre (truthOf operand) y fun value d => denotes m value d.isTrue.toInt := by
  rw [← bind_pure y]
  exact .bind h fun v d => toBool_simulates fun ρ k hp => hp.2

theorem promoteVariadic_simulates {callee : String} {post : MachineType × Value → Unit → Assertion}
    (hpre : ∀ ρ k, ¬ pre.Holds ρ k) :
    Simulates m env c pre (promoteVariadic v callee) (pure ()) post := by
  simp only [promoteVariadic]
  split
  · have hdefine : Simulates m env c pre (build (Build.convert .fpext v.value .f32 .f64)) (pure ())
        fun _ _ => of True := .define fun σ t hp => (hpre _ _ hp).elim
    exact .map hdefine fun _ _ _ _ hp => (hpre _ _ hp).elim
  · exact .fail _
  · exact .fail _
  · exact .pure fun ρ k hp => (hpre ρ k hp).elim

/-- The arguments of a call stand for the values at the types of the parameters. -/
theorem passArguments_simulates {callee : String} {vs : List TypedValue} (ds : List Datum)
    {number : Nat} {sources : List SourceType} {types : List MachineType}
    (hpre : ∀ ρ k, pre.Holds ρ k → (representAll m vs ds).Holds ρ k ∧
      vs.length = types.length ∧ sources.length = types.length ∧ ∀ type ∈ types, type.IsScalar) :
    Simulates m env c pre (passArguments callee number sources types vs) (pure ()) fun args _ =>
      denoteAll m args (types.zip (ds.map (·.value))) := by
  induction vs generalizing number sources types ds pre with
  | nil =>
    simp only [passArguments]
    refine .pure fun ρ k hp => ?_
    obtain ⟨-, hlength, -⟩ := hpre ρ k hp
    obtain rfl : types = [] := List.length_eq_zero_iff.mp hlength.symm
    trivial
  | cons v vs ih =>
    -- the values that no parameter stands for, of which there are none
    have hextra (hnone : ∀ ρ k, ¬ pre.Holds ρ k) : Simulates m env c pre (do
        let arg ← promoteVariadic v callee
        return arg :: (← passArguments callee (number + 1) sources types vs)) (pure ())
        fun args _ => denoteAll m args (types.zip (ds.map (·.value))) := by
      have harg : Simulates m env c pre (promoteVariadic v callee) (pure ()) fun _ _ => of True :=
        promoteVariadic_simulates hnone
      refine .before harg fun arg => ?_
      refine .before (ih [] fun ρ k hp => (hnone ρ k hp.1).elim) fun args => ?_
      exact .pure fun ρ k hp => (hnone ρ k hp.1.1).elim
    cases sources with
    | nil =>
      simp only [passArguments]
      refine hextra fun ρ k hp => ?_
      obtain ⟨-, hvs, hsources, -⟩ := hpre ρ k hp
      simp [← hsources] at hvs
    | cons source sources =>
      cases types with
      | nil =>
        simp only [passArguments]
        exact hextra fun ρ k hp => by simpa using (hpre ρ k hp).2.1
      | cons type types =>
        simp only [passArguments]
        cases ds with
        | nil =>
          have hnone ρ k (hp : pre.Holds ρ k) : False := (hpre ρ k hp).1
          refine .before (coerce_simulates (d := default) fun ρ k hp => (hnone ρ k hp).elim)
            fun value => ?_
          refine .before (ih [] fun ρ k hp => (hnone ρ k hp.1).elim) fun args => ?_
          exact .pure fun ρ k hp => (hnone ρ k hp.1.1).elim
        | cons d ds =>
          refine .before (coerce_simulates (d := d) fun ρ k hp => ?_) fun value => ?_
          · obtain ⟨hall, -, -, htypes⟩ := hpre ρ k hp
            exact ⟨hall.1, htypes type (by simp)⟩
          refine .before (ih ds fun ρ k hp => ?_) fun args => ?_
          · obtain ⟨hall, hvs, hsources, htypes⟩ := hpre ρ k hp.1
            exact ⟨hall.2, by simpa using hvs, by simpa using hsources,
              fun type ht => htypes type (by simp [ht])⟩
          · exact .pure fun ρ k hp => ⟨rfl, hp.1.2.2, hp.2⟩

end Lower

end SsaLowering
