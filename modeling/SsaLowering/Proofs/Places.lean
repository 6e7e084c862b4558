import SsaLowering.Proofs.Step

/-!
# Places and their roots

The address in a store was computed from the address of a larger place, and so on, back to a root.
There is one such way when temporaries are defined once. New instructions do not change the
ways that are there.
-/

namespace SsaLowering

namespace Instr

/-- The memory that the instruction writes. -/
def target? : Instr → Option Value
  | .store _ ptr _ => some ptr
  | _ => none

/-- The place in memory that the instruction writes or goes on from. -/
def place? : Instr → Option Value
  | .store _ ptr _ | .address _ _ ptr _ => some ptr
  | _ => none

theorem place?_of_target? {i : Instr} {ptr : Value} (h : i.target? = some ptr) :
    i.place? = some ptr := by
  cases i <;> simp_all [target?, place?]

end Instr

/-- A temporary with a small number, or none. -/
def Value.Below (n : Nat) (v : Value) : Prop := ∀ t, v = .temp t → t < n

/-- A place that is not a part of another one. -/
def IsRoot (code : List Instr) (v : Value) : Prop :=
  ∀ t base outer indices, .address t base outer indices ∈ code → v ≠ .temp t

/-- No two instructions have the same result. -/
def DefinesOnce (code : List Instr) : Prop :=
  ∀ i ∈ code, ∀ j ∈ code, ∀ t, i.result? = some t → j.result? = some t → i = j

section

variable {code code' : List Instr} {ptr root root' : Value} {i : Instr} {n t : Nat}

/-- A root stays one when a new temporary is defined. -/
theorem IsRoot.of_added (h : IsRoot code root) (hcode : code' ⊆ i :: code)
    (hi : ∀ t, i.result? = some t → n ≤ t) (hroot : root.Below n) : IsRoot code' root := by
  rintro t base outer indices hmem rfl
  rcases List.mem_cons.mp (hcode hmem) with rfl | hmem
  · exact absurd (hroot t rfl) (Nat.not_lt.mpr (hi t rfl))
  · exact h t base outer indices hmem rfl

/-- What an instruction of another kind defines is a root. -/
theorem DefinesOnce.isRoot (h : DefinesOnce code) (hi : i ∈ code) (ht : i.result? = some t)
    (hkind : ∀ t base outer indices, i ≠ .address t base outer indices) :
    IsRoot code (.temp t) := by
  rintro t' base outer indices haddress heq
  obtain rfl : t = t' := Value.temp.inj heq
  exact hkind t base outer indices (h i hi _ haddress t ht rfl)

namespace GoesBack

theorem eq_of_isRoot (h : GoesBack code ptr root) (hroot : IsRoot code ptr) : root = ptr := by
  cases h with
  | refl => rfl
  | part hi => exact absurd rfl (hroot _ _ _ _ hi)

/-- There is one way back. -/
theorem unique (hcode : DefinesOnce code) (h : GoesBack code ptr root) (hroot : IsRoot code root)
    (h' : GoesBack code ptr root') (hroot' : IsRoot code root') : root' = root := by
  induction h with
  | refl v => exact h'.eq_of_isRoot hroot
  | @part t base outer root indices hi _ ih =>
    cases h' with
    | refl => exact absurd rfl (hroot' _ _ _ _ hi)
    | part hi' h' =>
      have heq := hcode _ hi _ hi' t rfl rfl
      simp only [Instr.address.injEq] at heq
      obtain ⟨-, -, rfl, -⟩ := heq
      exact ih hroot h'

/-- New temporaries do not matter for what was there before. -/
theorem of_added (h : GoesBack code' ptr root) (hcode : code' ⊆ i :: code)
    (hi : ∀ t, i.result? = some t → n ≤ t)
    (hplaces : ∀ j ∈ code, ∀ ptr, j.place? = some ptr → ptr.Below n) (hptr : ptr.Below n) :
    GoesBack code ptr root := by
  induction h with
  | refl v => exact .refl v
  | @part t base outer root indices hmem _ ih =>
    rcases List.mem_cons.mp (hcode hmem) with rfl | hmem
    · exact absurd (hptr t rfl) (Nat.not_lt.mpr (hi t rfl))
    · exact .part hmem (ih (hplaces _ hmem outer rfl))

/-- The way back stays among small numbers. -/
theorem root_below (hplaces : ∀ j ∈ code, ∀ ptr, j.place? = some ptr → ptr.Below n)
    (h : GoesBack code ptr root) (hptr : ptr.Below n) : root.Below n := by
  induction h with
  | refl => exact hptr
  | part hmem _ ih => exact ih (hplaces _ hmem _ rfl)

end GoesBack

open Classical in
/-- The stores of some code that go back to a root. -/
noncomputable def writesTo (code : List Instr) (root : Value) : List Instr :=
  code.filter fun i => decide (∃ ptr, i.target? = some ptr ∧ GoesBack code ptr root)

/-- Behind a new instruction, the old stores go back to the same roots. -/
theorem filter_writesTo (hcode : code'.Perm (i :: code)) (hi : ∀ t, i.result? = some t → n ≤ t)
    (hplaces : ∀ j ∈ code, ∀ ptr, j.place? = some ptr → ptr.Below n) (root : Value)
    [DecidablePred fun j : Instr => ∃ ptr, j.target? = some ptr ∧ GoesBack code' ptr root] :
    code.filter (fun j => decide (∃ ptr, j.target? = some ptr ∧ GoesBack code' ptr root)) =
      writesTo code root := by
  refine List.filter_congr fun j hj => decide_eq_decide.mpr (exists_congr fun ptr =>
    and_congr_right fun htarget => ⟨fun hback => ?_, fun hback => ?_⟩)
  · exact hback.of_added hcode.subset hi hplaces (hplaces j hj ptr (Instr.place?_of_target? htarget))
  · exact hback.mono fun k hk => hcode.mem_iff.mpr (List.mem_cons_of_mem i hk)

theorem perm_writesTo (hcode : code'.Perm (i :: code)) (hi : ∀ t, i.result? = some t → n ≤ t)
    (hplaces : ∀ j ∈ code, ∀ ptr, j.place? = some ptr → ptr.Below n)
    (hnew : ∀ ptr, i.target? = some ptr → ¬ GoesBack code' ptr root) :
    (writesTo code' root).Perm (writesTo code root) := by
  classical
  refine (hcode.filter _).trans (.of_eq ?_)
  rw [List.filter_cons_of_neg, filter_writesTo hcode hi hplaces]
  rw [decide_eq_true_eq]
  rintro ⟨ptr, htarget, hback⟩
  exact hnew ptr htarget hback

/-- A new store to a root is one more. -/
theorem perm_writesTo_cons (hcode : code'.Perm (i :: code)) (hi : ∀ t, i.result? = some t → n ≤ t)
    (hplaces : ∀ j ∈ code, ∀ ptr, j.place? = some ptr → ptr.Below n)
    (hnew : i.target? = some root) : (writesTo code' root).Perm (i :: writesTo code root) := by
  classical
  refine (hcode.filter _).trans (.of_eq ?_)
  rw [List.filter_cons_of_pos, filter_writesTo hcode hi hplaces]
  rw [decide_eq_true_eq]
  exact ⟨root, hnew, .refl root⟩

/-- Nothing is written to a temporary that no place is computed from. -/
theorem writesTo_eq_nil (hplaces : ∀ j ∈ code, ∀ ptr, j.place? = some ptr → ptr.Below n)
    (hn : n ≤ t) : writesTo code (.temp t) = [] := by
  classical
  refine List.filter_eq_nil_iff.mpr fun j hj => ?_
  rw [decide_eq_true_eq]
  rintro ⟨ptr, htarget, hback⟩
  have hbelow := hplaces j hj ptr (Instr.place?_of_target? htarget)
  exact absurd (hback.root_below hplaces hbelow t rfl) (Nat.not_lt.mpr hn)

end

end SsaLowering
