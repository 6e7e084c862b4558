import SsaLowering.Proofs.Conversion

/-!
# Variables, literals and operators

What is written for a part of an expression computes the value of that part.
-/

namespace SsaLowering

/-- An operation of the code at a type does what the operation of the source does there. -/
theorem evaluate?_of_selectOpcode? {op : BinaryOp} {type : MachineType} {code : Opcode} {x y : Int}
    (h : selectOpcode? op type = some code) (htype : type.IsScalar) :
    code.isComparison = op.isComparison ∧ code.evaluate? type x y =
      if op.isComparison then some (op.compare x y).toInt
      else if op.IsDefined type x y then some (type.wrap (op.compute x y)) else none := by
  obtain rfl | ⟨w, rfl⟩ := MachineType.isScalar_iff.mp htype
  · cases op <;> simp only [selectOpcode?, Option.some.injEq, reduceCtorEq] at h <;> subst h <;>
      exact ⟨rfl, rfl⟩
  · cases op <;> simp only [selectOpcode?, Option.some.injEq, reduceCtorEq] at h <;> subst h
    case div | mod =>
      refine ⟨rfl, ?_⟩
      by_cases hy : y = 0
      · simp [Opcode.evaluate?, BinaryOp.isComparison, BinaryOp.IsDefined, hy]
      · by_cases hquotient : (MachineType.int .signed w).Holds (x.tdiv y)
        · simp [Opcode.evaluate?, BinaryOp.isComparison, BinaryOp.IsDefined, BinaryOp.compute, hy,
            hquotient, MachineType.wrap_of_holds htype]
        · simp [Opcode.evaluate?, BinaryOp.isComparison, BinaryOp.IsDefined, hy, hquotient]
    all_goals exact ⟨rfl, rfl⟩

theorem readInteger?_of_readInt64? {cs : List Char} {n : Int64} (h : readInt64? cs = some n) :
    readInteger? cs = some n.toInt := by
  simp only [readInt64?, Option.bind_eq_bind, Option.bind_eq_some_iff] at h
  obtain ⟨z, hz, h⟩ := h
  by_cases hrange : Int64.minValue.toInt ≤ z ∧ z ≤ Int64.maxValue.toInt
  · rw [if_pos hrange] at h
    obtain rfl := Option.some.inj h
    rw [hz, Int64.toInt_ofInt_of_le hrange.1 (Int.lt_add_one_of_le hrange.2)]
  · simp only [if_neg hrange, reduceCtorEq] at h

namespace Scope

/-- Marking a name as used changes nothing else about its binding. -/
theorem find?_markUsed (scope : Scope) (name n : String) :
    (scope.markUsed name).find? n =
      (scope.find? n).map fun b => if n == name then { b with used := true } else b := by
  simp only [markUsed, find?]
  induction scope.entries with
  | nil => rfl
  | cons entry entries ih =>
    obtain ⟨k, b⟩ := entry
    by_cases hk : n = k
    · subst hk
      by_cases hname : n = name
      · simp [hname]
      · simp [hname]
    · by_cases hname : k = name
      · simpa [hname, List.lookup_cons, beq_eq_false_iff_ne.mpr (hname ▸ hk)] using ih
      · simpa [hname, List.lookup_cons, beq_eq_false_iff_ne.mpr hk] using ih

end Scope

namespace Assertion

variable {m : Surroundings} {x : SourceVariable} {v : Value} {b b' : Bool} {ρ : Temps} {k : Nat}

/-- A constant stands for the truth value that it is. -/
theorem eq_of_bool? (hv : v.bool? = some b') (h : (denotes m v b.toInt).Holds ρ k) : b' = b := by
  cases v with
  | bool b'' =>
    obtain rfl : b'' = b' := by simpa [Value.bool?] using hv
    have htoInt : b''.toInt = b.toInt := by simpa [Surroundings.operand?] using h.1
    cases b'' <;> cases b <;> simp_all
  | _ => simp [Value.bool?] at hv

/-- A name is bound as a variable is. -/
def bound (m : Surroundings) (x : SourceVariable) : Option Binding → Assertion
  | some b => binds m b x
  | none => of False

end Assertion

namespace Lower

open BodyState Assertion

variable {m : Surroundings} {env : Environment} {c : SourceContext} {pre : Assertion}
  {x : SourceVariable} {name : String} {β : Type}

theorem exec_readBinding? (s : BodyState) :
    exec (readBinding? env name) s =
      (.ok (({ s with scope := s.scope.markUsed name } : BodyState).binding? env name),
        { s with scope := s.scope.markUsed name }) := by
  simp only [readBinding?, exec_bind, exec_get, exec_set, Scope.read, binding?]
  cases (s.scope.markUsed name).find? name <;> rfl

theorem exec_peekBinding? (s : BodyState) :
    exec (peekBinding? env name) s = (.ok (s.binding? env name), s) := by
  simp only [peekBinding?, exec_bind, exec_get, binding?]
  cases s.scope.find? name <;> rfl

variable (env) in
theorem extends_markUsed (s : BodyState) (name : String) :
    s.Extends env { s with scope := s.scope.markUsed name } where
  writesTo h := ⟨_, _, _, ⟨h.function, h.current, h.block⟩, .refl _, .inl rfl⟩
  temps := Nat.le_refl _
  bindings {n b} h := by
    simp only [binding?, Scope.find?_markUsed] at h ⊢
    cases hfind : s.scope.find? n with
    | none =>
      rw [hfind] at h
      exact ⟨b, h, rfl, rfl, rfl⟩
    | some b' =>
      rw [hfind] at h
      obtain rfl := Option.some.inj h
      refine ⟨_, rfl, ?_⟩
      by_cases hn : n == name
      · simp [hn]
      · simp [hn]

/-- A variable that is read is bound. -/
theorem readBinding?_simulates (hx : c.lookup name = some x) :
    Simulates m env c pre (readBinding? env name) (pure ()) fun b? _ => bound m x b? := by
  intro s b? s' hexec
  rw [exec_readBinding?] at hexec
  obtain ⟨rfl, rfl⟩ : _ = b? ∧ _ = s' := by simpa using hexec
  have hs := extends_markUsed env s name
  refine ⟨hs, fun g σ hg hσ hc hp => ?_⟩
  obtain ⟨f, b, hwrites, hindex⟩ := hσ
  obtain ⟨b', hb', hbinds⟩ := (agrees_of_extends hc hs fun _ _ => rfl).bound hx
  refine ⟨σ, .refl, ⟨f, b, ⟨hwrites.function, hwrites.current, hwrites.block⟩, hindex⟩, rfl, ?_,
    fun _ _ => rfl⟩
  rw [hb']
  exact hbinds

theorem peekBinding?_simulates (hx : c.lookup name = some x) :
    Simulates m env c pre (peekBinding? env name) (pure ()) fun b? _ => bound m x b? := by
  intro s b? s' hexec
  rw [exec_peekBinding?] at hexec
  obtain ⟨rfl, rfl⟩ : _ = b? ∧ _ = s' := by simpa using hexec
  refine ⟨.refl s, fun g σ hg hσ hc hp => ?_⟩
  obtain ⟨b', hb', hbinds⟩ := hc.bound hx
  refine ⟨σ, .refl, hσ, rfl, ?_, fun _ _ => rfl⟩
  rw [hb']
  exact hbinds

/-- What is loaded from the memory is what the memory holds there. -/
theorem load_simulates {y : Eval Int} {ptr : Value} {type : MachineType}
    (h : ∀ ρ k, pre.Holds ρ k → ∃ address, (∀ w, exec y w = (.ok (w.load address type), w)) ∧
      (denotes m ptr address).Holds ρ k ∧ type.IsScalar) :
    Simulates m env c pre (build (Build.load ptr type)) y fun v n =>
      carries m v ⟨type, n, false⟩ := by
  refine .define fun σ t hp => ?_
  obtain ⟨address, hy, hptr, htype⟩ := h _ _ hp
  rw [hy]
  refine ⟨σ.world.load address type, ?_, ?_⟩
  · rw [Surroundings.execute?, hptr.1]
    rfl
  · exact carries_of_computed computed_update htype (MachineType.holds_wrap htype _)

/-- A variable in memory is loaded. -/
theorem load_variable_simulates {b : Binding} {ptr : Value} (hptr : b.storage.address? = some ptr)
    (h : ∀ ρ k, pre.Holds ρ k → (binds m b x).Holds ρ k) :
    Simulates m env c pre (build (Build.load ptr b.type)) (Eval.read x) fun v n =>
      carries m v ⟨b.type, n, false⟩ := by
  refine load_simulates fun ρ k hp => ?_
  obtain ⟨⟨htype, -, hscalar⟩, hlives⟩ := h ρ k hp
  obtain ⟨address, hhome, hdenotes⟩ := cell_of_address? hlives hptr
  refine ⟨address, fun w => ?_, hdenotes, hscalar⟩
  simp only [Eval.read, hhome, htype]
  rfl

theorem lowerVariable_simulates (hx : c.lookup name = some x) :
    Simulates m env c pre (lowerVariable env name) (do return ⟨x.type, ← Eval.read x, false⟩)
      (represents m) := by
  refine .before (readBinding?_simulates hx) fun b? => .orFail fun b hb => ?_
  subst hb
  have hbinds ρ k (hp : (pre.and (binds m b x)).Holds ρ k) : (binds m b x).Holds ρ k := hp.2
  have hresult {action : Lower Value} (h : Simulates m env c (pre.and (binds m b x)) action
      (Eval.read x) fun v n => carries m v ⟨b.type, n, false⟩) :
      Simulates m env c (pre.and (binds m b x))
        (do return ⟨← action, b.type, some b.source⟩)
        (do return ⟨x.type, ← Eval.read x, false⟩) (represents m) := by
    refine .bind h fun v n => .pure fun ρ k hp => ?_
    have htype : x.type = b.type := (hbinds ρ k hp.1).1.1
    exact ⟨htype.symm, htype ▸ hp.2⟩
  cases hstorage : b.storage with
  | direct value =>
    refine hresult (.quiet fun ρ k hp => ?_)
    obtain ⟨⟨-, -, hscalar⟩, hlives⟩ := hbinds ρ k hp
    rw [hstorage] at hlives
    obtain ⟨n, hhome, hcomputed, hn⟩ := fixed_of_direct hlives
    refine ⟨n, fun w => ?_, carries_of_computed hcomputed hscalar hn⟩
    simp only [Eval.read, hhome]
    rfl
  | stack slot => exact hresult (load_variable_simulates (by rw [hstorage]; rfl) hbinds)
  | global symbol => exact hresult (load_variable_simulates (by rw [hstorage]; rfl) hbinds)

theorem lowerNumeral_simulates {numeral : String} (hnumeral : '.' ∉ numeral.toList) :
    Simulates m env c pre (lowerLiteral (.number numeral)) (do
        let n ← Eval.orHalt (readInteger? numeral.toList) .wrong
        return ⟨if MachineType.i32.Holds n then .i32 else .i64, n, true⟩) (represents m) := by
  have hinteger : numeral.toList.contains '.' = false := by simpa using hnumeral
  simp only [lowerLiteral, lowerNumeral, hinteger, Bool.false_eq_true, if_false]
  cases hread : readInt64? numeral.toList with
  | none => exact .throw _
  | some n =>
    rw [readInteger?_of_readInt64? hread]
    refine .pure fun ρ k _ => ?_
    have hn : (denotes m (.int n) n.toInt).Holds ρ k := ⟨rfl, fun t h => by simp at h⟩
    by_cases hnarrow : MachineType.i32.Holds n.toInt
    · rw [if_pos (MachineType.fits_iff.mpr hnarrow), if_pos hnarrow]
      exact ⟨rfl, ⟨trivial, hnarrow, fun _ => rfl, fun _ _ => ⟨n, rfl⟩⟩, hn⟩
    · rw [if_neg (mt MachineType.fits_iff.mp hnarrow), if_neg hnarrow]
      have hwide : MachineType.i64.Holds n.toInt := ⟨n.le_toInt, Int.le_sub_one_of_lt n.toInt_lt⟩
      exact ⟨rfl, ⟨trivial, hwide, fun _ => rfl, fun _ _ => ⟨n, rfl⟩⟩, hn⟩

theorem lowerBool_simulates (b : Bool) :
    Simulates m env c pre (lowerLiteral (.bool b)) (pure (.truth b)) (represents m) :=
  .pure fun _ _ _ => represents_truth denotes_bool

/-- An operation is written for a result that is known. -/
theorem binary_simulates {b : β} {op : Opcode} {lhs rhs : Value} {type : MachineType} {n : Int}
    (h : ∀ ρ k, pre.Holds ρ k → ∃ x y, m.operand? ρ lhs = some x ∧ m.operand? ρ rhs = some y ∧
      op.evaluate? type x y = some n) :
    Simulates m env c pre (build (Build.binary op lhs rhs type)) (pure b) fun v _ =>
      computed m v n := by
  refine .define fun σ t hp => ⟨n, ?_, computed_update⟩
  obtain ⟨x, y, hx, hy, hn⟩ := h _ _ hp
  rw [Surroundings.execute?, hx, hy]
  simp [hn]

theorem exec_binary {op : BinaryOp} {a b : Datum} {type : MachineType} (w : World)
    (h : a.common? b = some type) : exec (Eval.binary op a b) w =
      (if op.isComparison then .ok (.truth (op.compare a.value b.value))
        else if op.IsDefined type a.value b.value then
          .ok ⟨type, type.wrap (op.compute a.value b.value), false⟩
        else .error .trap, w) := by
  simp only [Eval.binary, Eval.orHalt, h, pure_bind]
  split
  · rfl
  · split <;> rfl

variable (env c) in
/-- An operation is written for an operator at the common type of its operands. -/
theorem operation_simulates {op : BinaryOp} {a b : Datum} {o : Operands} {code : Opcode}
    (hcode : selectOpcode? op o.type = some code)
    (h : ∀ ρ k, pre.Holds ρ k → (unified m a b (some o)).Holds ρ k) :
    Simulates m env c pre (build (Build.binary code o.left o.right o.type)) (Eval.binary op a b)
      fun v d => represents m (if code.isComparison then .truth v else .plain v o.type) d := by
  refine .define fun σ t hp => ?_
  obtain ⟨⟨hcommon, hscalar⟩, hleft, hright⟩ := h _ _ hp
  obtain ⟨hcomparison, happly⟩ :=
    evaluate?_of_selectOpcode? (x := a.value) (y := b.value) hcode hscalar
  have hexecute (n : Int) (hn : code.evaluate? o.type a.value b.value = some n) :
      m.execute? σ (.binary t code o.left o.right o.type) = some (σ.define t n σ.world) := by
    rw [Surroundings.execute?, hleft.1, hright.1]
    simp [hn]
  rw [exec_binary _ hcommon, hcomparison]
  cases hop : op.isComparison with
  | true =>
    rw [hop, if_pos rfl] at happly
    exact ⟨_, hexecute _ happly, represents_truth computed_update.2⟩
  | false =>
    rw [hop, if_neg Bool.false_ne_true] at happly
    by_cases hdefined : op.IsDefined o.type a.value b.value
    · rw [if_pos hdefined] at happly
      simp only [Bool.false_eq_true, if_false, if_pos hdefined]
      refine ⟨_, hexecute _ happly, rfl, ?_⟩
      exact carries_of_computed computed_update hscalar (MachineType.holds_wrap hscalar _)
    · rw [if_neg hdefined] at happly
      simp only [Bool.false_eq_true, if_false, if_neg hdefined]
      refine ⟨?_, rfl⟩
      rw [Surroundings.execute?, hleft.1, hright.1]
      simp [happly]

theorem lowerArithmetic_simulates {op : BinaryOp} {left right : Lower TypedValue}
    {y z : Eval Datum} (hl : ∀ pre, Simulates m env c pre left y (represents m))
    (hr : ∀ pre, Simulates m env c pre right z (represents m)) :
    Simulates m env c pre (lowerArithmetic op left right)
      (do Eval.binary op (← y) (← z)) (represents m) := by
  refine .bind (hl pre) fun l a => .bind (hr _) fun r b => ?_
  refine .before (unify?_simulates fun ρ k hp => ⟨hp.1.2, hp.2⟩) fun o? => ?_
  refine .orFail fun o ho => .orFail fun code hcode => ?_
  subst ho
  have hresult := operation_simulates env c hcode fun ρ k
    (hp : (((pre.and (represents m l a)).and (represents m r b)).and
      (unified m a b (some o))).Holds ρ k) => hp.2
  cases hcomparison : code.isComparison with
  | true =>
    refine .map hresult fun v d ρ k _ hv => ?_
    rwa [hcomparison, if_pos rfl] at hv
  | false =>
    refine .map hresult fun v d ρ k _ hv => ?_
    rwa [hcomparison, if_neg Bool.false_ne_true] at hv

/-- An operation on truth values is written for a result that is known. -/
theorem truth_simulates {op : Opcode} {lhs rhs : Value} {b : Bool}
    (h : ∀ ρ k, pre.Holds ρ k → ∃ x y, m.operand? ρ lhs = some x ∧ m.operand? ρ rhs = some y ∧
      op.evaluate? .bool x y = some b.toInt) :
    Simulates m env c pre (do return .truth (← build (Build.binary op lhs rhs .bool)))
      (pure (.truth b)) (represents m) :=
  .before (binary_simulates h) fun _ => .pure fun _ _ hp => represents_truth hp.2.2

theorem lowerEager_simulates (isAnd : Bool) {left right : Lower TypedValue} {y z : Eval Datum}
    (hl : ∀ pre, Simulates m env c pre left y (represents m))
    (hr : ∀ pre, Simulates m env c pre right z (represents m)) :
    Simulates m env c pre (lowerEager isAnd left right) (do
        let a ← y
        let b ← z
        return .truth (if isAnd then a.isTrue && b.isTrue else a.isTrue || b.isTrue))
      (represents m) := by
  refine .bind (truthOf_simulates (hl pre)) fun lhs a =>
    .bind (truthOf_simulates (hr _)) fun rhs b => ?_
  split
  next l r hlhs hrhs =>
    refine .pure fun ρ k hp => ?_
    obtain rfl := eq_of_bool? hlhs hp.1.2
    obtain rfl := eq_of_bool? hrhs hp.2
    exact represents_truth denotes_bool
  next =>
    refine truth_simulates fun ρ k hp => ⟨_, _, hp.1.2.1, hp.2.1, ?_⟩
    cases isAnd <;> cases a.isTrue <;> cases b.isTrue <;> rfl

theorem lowerNot_simulates {operand : Lower TypedValue} {y : Eval Datum}
    (h : ∀ pre, Simulates m env c pre operand y (represents m)) :
    Simulates m env c pre (lowerNot operand) (do return .truth !(← y).isTrue) (represents m) := by
  refine .bind (truthOf_simulates (h pre)) fun truth d => ?_
  cases htruth : truth.bool? with
  | some b =>
    refine .pure fun ρ k hp => ?_
    obtain rfl := eq_of_bool? htruth hp.2
    exact represents_truth denotes_bool
  | none =>
    refine truth_simulates fun ρ k hp => ⟨_, _, hp.2.1, rfl, ?_⟩
    cases d.isTrue <;> rfl

/-- The address of a variable that can be changed. -/
theorem target_of_binds {b : Binding} {ptr : Value} {ρ : Temps} {k : Nat}
    (hptr : b.storage.address? = some ptr) (hmutable : b.isMutable = true)
    (h : (binds m b x).Holds ρ k) : ∃ address, (∀ w, exec (Eval.target x) w = (.ok address, w)) ∧
      (denotes m ptr address).Holds ρ k := by
  obtain ⟨⟨-, hsame, -⟩, hlives⟩ := h
  obtain ⟨address, hhome, hdenotes⟩ := cell_of_address? hlives hptr
  refine ⟨address, fun w => ?_, hdenotes⟩
  simp only [Eval.target, hsame.trans hmutable, hhome]
  rfl

/-- The change of a variable by one is an addition or a subtraction. -/
theorem evaluate?_of_stepOperation? {op : UnaryOp} {type : MachineType} {code : Opcode}
    {one : Value} {ρ : Temps} (h : stepOperation? op type = some (code, one))
    (htype : type.IsScalar) (n : Int) :
    ∃ y, m.operand? ρ one = some y ∧ code.evaluate? type n y =
      some (type.wrap (n + if op == .preIncrement || op == .postIncrement then 1 else -1)) := by
  obtain rfl | ⟨w, rfl⟩ := MachineType.isScalar_iff.mp htype
  · simp [stepOperation?] at h
  · cases op <;> simp only [stepOperation?, Option.some.injEq, reduceCtorEq, Prod.mk.injEq] at h
    all_goals
      obtain ⟨rfl, rfl⟩ := h
      exact ⟨_, rfl, rfl⟩

theorem lowerStep_simulates {op : UnaryOp} {location : Option Location}
    (hx : c.lookup name = some x) :
    Simulates m env c pre (lowerStep env op (.variable location name)) (Eval.step op x)
      (represents m) := by
  refine .before (readBinding?_simulates hx) fun b? => .orFail fun b hb => ?_
  subst hb
  refine .guarded fun hmutable => .orFail fun ptr hptr => .orFail fun (code, one) hcode => ?_
  have hbinds ρ k (hp : (pre.and (binds m b x)).Holds ρ k) : (binds m b x).Holds ρ k := hp.2
  refine .behind (fun ρ k hp => target_of_binds hptr hmutable (hbinds ρ k hp)) fun address => ?_
  refine .bind (load_simulates fun ρ k hp => ?_) fun old n => ?_
  · obtain ⟨htype, -, hscalar⟩ := (hbinds ρ k hp.1).1
    refine ⟨address, fun w => ?_, hp.2, hscalar⟩
    rw [htype]
    rfl
  have hscalar ρ k (hp : ((pre.and (binds m b x)).and (denotes m ptr address)).and
      (carries m old ⟨b.type, n, false⟩) |>.Holds ρ k) : x.type = b.type ∧ b.type.IsScalar :=
    ⟨(hbinds ρ k hp.1.1).1.1, (hbinds ρ k hp.1.1).1.2.2⟩
  let changed := n + if op == .preIncrement || op == .postIncrement then 1 else -1
  refine .before (binary_simulates (n := x.type.wrap changed) fun ρ k hp => ?_) fun new => ?_
  · obtain ⟨htype, hscalar⟩ := hscalar ρ k hp
    obtain ⟨y, hy, happly⟩ := evaluate?_of_stepOperation? (m := m) (ρ := ρ) hcode hscalar n
    exact ⟨n, y, hp.2.2.1, hy, htype ▸ happly⟩
  refine .bind (.store fun ρ k hp => ?_) fun _ _ => .pure fun ρ k hp => ?_
  · exact ⟨(hscalar ρ k hp.1).1.symm, hp.2.2.1, hp.1.1.2.1⟩
  · obtain ⟨htype, hscalar⟩ := hscalar ρ k hp.1.1
    have hold : (carries m old ⟨x.type, n, false⟩).Holds ρ k := htype ▸ hp.1.1.2
    have hscalar' : x.type.IsScalar := htype ▸ hscalar
    have hnew := carries_of_computed hp.1.2 hscalar' (MachineType.holds_wrap hscalar' _)
    refine ⟨htype.symm, ?_⟩
    cases op == .preIncrement || op == .preDecrement with
    | true => exact hnew
    | false => exact hold

theorem assignVariable_simulates {v : TypedValue} {d : Datum} (hx : c.lookup name = some x)
    (hv : ∀ ρ k, pre.Holds ρ k → (represents m v d).Holds ρ k) :
    Simulates m env c pre (assignVariable env name v) (Eval.assign x d) (represents m) := by
  refine .before (peekBinding?_simulates hx) fun b? => .orFail fun b hb => ?_
  subst hb
  refine .guarded fun hmutable => .orFail fun ptr hptr => ?_
  have hbinds ρ k (hp : (pre.and (binds m b x)).Holds ρ k) : (binds m b x).Holds ρ k := hp.2
  refine .behind (fun ρ k hp => target_of_binds hptr hmutable (hbinds ρ k hp)) fun address => ?_
  refine .before (coerce_simulates (d := d) fun ρ k hp => ?_) fun stored => ?_
  · exact ⟨hv ρ k hp.1.1, (hbinds ρ k hp.1).1.2.2⟩
  refine .bind (.store fun ρ k hp => ?_) fun _ _ => .pure fun ρ k hp => ?_
  · exact ⟨(hbinds ρ k hp.1.1).1.1.symm, hp.2.2.1, hp.1.2.1⟩
  · have htype : x.type = b.type := (hbinds ρ k hp.1.1.1).1.1
    exact ⟨htype.symm, htype ▸ hp.1.2⟩

theorem lowerAssign_simulates {location : Option Location} {value : Lower TypedValue}
    {y : Eval Datum} (hx : c.lookup name = some x)
    (h : ∀ pre, Simulates m env c pre value y (represents m)) :
    Simulates m env c pre (lowerAssign env (.variable location name) value)
      (do Eval.assign x (← y)) (represents m) :=
  .bind (h pre) fun _ _ => assignVariable_simulates hx fun _ _ hp => hp.2

/-- A call is written for a call. -/
theorem call_simulates {callee : String} {signature : Signature} {ds : List Datum}
    {args : List (MachineType × Value)} (hsignature : signature.IsScalar)
    (h : ∀ ρ k, pre.Holds ρ k →
      (denoteAll m args (signature.paramTypes.zip (ds.map (·.value)))).Holds ρ k) :
    Simulates m env c pre (build (Build.call (.function callee) signature.type args))
      (Eval.call m callee signature ds) fun v? d =>
        match v? with
        | some v => represents m ⟨v, signature.returnType, some signature.source⟩ d
        | none => of False := by
  have hvoid : signature.type.returnsVoid = false := by
    obtain hbool | ⟨w, hw⟩ := MachineType.isScalar_iff.mp hsignature.result
    · simp [Signature.type, MachineType.returnsVoid, hbool]
    · simp [Signature.type, MachineType.returnsVoid, hw]
  simp only [Build.call, hvoid, Bool.false_eq_true, if_false]
  rw [build_bind]
  have hdefine : Simulates m env c pre (build (Build.define fun result =>
      .call (some result) (.function callee) signature.type args)) (Eval.call m callee signature ds)
      fun v d => represents m ⟨v, signature.returnType, some signature.source⟩ d := ?_
  · exact .map hdefine fun v d ρ k _ hv => hv
  refine .define fun σ t hp => ?_
  let values := signature.paramTypes.zip (ds.map (·.value))
  have hargs : m.operands? σ.temps args = some values := operands?_of_denoteAll (h _ _ hp)
  refine ⟨(m.call σ.world callee signature.returnType values).1, ?_, rfl, ?_⟩
  · simp only [Surroundings.execute?, Signature.type, hargs]
    rfl
  · refine carries_of_computed computed_update hsignature.result ?_
    exact MachineType.holds_wrap hsignature.result _

theorem lowerCall_simulates {callee : String} {count : Nat} {args : Lower (List TypedValue)}
    {y : Eval (List Datum)} (hfunctions : c.functions = env.functions)
    (hsignature : ∀ signature, c.functions.lookup callee = some signature → signature.IsScalar)
    (h : ∀ pre, Simulates m env c pre args y fun vs ds =>
      (of (vs.length = count)).and (representAll m vs ds)) :
    Simulates m env c pre (lowerCall env callee count args) (do
        let signature ← Eval.orHalt (c.functions.lookup callee) .wrong
        let values ← y
        Eval.call m callee signature values) (represents m) := by
  rw [lowerCall]
  refine .orFail fun signature hlookup => ?_
  have hscalar := hsignature signature (hfunctions ▸ hlookup)
  simp only [hfunctions, hlookup, Eval.orHalt, pure_bind]
  refine .guarded fun hfits => .bind (h pre) fun vs ds => ?_
  refine .before (passArguments_simulates ds fun ρ k hp => ?_) fun passed => ?_
  · obtain ⟨hlength : vs.length = count, hall⟩ := hp.2
    have hcount : count = signature.params.length := by simpa [hscalar.isVararg] using hfits
    exact ⟨hall, by rw [hlength, hcount, hscalar.length], hscalar.length, hscalar.params⟩
  · rw [← bind_pure (Eval.call m callee signature ds)]
    refine .bind (call_simulates hscalar fun ρ k hp => hp.2) fun v? d => ?_
    cases v? with
    | some v => exact .pure fun ρ k hp => hp.2
    | none => exact .pure fun ρ k hp => hp.2.elim

end Lower

end SsaLowering
