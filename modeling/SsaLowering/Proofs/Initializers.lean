import SsaLowering.Proofs.Convertibility
import SsaLowering.Proofs.Declaration
import SsaLowering.Proofs.SourceTypes

/-!
# Constants that initializers denote

An initializer is a literal, the opposite of an initializer, or a pointer cast of one. Both the
evaluation in front of a unit and the lowering in a body come to the constant that it denotes.
The constant depends on nothing else, apart from the symbol under which a text is found.
-/

namespace SsaLowering

/-- The value with another name for each text whose address it may be. -/
def Value.named (symbol : String → String) : Value → Value
  | .global text => .global (symbol text)
  | v => v

namespace TypedValue

/-- The value with another name for each text whose address it may be. -/
def named (symbol : String → String) (v : TypedValue) : TypedValue :=
  { v with value := v.value.named symbol }

/-- The opposite of a constant, if that is a number. -/
def opposite? (v : TypedValue) : Option TypedValue :=
  match v.value with
  | .int n => some { v with value := .int (-n) }
  | .float x => some { v with value := .float x.negate }
  | _ => none

/-- A pointer at another source type. -/
def castTo? (target : SourceType) (v : TypedValue) : Option TypedValue :=
  if v.type = .ptr then some ⟨v.value, .ptr, some target⟩ else none

end TypedValue

namespace Term

/-- Literals, and their opposites and pointer casts to any depth. -/
def isInitializer : Term → Bool
  | .literal .. => true
  | .unary _ .minus operand => operand.isInitializer
  | .cast _ target operand => target.isPointer && operand.isInitializer
  | _ => false

/-- The constant that an initializer denotes. The address of a text bears the text itself as its
name. -/
def constant? : Term → Option TypedValue
  | .literal _ (.number numeral) => (lowerNumeral numeral).toOption
  | .literal _ (.string text) => some (stringValue text)
  | .literal _ (.bool b) => some (.truth (.bool b))
  | .literal _ .null => some .null
  | .unary _ .minus operand => operand.constant?.bind TypedValue.opposite?
  | .cast _ target operand =>
    if target.isPointer then operand.constant?.bind (TypedValue.castTo? target) else none
  | _ => none

end Term

namespace TypedValue

variable {v : TypedValue} {symbol : String → String} {target : MachineType}

@[simp] theorem type_named : (v.named symbol).type = v.type := rfl

theorem opposite?_named : (v.named symbol).opposite? = v.opposite?.map (named symbol) := by
  cases hvalue : v.value <;> simp [opposite?, named, Value.named, hvalue]

theorem castTo?_named (source : SourceType) :
    (v.named symbol).castTo? source = (v.castTo? source).map (named symbol) := by
  by_cases htype : v.type = .ptr <;> simp [castTo?, named, htype]

theorem bind_named {f : TypedValue → Option TypedValue}
    (hf : ∀ v, f (v.named symbol) = (f v).map (named symbol)) (result : Option TypedValue) :
    (result.map (named symbol)).bind f = (result.bind f).map (named symbol) := by
  cases result with
  | none => rfl
  | some v => exact hf v

/-- An address is converted like any other one. -/
theorem convertConstant?_named (v : TypedValue) (symbol : String → String)
    (target : MachineType) : convertConstant? (v.named symbol) target =
      (convertConstant? v target).map (Value.named symbol) := by
  obtain ⟨value, type, source⟩ := v
  by_cases hsame : type = target
  · simp [convertConstant?, named, hsame]
  · cases value <;> simp [convertConstant?, named, Value.named, hsame,
      apply_ite (Option.map (Value.named symbol))]

theorem convertsTo_named : (v.named symbol).ConvertsTo target ↔ v.ConvertsTo target := by
  rw [← isSome_way?_iff, ← isSome_way?_iff, way?, way?, convertConstant?_named]
  cases convertConstant? v target with
  | none => rw [Option.map_none, type_named, Option.isSome_map, Option.isSome_map]
  | some value => rfl

/-- The constants that initializers denote. An integer is one of its type, or the opposite of
one. -/
inductive IsInitial : TypedValue → Prop
  | float (x : Binary64) : IsInitial (.plain (.float x) .f64)
  | integer {n : Int64} {w : IntWidth} : (MachineType.intRange .signed w).1 ≤ n.toInt →
    n.toInt ≤ (MachineType.intRange .signed w).2 + 1 →
    IsInitial (.plain (.int n) (.int .signed w))
  | truth (b : Bool) : IsInitial (.truth (.bool b))
  | null {source : SourceType} : source.isPointer = true → IsInitial ⟨.null, .ptr, some source⟩
  | address (text : String) {source : SourceType} : source.isPointer = true →
    IsInitial ⟨.global text, .ptr, some source⟩

theorem IsInitial.opposite {w : TypedValue} (hv : v.IsInitial) (h : v.opposite? = some w) :
    w.IsInitial := by
  cases hv with
  | float x =>
    cases h
    exact .float _
  | @integer n w hlower hupper =>
    cases h
    have hbound := Int64.toInt_lt n
    refine .integer ?_ ?_ <;> rw [Int64.toInt_neg, Int.bmod_def] <;>
      cases w <;> simp only [MachineType.intRange, IntWidth.bits, IntWidth.bytes, Nat.pow_eq]
        at hlower hupper ⊢ <;> omega
  | _ => cases h

theorem IsInitial.cast {w : TypedValue} {source : SourceType} (hv : v.IsInitial)
    (hsource : source.isPointer = true) (h : v.castTo? source = some w) : w.IsInitial := by
  cases hv with
  | null =>
    cases h
    exact .null hsource
  | address text =>
    cases h
    exact .address text hsource
  | _ => cases h

theorem IsInitial.type_ne_void (hv : v.IsInitial) : v.type ≠ .void := by
  rintro htype
  cases hv <;> cases htype

/-- The source type of the constant stands for its machine type in every unit. -/
theorem IsInitial.resolve_inferredType (hv : v.IsInitial) (structs : StructTable) :
    structs.resolve v.inferredType = v.type := by
  have hagrees : v.Agrees structs := by
    cases hv with
    | float => exact agrees_plain (.inr rfl)
    | integer => exact agrees_plain (.inl rfl)
    | truth => exact agrees_truth
    | null hsource => exact agrees_pointer hsource
    | address _ hsource => exact agrees_pointer hsource
  exact (hagrees.inferred hv.type_ne_void).symm

/-- A negative integer at an unsigned type of no fewer bits. -/
def Wraps (v : TypedValue) (target : MachineType) : Prop :=
  ∃ n w w', v.value = .int n ∧ n.toInt < 0 ∧ v.type = .int .signed w ∧
    target = .int .unsigned w' ∧ w.bits ≤ w'.bits

theorem Wraps.convertsTo (h : v.Wraps target) : v.ConvertsTo target := by
  obtain ⟨n, w, w', -, -, htype, rfl, hw⟩ := h
  exact .integer htype hw

/-- A negative integer is no constant of an unsigned type. -/
theorem Wraps.convertConstant?_eq_none (h : v.Wraps target) : convertConstant? v target = none := by
  obtain ⟨n, w, w', hvalue, hn, htype, rfl, -⟩ := h
  have hfits : (MachineType.int .unsigned w').fits n = false := by
    rw [Bool.eq_false_iff, ne_eq, MachineType.fits_int]
    exact fun h => absurd h.1 (not_le.mpr hn)
  simp [convertConstant?, hvalue, htype, hfits, MachineType.isFloat]

/-- An integer of a signed type, or the opposite of one, is a constant of every other type that is
not narrower, unless it is negative and the type is unsigned. -/
theorem fits_of_not_wraps {n : Int64} {s' : Signedness} {w w' : IntWidth}
    (hlower : (MachineType.intRange .signed w).1 ≤ n.toInt)
    (hupper : n.toInt ≤ (MachineType.intRange .signed w).2 + 1)
    (hw : w.bits ≤ w'.bits) (hne : MachineType.int .signed w ≠ .int s' w')
    (h : ¬ (plain (.int n) (.int .signed w)).Wraps (.int s' w')) :
    (MachineType.int s' w').fits n = true := by
  rw [MachineType.fits_int]
  cases s' with
  | signed =>
    have hlt : w.bits < w'.bits := lt_of_le_of_ne hw fun heq =>
      hne (IntWidth.bits_injective heq ▸ rfl)
    clear h hne hw
    cases w <;> cases w' <;> simp only [MachineType.intRange, IntWidth.bits, IntWidth.bytes,
      Nat.pow_eq] at hlower hupper hlt ⊢ <;> omega
  | unsigned =>
    have hn : 0 ≤ n.toInt := not_lt.mp fun hn => h ⟨n, w, w', rfl, hn, rfl, rfl, hw⟩
    clear h hne
    cases w <;> cases w' <;> simp only [MachineType.intRange, IntWidth.bits, IntWidth.bytes,
      Nat.pow_eq] at hupper hw ⊢ <;> omega

/-- A constant that converts is a constant of the other type, unless it wraps around. -/
theorem IsInitial.isSome_convertConstant?_iff (hv : v.IsInitial) (target : MachineType) :
    (convertConstant? v target).isSome = true ↔ v.ConvertsTo target ∧ ¬ v.Wraps target := by
  constructor
  · intro h
    obtain ⟨value, hvalue⟩ := Option.isSome_iff_exists.mp h
    refine ⟨convertsTo_of_convertConstant? hvalue, fun hwraps => ?_⟩
    rw [hwraps.convertConstant?_eq_none] at hvalue
    cases hvalue
  · rintro ⟨hconverts, hwraps⟩
    by_contra hnone
    rw [Option.not_isSome_iff_eq_none] at hnone
    have hway := isSome_way?_iff.mpr hconverts
    rw [way?, hnone, Option.isSome_map, isSome_widening?_iff] at hway
    rcases hway with ⟨s, s', w, w', htype, rfl, hw⟩ | ⟨htype, rfl⟩
    · cases hv with
      | @integer n w hlower hupper =>
        cases htype
        have hne : MachineType.int .signed w ≠ .int s' w' := fun heq => by
          simp [convertConstant?, plain, heq] at hnone
        have hfits := fits_of_not_wraps hlower hupper hw hne hwraps
        simp [convertConstant?, plain, hfits, MachineType.isInteger] at hnone
      | _ => cases htype
    · cases hv <;> cases htype

end TypedValue

theorem lowerNumeral_of_toOption {numeral : String} {v : TypedValue}
    (h : (lowerNumeral numeral).toOption = some v) : lowerNumeral numeral = .ok v := by
  cases hnumeral : lowerNumeral numeral with
  | error e => simp [hnumeral, Except.toOption] at h
  | ok w => simpa [hnumeral, Except.toOption] using h

/-- What a numeral stands for is such a constant. -/
theorem isInitial_of_lowerNumeral {numeral : String} {v : TypedValue}
    (h : lowerNumeral numeral = .ok v) : v.IsInitial := by
  rcases lowerNumeral_cases h with ⟨x, rfl⟩ | ⟨n, w, -, rfl, hfits, -⟩
  · exact .float x
  · obtain ⟨hlower, hupper⟩ := MachineType.fits_int.mp hfits
    exact .integer hlower (Int.le_add_one hupper)

/-- What an initializer denotes is such a constant. -/
theorem Term.isInitial_of_constant? {term : Term} {v : TypedValue} (h : term.constant? = some v) :
    v.IsInitial := by
  fun_induction constant? term generalizing v with
  | case1 => exact isInitial_of_lowerNumeral (lowerNumeral_of_toOption h)
  | case2 _ text =>
    cases h
    exact .address text rfl
  | case3 _ b =>
    cases h
    exact .truth b
  | case4 =>
    cases h
    exact .null rfl
  | case5 _ operand ih =>
    obtain ⟨w, hw, hv⟩ := Option.bind_eq_some_iff.mp h
    exact (ih hw).opposite hv
  | case6 _ target operand htarget ih =>
    obtain ⟨w, hw, hv⟩ := Option.bind_eq_some_iff.mp h
    exact (ih hw).cast htarget hv
  | case7 => cases h
  | case8 => cases h

/-- The symbol of a text behind its first use. -/
def StringPool.symbolOf (globals : List GlobalVariable) (text : String) : String :=
  (intern globals text).1

/-- The value of a numeral has no name. -/
theorem named_of_lowerNumeral {numeral : String} {v : TypedValue} (h : lowerNumeral numeral = .ok v)
    (symbol : String → String) : v.named symbol = v := by
  rcases lowerNumeral_cases h with ⟨x, rfl⟩ | ⟨n, w, -, rfl, -⟩ <;> rfl

/-- The result of a sequence of actions is that of the second one at the result of the first. -/
theorem toOption_exec_bind {ε σ α β : Type} (x : ExceptT ε (StateM σ) α)
    (f : α → ExceptT ε (StateM σ) β) (s : σ) : (exec (x >>= f) s).1.toOption =
      (exec x s).1.toOption.bind fun a => (exec (f a) (exec x s).2).1.toOption := by
  rw [exec_bind]
  rcases exec x s with ⟨e | a, s'⟩ <;> rfl

/-! ## In front of a unit -/

namespace Fold

open StringPool TypedValue

/-- The evaluation of an initializer comes to the constant that it denotes, or fails if there is
none. -/
theorem toOption_exec_initializer (name : String) (term : Term) (globals : List GlobalVariable) :
    (exec (initializer name term) globals).1.toOption =
      term.constant?.map (named (symbolOf globals)) := by
  fun_induction Term.constant? term with
  | case1 location numeral =>
    rw [initializer]
    cases hnumeral : lowerNumeral numeral with
    | error e => rfl
    | ok v => exact congrArg some (named_of_lowerNumeral hnumeral _).symm
  | case2 | case3 | case4 => rfl
  | case5 location operand ih =>
    rw [initializer, toOption_exec_bind, ih, ← bind_named fun v => opposite?_named]
    refine congrArg _ (funext fun v => ?_)
    rw [opposite?]
    cases v.value <;> rfl
  | case6 location target operand htarget ih =>
    rw [initializer, if_pos htarget, toOption_exec_bind, ih, ← bind_named fun v => castTo?_named _]
    refine congrArg _ (funext fun v => ?_)
    rw [castTo?]
    split <;> rfl
  | case7 location target operand htarget =>
    rw [initializer, if_neg htarget]
    rfl
  | case8 =>
    unfold initializer
    split <;> first | rfl | simp_all

theorem exec_initializer_cases (name : String) (term : Term) (globals : List GlobalVariable) :
    (term.constant? = none ∧
      ∃ e, exec (initializer name term) globals = (.error e, hold globals (literalText? term))) ∨
    ∃ v, term.constant? = some v ∧ exec (initializer name term) globals =
      (.ok (v.named (symbolOf globals)), hold globals (literalText? term)) := by
  have hresult := toOption_exec_initializer name term globals
  rcases evaluates_initializer name term globals with ⟨e, -, hexec⟩ | ⟨w, -, -, hexec⟩
  all_goals rw [hexec] at hresult
  · exact .inl ⟨Option.map_eq_none_iff.mp hresult.symm, e, hexec⟩
  · obtain ⟨v, hv, rfl⟩ := Option.map_eq_some_iff.mp hresult.symm
    exact .inr ⟨v, hv, hexec⟩

end Fold

/-! ## In a body -/

namespace Lower

open BodyState StringPool TypedValue Fold

/-- A type that is not known is warned about. -/
theorem exec_checkKnown (env : Environment) (type : SourceType) (location : Option Location)
    (s : BodyState) : ∃ log, exec (checkKnown env type location) s = (.ok (), { s with log }) := by
  rw [checkKnown]
  split
  · exact ⟨s.log, rfl⟩
  · exact ⟨_, rfl⟩

/-- The action comes to a constant, or fails if there is none. A text gets into the pool, and some
types may be warned about. -/
def ComesTo (action : Lower TypedValue) (result : Option TypedValue) (text : Option String) :
    Prop :=
  ∀ s, (exec action s).1.toOption = result.map (named (symbolOf s.globals)) ∧
    ∃ log, (exec action s).2 = { s with globals := hold s.globals text, log }

namespace ComesTo

variable {action : Lower TypedValue} {result : Option TypedValue} {text : Option String}

theorem cases (h : ComesTo action result text) (s : BodyState) :
    (result = none ∧ ∃ e s', exec action s = (.error e, s')) ∨
    ∃ v log, result = some v ∧ exec action s =
      (.ok (v.named (symbolOf s.globals)), { s with globals := hold s.globals text, log }) := by
  obtain ⟨hresult, log, hstate⟩ := h s
  rcases hexec : exec action s with ⟨e | w, s'⟩
  all_goals rw [hexec] at hresult hstate
  · exact .inl ⟨Option.map_eq_none_iff.mp hresult.symm, e, s', rfl⟩
  · obtain ⟨v, hv, rfl⟩ := Option.map_eq_some_iff.mp hresult.symm
    obtain rfl : s' = _ := hstate
    exact .inr ⟨v, log, hv, rfl⟩

theorem located (h : ComesTo action result text) (location : Option Location) :
    ComesTo (Lower.located location action) result text := by
  intro s
  obtain ⟨hresult, hstate⟩ := h s
  rw [snd_exec_located, ← hresult]
  refine ⟨?_, hstate⟩
  rw [exec_located]
  rcases exec action s with ⟨e | v, s'⟩ <;> rfl

/-- A literal is lowered to the constant that it denotes. -/
theorem literal (location : Option Location) (value : Literal) :
    ComesTo (lowerLiteral value) (Term.literal location value).constant?
      (literalText? (.literal location value)) := by
  intro s
  cases value with
  | number numeral =>
    rw [lowerLiteral, Term.constant?]
    cases hnumeral : lowerNumeral numeral with
    | error e => exact ⟨rfl, s.log, rfl⟩
    | ok v => exact ⟨congrArg some (named_of_lowerNumeral hnumeral _).symm, s.log, rfl⟩
  | _ => exact ⟨rfl, s.log, rfl⟩

/-- What follows a constant is found from the constant, and changes nothing. -/
theorem bind (h : ComesTo action result text) {f : TypedValue → Lower TypedValue}
    {g : TypedValue → Option TypedValue}
    (hnamed : ∀ symbol v, g (v.named symbol) = (g v).map (named symbol))
    (hf : ∀ v, result = some v → ∀ symbol s, (exec (f (v.named symbol)) s).1.toOption =
      g (v.named symbol) ∧ (exec (f (v.named symbol)) s).2 = s) :
    ComesTo (action >>= f) (result.bind g) text := by
  intro s
  obtain ⟨hresult, log, hstate⟩ := h s
  rw [exec_bind]
  rcases hexec : exec action s with ⟨e | w, s'⟩
  all_goals rw [hexec] at hresult hstate
  · cases result with
    | none => exact ⟨rfl, log, hstate⟩
    | some v => cases hresult
  · cases result with
    | none => cases hresult
    | some v =>
      obtain rfl : w = v.named (symbolOf s.globals) := Option.some.inj hresult
      obtain ⟨hvalue, hsame⟩ := hf v rfl (symbolOf s.globals) s'
      exact ⟨hvalue.trans (hnamed _ v), log, hsame.trans hstate⟩

/-- A constant is negated without an instruction. -/
theorem negate (h : ComesTo action result text) (hresult : ∀ v, result = some v → v.IsInitial) :
    ComesTo (lowerNegate action) (result.bind opposite?) text := by
  refine h.bind (fun _ _ => opposite?_named) fun v hv symbol s => ?_
  cases hresult v hv <;> exact ⟨rfl, rfl⟩

/-- A pointer is cast without an instruction. -/
theorem cast (h : ComesTo action result text) (env : Environment) (location : Option Location)
    {target : SourceType} (htarget : target.isPointer = true) :
    ComesTo (lowerCast env location target action) (result.bind (castTo? target)) text := by
  have hcast : ComesTo (action >>= fun v =>
      if v.type = .ptr ∧ target.isPointer = true then pure ⟨v.value, .ptr, some target⟩
      else fail (.unsupportedCast v.describe target.text)) (result.bind (castTo? target)) text := by
    refine h.bind (fun _ _ => castTo?_named target) fun v hv symbol s => ?_
    rw [castTo?, htarget]
    by_cases htype : v.type = .ptr
    · simp only [type_named, htype, and_self, if_true]
      exact ⟨rfl, rfl⟩
    · simp only [type_named, htype, false_and, if_false]
      exact ⟨rfl, rfl⟩
  intro s
  obtain ⟨log, hknown⟩ := exec_checkKnown env target location s
  rw [lowerCast, exec_bind_of_ok hknown]
  exact hcast { s with log }

end ComesTo

/-- The lowering of an initializer comes to the constant that it denotes. -/
theorem comesTo_lowerTerm (env : Environment) {term : Term} (h : term.isInitializer = true) :
    ComesTo (lowerTerm env term) term.constant? (literalText? term) := by
  fun_induction Term.isInitializer term with
  | case1 location value => exact (ComesTo.literal location value).located location
  | case2 location operand ih =>
    exact ((ih h).negate fun v => Term.isInitial_of_constant?).located location
  | case3 location target operand ih =>
    obtain ⟨htarget, hoperand⟩ := Bool.and_eq_true_iff.mp h
    rw [Term.constant?, if_pos htarget, literalText?, if_pos htarget]
    exact ((ih hoperand).cast env location htarget).located location
  | case4 => cases h

end Lower

end SsaLowering
