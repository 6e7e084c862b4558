import SsaLowering.Proofs.UnitTyping

/-!
# Integer constants

A numeral has a type that holds it, and a conversion checks the range of a constant. A folded
negation does not, and neither does a conversion between integers of one width. If a program
has no unsigned integers and takes no opposite that may be out of range, every integer
constant fits its type, and folding does what the code would do.
-/

namespace SsaLowering

namespace MachineType

variable {s : Signedness} {w : IntWidth} {n : Int64}

/-- Only an integer type holds integers. -/
theorem isInteger_of_fits {type : MachineType} (h : type.fits n = true) :
    type.isInteger = true := by
  cases type with
  | int s w => rfl
  | _ => cases h

theorem eq_signed {type : MachineType} (hinteger : type.isInteger = true)
    (hsigned : type.isUnsigned = false) : ∃ w, type = .int .signed w := by
  cases type with
  | int s w =>
    cases s with
    | signed => exact ⟨w, rfl⟩
    | unsigned => cases hsigned
  | _ => cases hinteger

/-- An integer that fits is kept as it is. -/
theorem wrap_of_fits (h : fits (.int s w) n = true) : (int s w).wrap n.toInt = n.toInt := by
  rw [fits_int] at h
  cases s with
  | signed => exact wrap_of_holds trivial h
  | unsigned =>
    apply Int.emod_eq_of_lt h.1
    cases w <;> simp only [intRange, IntWidth.bits, IntWidth.bytes, Nat.pow_eq] at h ⊢ <;> omega

/-- The opposite of a constant is what the code would compute if and only if it fits. -/
theorem wrap_neg_iff (h : fits (.int s w) n = true) :
    (int s w).wrap (0 - n.toInt) = (-n).toInt ↔ fits (.int s w) (-n) = true := by
  rw [fits_int] at h ⊢
  rw [Int64.toInt_neg]
  cases s <;> cases w <;>
    simp only [wrap, intRange, IntWidth.bits, IntWidth.bytes, Int.bmod_def, Nat.pow_eq] at h ⊢ <;>
    omega

end MachineType

/-- A constant stays the same integer at a type that holds it; a conversion between signed
integers leads to no other type. -/
theorem convert?_constant {v : TypedValue} {n : Int64} {w w' : IntWidth} {value : Value}
    {s s' : BodyState} (hv : v.value = .int n) (htype : v.type = .int .signed w)
    (hfits : v.type.fits n = true)
    (h : exec (Lower.convert? v (.int .signed w')) s = (.ok (some value), s')) :
    value = .int n ∧ (MachineType.int .signed w').fits n = true := by
  rw [htype] at hfits
  by_cases hheld : (MachineType.int .signed w').fits n = true
  · have hconstant : convertConstant? v (.int .signed w') = some (.int n) := by
      unfold convertConstant?
      simp [hv, htype, MachineType.isInteger, hheld]
    rw [Lower.convert?, hconstant] at h
    cases h
    exact ⟨rfl, hheld⟩
  · -- A wider type would hold the constant.
    have hnarrower : w'.bits < w.bits := by
      by_contra hwider
      rw [MachineType.fits_iff] at hfits hheld
      exact hheld (MachineType.holds_of_narrower (Nat.le_of_not_lt hwider) hfits)
    have hne : w ≠ w' := fun heq => Nat.lt_irrefl _ (heq ▸ hnarrower)
    have hconstant : convertConstant? v (.int .signed w') = none := by
      unfold convertConstant?
      simp [hv, htype, hne, MachineType.isInteger, MachineType.isFloat, hheld]
    have hwidening : widening? v.type (.int .signed w') = none := by
      simp [htype, widening?, hnarrower.ne', Nat.lt_asymm hnarrower]
    rw [Lower.convert?, hconstant] at h
    simp [hwidening] at h

namespace Setting

variable {c : Setting} {s s' : BodyState} {v : TypedValue} {term : Term} {n : Int64}

/-- In the states of a setting, folding agrees with execution: statements and expressions that
are tame keep to the setting, an integer constant that an expression yields fits its type, its
opposite is the integer that the code would compute, and at another type it is the integer to
which the code would extend it. -/
structure FoldsExactly (c : Setting) : Prop where
  statement : ∀ context body, context.returnType = c.returnType → body.isTame = true →
    ∀ s, c.Holds s → c.Holds (exec (Lower.lowerStatement c.env context body) s).2
  term : ∀ term, term.isTame = true → ∀ s, c.Holds s →
    c.Holds (exec (Lower.lowerTerm c.env term) s).2
  fits : ∀ term, term.isTame = true → ∀ s, c.Holds s → ∀ v s',
    exec (Lower.lowerTerm c.env term) s = (.ok v, s') → v.value.Fits v.type
  opposite : ∀ location operand, (Term.unary location .minus operand).isTame = true →
    ∀ s, c.Holds s → ∀ v s', exec (Lower.lowerTerm c.env operand) s = (.ok v, s') →
    ∀ n, v.value = .int n → v.type.isInteger = true →
    exec (Lower.lowerTerm c.env (.unary location .minus operand)) s =
        (.ok { v with value := .int (-n) }, s') ∧
      v.type.wrap (0 - n.toInt) = (-n).toInt
  extension : ∀ term, term.isTame = true → ∀ s, c.Holds s → ∀ v s',
    exec (Lower.lowerTerm c.env term) s = (.ok v, s') →
    ∀ n, v.value = .int n → ∀ target, target.isInteger = true → target.isUnsigned = false →
    ∀ value s'', exec (Lower.convert? v target) s' = (.ok (some value), s'') →
    value = .int n ∧ target.wrap n.toInt = n.toInt

/-- The value of a tame expression, unless it is that of a call without one. -/
theorem Holds.gives (hs : c.Holds s) (htame : term.isTame = true)
    (h : exec (Lower.lowerTerm c.env term) s = (.ok v, s')) : c.Yields s'.ledger v := by
  obtain ⟨-, -, hpost⟩ := Obeys.lowerTerm term (fun _ => htame) ∅ s hs (Set.empty_subset _)
  rw [h] at hpost
  exact (hpost v rfl).1

/-- The value of a tame expression fits its type. -/
theorem Holds.value_fits (hs : c.Holds s) (hexact : c.exact) (htame : term.isTame = true)
    (h : exec (Lower.lowerTerm c.env term) s = (.ok v, s')) : v.value.Fits v.type := by
  rcases hs.gives htame h with rfl | hgives
  · intro n hn
    cases hn
  · exact hgives.operand.fits hexact

/-- There are only signed integers among the values of tame expressions. -/
theorem Holds.type_eq_signed (hs : c.Holds s) (hexact : c.exact) (htame : term.isTame = true)
    (h : exec (Lower.lowerTerm c.env term) s = (.ok v, s')) (htype : v.type.isInteger = true) :
    ∃ w, v.type = .int .signed w := by
  rcases hs.gives htame h with rfl | hgives
  · cases htype
  · exact MachineType.eq_signed htype (hgives.allows.signed hexact)

/-- The folded opposite of a constant is what the code would compute. -/
theorem Holds.negation_wraps (hs : c.Holds s) (hexact : c.exact) {location : Option Location}
    (htame : (Term.unary location .minus term).isTame = true)
    (h : exec (Lower.lowerTerm c.env term) s = (.ok v, s')) (hv : v.value = .int n)
    (htype : v.type.isInteger = true) :
    exec (Lower.lowerTerm c.env (.unary location .minus term)) s =
        (.ok { v with value := .int (-n) }, s') ∧
      v.type.wrap (0 - n.toInt) = (-n).toInt := by
  have hterm : term.isTame = true := by
    simp only [Term.isTame, Bool.and_eq_true] at htame
    exact htame.2
  obtain ⟨w, hsigned⟩ := hs.type_eq_signed hexact hterm h htype
  have hexec : exec (Lower.lowerTerm c.env (.unary location .minus term)) s =
      (.ok { v with value := .int (-n) }, s') := by
    rw [Lower.lowerTerm, Lower.exec_located_eq_ok, Lower.lowerNegate, exec_bind_of_ok h]
    obtain ⟨value, type, source⟩ := v
    obtain rfl : value = .int n := hv
    obtain rfl : type = .int .signed w := hsigned
    rfl
  have hfits : v.type.fits n = true := hs.value_fits hexact hterm h n hv
  have hopposite : v.type.fits (-n) = true := hs.value_fits hexact htame hexec (-n) rfl
  refine ⟨hexec, ?_⟩
  rw [hsigned] at hfits hopposite ⊢
  exact (MachineType.wrap_neg_iff hfits).mpr hopposite

/-- Folding agrees with execution in an exact setting. -/
theorem foldsExactly (hexact : c.exact) : c.FoldsExactly where
  statement context body hreturn htame s hs :=
    (Obeys.statement hreturn body (fun _ => htame) ∅ s hs (Set.empty_subset _)).1
  term term htame s hs := (Obeys.lowerTerm term (fun _ => htame) ∅ s hs (Set.empty_subset _)).1
  fits term htame s hs v s' h := hs.value_fits hexact htame h
  opposite location operand htame s hs v s' h n hv htype :=
    hs.negation_wraps hexact htame h hv htype
  extension := by
    intro term htame s hs v s' h n hv target hinteger hsigned value s'' hconvert
    have hfits : v.type.fits n = true := hs.value_fits hexact htame h n hv
    have htype : v.type.isInteger = true := MachineType.isInteger_of_fits hfits
    obtain ⟨w, hw⟩ := hs.type_eq_signed hexact htame h htype
    obtain ⟨w', rfl⟩ := MachineType.eq_signed hinteger hsigned
    obtain ⟨hvalue, hheld⟩ := convert?_constant hv hw hfits hconvert
    exact ⟨hvalue, MachineType.wrap_of_fits hheld⟩

end Setting

namespace FunctionDef

/-- Every integer constant that an instruction reads fits the type at which it is read. -/
def ConstantsFit (f : FunctionDef) : Prop := ∀ i ∈ f.instrs, ∀ use ∈ i.uses, use.1.Fits use.2

theorem Admitted.constantsFit {table : StructTable} {globals : List GlobalVariable}
    {f : FunctionDef} (h : f.Admitted True table globals) : f.ConstantsFit := by
  intro i hi use huse
  obtain ⟨c, hexact, -, -, hadmits⟩ := h.code i hi
  exact (hadmits.operand use huse).fits (hexact ▸ trivial)

end FunctionDef

namespace Program

open UnitState

variable {p : Program}

/-- In a tame program, every integer constant fits its type: in the function that is left of a
body, in every function of the module, and where a global variable starts with it. While a
body is lowered, every value of an expression fits its type, and folding agrees with execution:
the body is lowered in a setting where it does, from the start on. -/
theorem constants_fit (h : p.Tame) (options : LoweringOptions) (log : DiagnosticLog) :
    (∀ s d body, p.Turn options log s d body →
      (∃ f, (s.lowerBody d body).builder.function = some f ∧ f.finalize.ConstantsFit) ∧
      ∃ c : Setting, c.env = s.environment d ∧ c.returnType = d.signature.returnType ∧
        c.Holds (s.start d) ∧ c.FoldsExactly) ∧
    (∀ f ∈ (p.generate options log).1.functions, f.ConstantsFit) ∧
    ∀ g ∈ (p.generate options log).1.globals, ∀ v, g.initializer = some v → v.Fits g.type := by
  obtain ⟨s, hs, hregular⟩ := p.regular_generate options log fun _ : True => h
  rw [hs]
  refine ⟨fun s d body hturn => ?_, fun f hf => (hregular.code f hf).constantsFit,
    hregular.initializers trivial⟩
  obtain ⟨f, hf, -, hadmitted⟩ := hturn.admitted fun _ : True => h
  obtain ⟨hregular, hknows⟩ := hturn.regular fun _ : True => h
  exact ⟨⟨f, hf, hadmitted.constantsFit⟩, hregular.setting hknows, rfl, rfl,
    hregular.holds_start hknows, Setting.foldsExactly trivial⟩

/-- A function that returns a negative constant. -/
def minusFive : FunctionDecl Statement where
  name := "minusFive"
  params := []
  returnType := .named "i8"
  body := some (.ret none (some (.unary none .minus (.literal none (.number "5")))))
  owner := none
  location := none

theorem constants_fit_minusFive : ∃ f : FunctionDef, f.name = "minusFive" ∧
    .ret (some (.i8, .int (-5))) ∈ f.instrs ∧ f.ConstantsFit := by
  have htame : Tame ⟨[.function minusFive]⟩ := by
    refine ⟨by decide, by simp [globals], by decide, ?_⟩
    rintro decl hdecl body hbody
    obtain rfl : decl = minusFive := by simpa [functions] using hdecl
    obtain rfl := Option.some.inj hbody
    decide +kernel
  obtain ⟨f, hf, hname, hmem⟩ : ∃ f : FunctionDef,
      f ∈ (generate .standard ⟨[.function minusFive]⟩ .empty).1.functions ∧
      f.name = "minusFive" ∧ .ret (some (.i8, .int (-5))) ∈ f.instrs := by
    decide +kernel
  exact ⟨f, hname, hmem, (constants_fit htame .standard .empty).2.1 f hf⟩

/-- A function that returns the opposite of the value that it assigns, the least 32-bit integer.
An assignment hands its constant on at the type of the variable. -/
def oppositeOfLeast : FunctionDecl Statement where
  name := "opposite"
  params := []
  returnType := .named "i32"
  body := some (.block none
    [.variable none ⟨"_least", .named "i32", true, some (.literal none (.number "0")), none⟩,
      .ret none (some (.unary none .minus (.assign none (.variable none "_least")
        (.unary none .minus (.literal none (.number "2147483648"))))))])
  owner := none
  location := none

/-- The opposite is folded to an integer that no 32-bit integer is, although the code would
compute another one, and nothing is reported. -/
theorem constant_too_large : ∃ f : FunctionDef,
    f ∈ (generate .standard ⟨[.function oppositeOfLeast]⟩ .empty).1.functions ∧
    .ret (some (.i32, .int 2147483648)) ∈ f.instrs ∧ ¬ f.ConstantsFit ∧
    MachineType.i32.wrap (0 - (-2147483648)) = -2147483648 ∧
    (generate .standard ⟨[.function oppositeOfLeast]⟩ .empty).2.count .error = 0 := by
  obtain ⟨f, hf, hmem, hcount⟩ : ∃ f : FunctionDef,
      f ∈ (generate .standard ⟨[.function oppositeOfLeast]⟩ .empty).1.functions ∧
      .ret (some (.i32, .int 2147483648)) ∈ f.instrs ∧
      (generate .standard ⟨[.function oppositeOfLeast]⟩ .empty).2.count .error = 0 := by
    decide +kernel
  refine ⟨f, hf, hmem, fun hfit => ?_, by decide, hcount⟩
  have hfits := hfit _ hmem (.int 2147483648, .i32) (by simp [Instr.uses]) 2147483648 rfl
  revert hfits
  decide

end Program

end SsaLowering
