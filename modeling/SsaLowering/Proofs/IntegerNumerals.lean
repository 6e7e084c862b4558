import Mathlib.Data.List.Induction
import Mathlib.Data.Nat.Digits.Defs
import SsaLowering.Proofs.Operation

/-!
# Numerals of integers

A numeral without a point is read exactly or not at all. It has to be an optional sign and
decimal digits, and their value has to be a 64-bit integer; it is then a constant of 32 bits if it
is one of the integers of that width. Leading zeros change nothing, and neither a value that is one
too large nor a sign without digits is ever wrapped or cut to a number.
-/

namespace SsaLowering

/-- The number that decimal digits stand for, where the last one counts ones. -/
def placeValue (digits : List Char) : Nat :=
  Nat.ofDigits 10 (digits.reverse.map fun c => c.toNat - '0'.toNat)

/-- A text spells an integer: one or more decimal digits, behind a sign or not. -/
inductive SpellsInteger : List Char → Int → Prop
  | unsigned {digits : List Char} (hne : digits ≠ []) (hdigits : ∀ c ∈ digits, c.isDigit) :
    SpellsInteger digits (placeValue digits)
  | plus {digits : List Char} (hne : digits ≠ []) (hdigits : ∀ c ∈ digits, c.isDigit) :
    SpellsInteger ('+' :: digits) (placeValue digits)
  | minus {digits : List Char} (hne : digits ≠ []) (hdigits : ∀ c ∈ digits, c.isDigit) :
    SpellsInteger ('-' :: digits) (-(placeValue digits : Int))

variable {cs digits : List Char} {z : Int}

/-! ## Digits and signs -/

/-- Reading digits from the left gives each of them its place. -/
theorem digitsValue_eq_placeValue (digits : List Char) :
    digitsValue digits = placeValue digits := by
  induction digits using List.reverseRecOn with
  | nil => rfl
  | append_singleton digits c ih =>
    simp only [digitsValue, placeValue, List.foldl_append, List.foldl_cons, List.foldl_nil,
      List.reverse_append, List.reverse_singleton, List.singleton_append, List.map_cons,
      Nat.ofDigits_cons] at ih ⊢
    rw [ih]
    exact Nat.add_comm _ _

theorem splitSign_cases (cs : List Char) :
    (∃ digits, cs = '-' :: digits ∧ splitSign cs = (true, digits)) ∨
    (∃ digits, cs = '+' :: digits ∧ splitSign cs = (false, digits)) ∨
    splitSign cs = (false, cs) := by
  unfold splitSign
  split
  · exact .inl ⟨_, rfl, rfl⟩
  · exact .inr (.inl ⟨_, rfl, rfl⟩)
  · exact .inr (.inr rfl)

/-- A digit is no sign. -/
theorem splitSign_digits (hdigits : ∀ c ∈ digits, c.isDigit) :
    splitSign digits = (false, digits) := by
  rcases splitSign_cases digits with ⟨rest, rfl, -⟩ | ⟨rest, rfl, -⟩ | h
  · exact absurd (hdigits '-' (.head _)) (by decide)
  · exact absurd (hdigits '+' (.head _)) (by decide)
  · exact h

/-- Behind the sign there have to be digits, and nothing else. -/
theorem readInteger?_of_splitSign {negative : Bool} (h : splitSign cs = (negative, digits)) :
    readInteger? cs = some z ↔ digits ≠ [] ∧ (∀ c ∈ digits, c.isDigit) ∧
      z = if negative then -(placeValue digits : Int) else placeValue digits := by
  simp only [readInteger?, h, digitsValue_eq_placeValue]
  by_cases hgood : digits ≠ [] ∧ ∀ c ∈ digits, c.isDigit
  · have hcheck : (digits.isEmpty || !digits.all Char.isDigit) = false := by simpa using hgood
    rw [hcheck, if_neg Bool.false_ne_true, Option.some_inj, eq_comm]
    exact ⟨fun hz => ⟨hgood.1, hgood.2, hz⟩, fun hz => hz.2.2⟩
  · have hcheck : (digits.isEmpty || !digits.all Char.isDigit) = true := by
      rw [← Bool.not_eq_false]
      exact fun hcheck => hgood (by simpa using hcheck)
    rw [if_pos hcheck]
    exact ⟨nofun, fun hz => absurd ⟨hz.1, hz.2.1⟩ hgood⟩

/-- The reader accepts the texts that spell an integer, and gives the integer. -/
theorem readInteger?_eq_some_iff : readInteger? cs = some z ↔ SpellsInteger cs z := by
  constructor
  · intro h
    rcases splitSign_cases cs with ⟨digits, rfl, hsplit⟩ | ⟨digits, rfl, hsplit⟩ | hsplit
    all_goals obtain ⟨hne, hdigits, rfl⟩ := (readInteger?_of_splitSign hsplit).mp h
    · exact .minus hne hdigits
    · exact .plus hne hdigits
    · exact .unsigned hne hdigits
  · rintro (⟨hne, hdigits⟩ | ⟨hne, hdigits⟩ | ⟨hne, hdigits⟩)
    · exact (readInteger?_of_splitSign (splitSign_digits hdigits)).mpr ⟨hne, hdigits, rfl⟩
    all_goals exact (readInteger?_of_splitSign rfl).mpr ⟨hne, hdigits, rfl⟩

namespace SpellsInteger

theorem unique {z' : Int} (h : SpellsInteger cs z) (h' : SpellsInteger cs z') : z = z' :=
  Option.some.inj ((readInteger?_eq_some_iff.mpr h).symm.trans (readInteger?_eq_some_iff.mpr h'))

theorem point_notMem (h : SpellsInteger cs z) : '.' ∉ cs := by
  have hnone {digits : List Char} (hdigits : ∀ c ∈ digits, c.isDigit) : '.' ∉ digits :=
    fun hmem => absurd (hdigits _ hmem) (by decide)
  cases h with
  | unsigned _ hdigits => exact hnone hdigits
  | plus _ hdigits | minus _ hdigits =>
    exact List.not_mem_cons_of_ne_of_not_mem (by decide) (hnone hdigits)

/-- The decimal digits of a natural number are digits, at least one, and stand for it. -/
theorem digits_toDigits (n : Nat) : Nat.toDigits 10 n ≠ [] ∧
    (∀ c ∈ Nat.toDigits 10 n, c.isDigit) ∧ placeValue (Nat.toDigits 10 n) = n := by
  refine ⟨Nat.toDigits_ne_nil,
    fun c hc => Nat.isDigit_of_mem_toDigits (by decide) (by decide) hc, ?_⟩
  rw [← digitsValue_eq_placeValue]
  exact Nat.ofDigitChars_toDigits (by decide) (by decide)

/-- The decimal text of an integer spells it. -/
theorem of_toString (z : Int) : SpellsInteger (toString z).toList z := by
  cases z with
  | ofNat n =>
    obtain ⟨hne, hdigits, hvalue⟩ := digits_toDigits n
    have htext : (toString (Int.ofNat n)).toList = Nat.toDigits 10 n := by
      rw [show toString (Int.ofNat n) = toString n from rfl, Nat.toString_eq_ofList_toDigits,
        String.toList_ofList]
    have hspells := unsigned hne hdigits
    rwa [hvalue, ← htext] at hspells
  | negSucc n =>
    obtain ⟨hne, hdigits, hvalue⟩ := digits_toDigits (n + 1)
    have htext : (toString (Int.negSucc n)).toList = '-' :: Nat.toDigits 10 (n + 1) := by
      rw [show toString (Int.negSucc n) = "-" ++ toString (n + 1) from rfl,
        Nat.toString_eq_ofList_toDigits, String.toList_append]
      exact congrArg ('-' :: ·) String.toList_ofList
    have hspells := minus hne hdigits
    rwa [hvalue, ← htext] at hspells

end SpellsInteger

/-! ## Integers of 64 bits -/

theorem readInt64?_eq_some_iff {n : Int64} :
    readInt64? cs = some n ↔ SpellsInteger cs n.toInt := by
  rw [← readInteger?_eq_some_iff]
  refine ⟨readInteger?_of_readInt64?, fun h => ?_⟩
  have hrange : Int64.minValue.toInt ≤ n.toInt ∧ n.toInt ≤ Int64.maxValue.toInt :=
    ⟨n.minValue_le_toInt, n.toInt_le⟩
  simp only [readInt64?, h, Option.bind_eq_bind, Option.bind_some, if_pos hrange,
    Int64.ofInt_toInt]

theorem exists_toInt_eq_iff : (∃ n : Int64, n.toInt = z) ↔ -2 ^ 63 ≤ z ∧ z ≤ 2 ^ 63 - 1 := by
  constructor
  · rintro ⟨n, rfl⟩
    exact ⟨n.le_toInt, Int.le_sub_one_of_lt n.toInt_lt⟩
  · rintro ⟨hleast, hgreatest⟩
    exact ⟨Int64.ofInt z, Int64.toInt_ofInt_of_le hleast (by omega)⟩

theorem fits_i32_iff {n : Int64} :
    MachineType.fits .i32 n ↔ -2 ^ 31 ≤ n.toInt ∧ n.toInt ≤ 2 ^ 31 - 1 := decide_eq_true_iff

/-- The constant that an integer of 64 bits becomes. -/
theorem lowerNumeral_of_spells {numeral : String} {n : Int64}
    (h : SpellsInteger numeral.toList n.toInt) :
    lowerNumeral numeral = .ok (.plain (.int n)
      (if -2 ^ 31 ≤ n.toInt ∧ n.toInt ≤ 2 ^ 31 - 1 then .i32 else .i64)) := by
  have hpoint : numeral.toList.contains '.' = false := by simpa using h.point_notMem
  simp only [lowerNumeral, hpoint, Bool.false_eq_true, if_false, readInt64?_eq_some_iff.mpr h,
    fits_i32_iff]

/-- Without a point, no other text becomes a constant. -/
theorem lowerNumeral_of_not_spells {numeral : String} (hpoint : '.' ∉ numeral.toList)
    (h : ∀ n : Int64, ¬SpellsInteger numeral.toList n.toInt) :
    lowerNumeral numeral = .error (.unplaced (.malformedLiteral numeral)) := by
  have hnone : readInt64? numeral.toList = none :=
    Option.eq_none_iff_forall_ne_some.mpr fun n hn => h n (readInt64?_eq_some_iff.mp hn)
  have hpoint : numeral.toList.contains '.' = false := by simpa using hpoint
  simp only [lowerNumeral, hpoint, Bool.false_eq_true, if_false, hnone]

/-- A numeral without a point becomes a constant if and only if it spells an integer of 64 bits.
The constant is this integer, and it has 32 bits if and only if the integer is one of that width.
Every other numeral without a point is reported with its text. The decimal text of every integer of
64 bits becomes that integer. -/
theorem lowerNumeral_reads_integers :
    (∀ numeral : String, '.' ∉ numeral.toList →
      (∀ v, lowerNumeral numeral = .ok v ↔ ∃ z, SpellsInteger numeral.toList z ∧
        (-2 ^ 63 ≤ z ∧ z ≤ 2 ^ 63 - 1) ∧ ∃ n : Int64, n.toInt = z ∧
          v = .plain (.int n) (if -2 ^ 31 ≤ z ∧ z ≤ 2 ^ 31 - 1 then .i32 else .i64)) ∧
      (∀ e, lowerNumeral numeral = .error e ↔ e = .unplaced (.malformedLiteral numeral) ∧
        ¬∃ z, SpellsInteger numeral.toList z ∧ -2 ^ 63 ≤ z ∧ z ≤ 2 ^ 63 - 1)) ∧
    ∀ n : Int64, lowerNumeral (toString n.toInt) = .ok (.plain (.int n)
      (if -2 ^ 31 ≤ n.toInt ∧ n.toInt ≤ 2 ^ 31 - 1 then .i32 else .i64)) := by
  refine ⟨fun numeral hpoint => ?_, fun n => lowerNumeral_of_spells (.of_toString n.toInt)⟩
  by_cases h : ∃ n : Int64, SpellsInteger numeral.toList n.toInt
  · obtain ⟨n, hn⟩ := h
    have hrange : -2 ^ 63 ≤ n.toInt ∧ n.toInt ≤ 2 ^ 63 - 1 := exists_toInt_eq_iff.mp ⟨n, rfl⟩
    rw [lowerNumeral_of_spells hn]
    refine ⟨fun v => ⟨?_, ?_⟩, fun e => ⟨nofun, fun ⟨_, hnone⟩ => absurd ⟨_, hn, hrange⟩ hnone⟩⟩
    · rintro ⟨⟩
      exact ⟨_, hn, hrange, n, rfl, rfl⟩
    · rintro ⟨z, hz, -, n', rfl, rfl⟩
      rw [Int64.toInt_inj.mp (hn.unique hz)]
  · have hnone : ¬∃ z, SpellsInteger numeral.toList z ∧ -2 ^ 63 ≤ z ∧ z ≤ 2 ^ 63 - 1 := by
      rintro ⟨z, hz, hrange⟩
      obtain ⟨n, rfl⟩ := exists_toInt_eq_iff.mpr hrange
      exact h ⟨n, hz⟩
    rw [lowerNumeral_of_not_spells hpoint fun n hn => h ⟨n, hn⟩]
    refine ⟨fun v => ⟨nofun, fun ⟨z, hz, hrange, _⟩ => absurd ⟨z, hz, hrange⟩ hnone⟩,
      fun e => ⟨?_, ?_⟩⟩
    · rintro ⟨⟩
      exact ⟨rfl, hnone⟩
    · rintro ⟨rfl, -⟩
      rfl

/-- The least integer of 64 bits, behind leading zeros. -/
theorem lowerNumeral_reads_integers_least :
    '.' ∉ "-0009223372036854775808".toList ∧
    SpellsInteger "-0009223372036854775808".toList (-2 ^ 63) ∧
    lowerNumeral "-0009223372036854775808" = .ok (.plain (.int Int64.minValue) .i64) := by
  have hpoint : '.' ∉ "-0009223372036854775808".toList := by decide
  have hspells : SpellsInteger "-0009223372036854775808".toList (-2 ^ 63) :=
    readInteger?_eq_some_iff.mp (by decide)
  refine ⟨hpoint, hspells, ?_⟩
  exact ((lowerNumeral_reads_integers.1 _ hpoint).1 _).mpr
    ⟨_, hspells, by decide, Int64.minValue, by decide, rfl⟩

-- One below the least integer, and a sign without digits.
example : lowerNumeral "-9223372036854775809" =
      .error (.unplaced (.malformedLiteral "-9223372036854775809")) ∧
    lowerNumeral "+" = .error (.unplaced (.malformedLiteral "+")) := by decide

end SsaLowering
