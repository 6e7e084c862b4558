import SsaLowering.Number.Binary64

/-!
# Numbers in decimal notation

Reading of integers and of decimal fractions from characters. Only the ASCII
digits count as digits. The double of a decimal is found in one of two ways: it is
the nearest one, or the product or quotient of a significand of 64 bits and a power
of ten, where each step is rounded.
-/

namespace SsaLowering

/-- The number that a sequence of decimal digits denotes. -/
def digitsValue (digits : List Char) : Nat :=
  digits.foldl (fun n c => 10 * n + (c.toNat - '0'.toNat)) 0

/-- Split an optional sign off a numeral. The flag says whether it was a minus. -/
def splitSign : List Char → Bool × List Char
  | '-' :: rest => (true, rest)
  | '+' :: rest => (false, rest)
  | rest => (false, rest)

/-- The integer written as an optional sign and one or more digits. -/
def readInteger? (cs : List Char) : Option Int :=
  let (negative, digits) := splitSign cs
  if digits.isEmpty || !digits.all Char.isDigit then none
  else some (if negative then -(digitsValue digits : Int) else digitsValue digits)

/-- The 64-bit integer that a text denotes, if it denotes one in range. -/
def readInt64? (cs : List Char) : Option Int64 := do
  let n ← readInteger? cs
  if Int64.minValue.toInt ≤ n ∧ n ≤ Int64.maxValue.toInt then some (Int64.ofInt n) else none

/-- The number `± coefficient · 10 ^ exponent`. -/
structure Decimal where
  negative : Bool
  coefficient : Nat
  exponent : Int
deriving DecidableEq

/-- A decimal as it is written: its sign, the digits before and after the point, and the
exponent. -/
structure Numeral where
  negative : Bool
  whole : List Char
  fraction : List Char
  exponent : Int
deriving DecidableEq

namespace Numeral

/-- What may follow the digits of a decimal: nothing, or `e` and an integer. -/
def readExponent? : List Char → Option Int
  | [] => some 0
  | c :: rest => if c == 'e' || c == 'E' then readInteger? rest else none

/-- An optional sign, digits with at most one point among them, and an optional
exponent. At least one digit stands before the exponent. -/
def read? (cs : List Char) : Option Numeral := do
  let (negative, cs) := splitSign cs
  let whole := cs.takeWhile Char.isDigit
  let (fraction, rest) := match cs.dropWhile Char.isDigit with
    | '.' :: rest => (rest.takeWhile Char.isDigit, rest.dropWhile Char.isDigit)
    | rest => ([], rest)
  if whole.isEmpty && fraction.isEmpty then none
  else return ⟨negative, whole, fraction, ← readExponent? rest⟩

/-- The number that a numeral denotes. -/
def toDecimal (n : Numeral) : Decimal :=
  ⟨n.negative, digitsValue (n.whole ++ n.fraction), n.exponent - n.fraction.length⟩

/-- Append digits to a significand as long as it stays below `2 ^ 64`. Together with it,
the digits from the first one on that does not fit. -/
def absorb (significand : Nat) : List Char → Nat × List Char
  | [] => (significand, [])
  | c :: rest =>
    let wider := 10 * significand + digitsValue [c]
    if wider < UInt64.size then absorb wider rest else (significand, c :: rest)

/-- The leading part of a numeral whose digits form a significand below `2 ^ 64`. A digit
before the point that is left out counts as a zero, one after the point is dropped. -/
def leading (n : Numeral) : Decimal :=
  let (whole, skipped) := absorb 0 n.whole
  let (significand, dropped) := absorb whole n.fraction
  ⟨n.negative, significand,
    n.exponent + skipped.length - (n.fraction.length - dropped.length : Nat)⟩

end Numeral

namespace Decimal

/-- The number that a decimal numeral denotes. -/
def read? (cs : List Char) : Option Decimal := (Numeral.read? cs).map Numeral.toDecimal

/-- The number of decimal digits of a natural number; zero has one. -/
def digitCount (n : Nat) : Nat := (Nat.toDigits 10 n).length

/-- The double nearest to a decimal. Every number of at least `10 ^ 310` rounds to
infinity and every number below `10 ^ (-330)` to zero, so powers of ten stay small. -/
def toBinary64 (d : Decimal) : Binary64 :=
  let lead := digitCount d.coefficient + d.exponent
  if d.coefficient = 0 ∨ lead < -330 then .ofMagnitude d.negative 0
  else if 311 < lead then .ofMagnitude d.negative Binary64.infinityMagnitude
  else if d.exponent < 0 then .ofRatio d.negative d.coefficient (Nat.pow 10 (-d.exponent).toNat)
  else .ofRatio d.negative (d.coefficient * Nat.pow 10 d.exponent.toNat) 1

/-- The double nearest to `10 ^ n`, for an `n` up to `308`. -/
def powerOfTen (n : Nat) : Binary64 := .ofRatio false (Nat.pow 10 n) 1

/-- The magnitude of a decimal in steps that are rounded one by one: the coefficient is
made a double and multiplied or divided by a power of ten. Below `10 ^ (-308)` the power
is taken in two parts, and three parts would leave nothing. None if the product is beyond
the largest double. -/
def scaledMagnitude? (d : Decimal) : Option Binary64 :=
  let start := Binary64.ofRatio false d.coefficient 1
  let places := d.exponent.natAbs
  if start.isZero then some .zero
  else if 0 ≤ d.exponent then
    if places ≤ 308 then
      let product := start.mul (powerOfTen places)
      if product.isFinite then some product else none
    else none
  else if places ≤ 308 then some (start.div (powerOfTen places))
  else if places ≤ 616 then some ((start.div (powerOfTen 308)).div (powerOfTen (places - 308)))
  else some .zero

/-- The double of a decimal, reached in rounded steps. It can miss the nearest one by a few
places. -/
def toBinary64Stepwise? (d : Decimal) : Option Binary64 :=
  d.scaledMagnitude?.map fun x => if d.negative then x.negate else x

end Decimal

end SsaLowering
