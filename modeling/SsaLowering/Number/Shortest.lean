import SsaLowering.Number.Decimal

/-!
# The shortest decimal of a double

Among the decimals that round to a given double, the shortest one has the
fewest digits, and of those with that many digits it is the nearest. For each
number of digits only the two grid points around the double have to be tested.
If both are equally near, the form in which the number is written decides.
-/

namespace SsaLowering

/-- The number `digits · 10 ^ (point - number of digits)`: `point` counts the digits
before the decimal point. -/
structure ScaledDigits where
  digits : Nat
  point : Int
deriving DecidableEq

/-- Which of two neighbouring decimals is taken for a number in the middle of them. -/
inductive Tie where
  | up
  | even
deriving DecidableEq, Inhabited

/-- Whether a tie between `below` and its successor goes to `below`. -/
def Tie.keeps (tie : Tie) (below : Nat) : Bool :=
  match tie with
  | .up => false
  | .even => below % 2 == 0

namespace Shortest

/-- The reals that round to a double, in units of a quarter of its last place.
The ends belong to them exactly if the significand is even. -/
structure Interval where
  low : Nat
  value : Nat
  high : Nat
  closed : Bool

/-- The interval of `m · 2 ^ e`. Below a power of two the neighbour is half as far. -/
def intervalOf (m : Nat) (e : Int) : Interval where
  low := if m = Binary64.fractionSpan ∧ -1074 < e then 4 * m - 1 else 4 * m - 2
  value := 4 * m
  high := 4 * m + 2
  closed := m % 2 == 0

/-- Whether a number lies in the interval, both measured in the same units. -/
def Interval.contains (i : Interval) (unit x : Nat) : Bool :=
  if i.closed then decide (i.low * unit ≤ x ∧ x ≤ i.high * unit)
  else decide (i.low * unit < x ∧ x < i.high * unit)

/-- The `k` with `10 ^ (k - 1) ≤ num / den < 10 ^ k`, for a positive ratio. -/
def pointOf (num den : Nat) : Int :=
  if den ≤ num then Decimal.digitCount (num / den)
  else 1 - (Decimal.digitCount ((den - 1) / num) : Int)

/-- The best decimal with at most `count` digits, if one lies in the interval, whose unit
is `num / den`: of the two neighbours of the double the nearer one, or the one that the
rule for ties takes. The unit and the step of the grid are brought to a common
denominator. -/
def candidate? (tie : Tie) (i : Interval) (num den : Nat) (point : Int) (count : Nat) :
    Option Nat :=
  let power := point - count
  let unit := num * Nat.pow 10 (-power).toNat
  let step := den * Nat.pow 10 power.toNat
  let target := i.value * unit
  let below := target / step
  let hasBelow := i.contains unit (below * step)
  let hasAbove := i.contains unit ((below + 1) * step)
  let lowerGap := target - below * step
  let upperGap := (below + 1) * step - target
  let nearerBelow := decide (lowerGap < upperGap) || (lowerGap == upperGap && tie.keeps below)
  if hasBelow && (!hasAbove || nearerBelow) then some below
  else if hasAbove then some (below + 1)
  else none

/-- Digits without trailing zeros. The point counts from the left, so it stays. -/
def stripZeros : Nat → Nat → Nat
  | 0, n => n
  | fuel + 1, n => if n % 10 = 0 ∧ n ≠ 0 then stripZeros fuel (n / 10) else n

/-- The shortest decimal of `m · 2 ^ e` for a positive `m`. Seventeen digits always
suffice for a double. -/
def ofSignificand (tie : Tie) (m : Nat) (e : Int) : ScaledDigits :=
  let i := intervalOf m e
  let num := Nat.pow 2 e.toNat
  let den := 4 * Nat.pow 2 (-e).toNat
  let point := pointOf (i.value * num) den
  match ((List.range 17).map (· + 1)).findSome? fun count =>
      (candidate? tie i num den point count).map fun digits => (count, digits) with
  | some (count, digits) =>
    let carried := decide (Nat.pow 10 count ≤ digits)
    ⟨stripZeros count digits, if carried then point + 1 else point⟩
  | none => ⟨m, point⟩

end Shortest

/-- How a double is written. Exponents of the leading digit below `least` or from `bound`
on are written with `e`, and `plus` says whether one that is not negative has a sign. -/
structure FloatStyle where
  least : Int
  bound : Int
  plus : Bool
  tie : Tie

namespace FloatStyle

/-- Code text is positional from `10 ^ (-4)` up to `10 ^ 16`. A tie goes up. -/
def code : FloatStyle := ⟨-4, 16, false, .up⟩

/-- Structured data is positional from `10 ^ (-5)` up to `10 ^ 16`. A large exponent has a
plus sign, and a tie goes to the even digit. -/
def data : FloatStyle := ⟨-5, 16, true, .even⟩

/-- The mark and the digits of an exponent. -/
def exponentText (style : FloatStyle) (exponent : Int) : List Char :=
  'e' :: (if style.plus ∧ 0 ≤ exponent then ['+'] else []) ++ (toString exponent).toList

/-- A positive decimal in the given style. A point and a digit on both sides of it are
always written in positional notation. -/
def digitsText (style : FloatStyle) (d : ScaledDigits) : String :=
  let digits := Nat.toDigits 10 d.digits
  let count : Int := digits.length
  let zeros (n : Int) : List Char := List.replicate n.toNat '0'
  let lead := d.point - 1
  String.ofList <|
    if lead < style.least ∨ style.bound ≤ lead then
      let point := if digits.length = 1 then [] else ['.']
      digits.take 1 ++ point ++ digits.drop 1 ++ style.exponentText lead
    else if d.point ≤ 0 then ['0', '.'] ++ zeros (-d.point) ++ digits
    else if count ≤ d.point then digits ++ zeros (d.point - count) ++ ['.', '0']
    else digits.take d.point.toNat ++ '.' :: digits.drop d.point.toNat

/-- The shortest text of a double. Zeros and infinities keep their sign. -/
def text (style : FloatStyle) (x : Binary64) : String :=
  let sign := if x.isNegative then "-" else ""
  if x.isNaN then "NaN"
  else if !x.isFinite then sign ++ "inf"
  else if x.isZero then sign ++ "0.0"
  else
    let (m, e) := x.significand
    sign ++ style.digitsText (Shortest.ofSignificand style.tie m e)

end FloatStyle

end SsaLowering
