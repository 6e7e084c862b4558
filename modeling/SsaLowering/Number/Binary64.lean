/-!
# Double precision numbers as bit patterns

A number is kept as the 64 bits of its binary format. Rounding a ratio of
natural numbers and taking a number apart are exact computations on natural
numbers, so every constant can be evaluated inside the logic. A product or a
quotient is the exact one, rounded once.
-/

namespace SsaLowering

/-- A double precision number, given by its sign, exponent and fraction bits. -/
structure Binary64 where
  bits : UInt64
deriving DecidableEq, Inhabited

namespace Binary64

/-- The fraction field has 52 bits. -/
def fractionSpan : Nat := Nat.pow 2 52

/-- The bit pattern below the sign bit at which infinity starts. -/
def infinityMagnitude : Nat := 2047 * fractionSpan

/-- The number with the given sign and the given bits below the sign bit. -/
def ofMagnitude (negative : Bool) (magnitude : Nat) : Binary64 :=
  ⟨UInt64.ofNat ((if negative then Nat.pow 2 63 else 0) + magnitude)⟩

/-- The bits below the sign bit. -/
def magnitude (x : Binary64) : Nat := x.bits.toNat % Nat.pow 2 63

def isNegative (x : Binary64) : Bool := decide (Nat.pow 2 63 ≤ x.bits.toNat)

/-- Zero of either sign. -/
def isZero (x : Binary64) : Bool := x.magnitude == 0

def isFinite (x : Binary64) : Bool := decide (x.magnitude < infinityMagnitude)

def isNaN (x : Binary64) : Bool := decide (infinityMagnitude < x.magnitude)

/-- The number with the opposite sign, zeros included. -/
def negate (x : Binary64) : Binary64 := ofMagnitude (!x.isNegative) x.magnitude

/-- The significand `m` and the exponent `e` of a finite number `± m · 2 ^ e`. -/
def significand (x : Binary64) : Nat × Int :=
  let field := x.magnitude / fractionSpan
  let fraction := x.magnitude % fractionSpan
  if field = 0 then (fraction, -1074) else (fraction + fractionSpan, field - 1075)

/-- The ratio `num / (den · 2 ^ e)` as a numerator and a denominator. -/
def scaled (num den : Nat) (e : Int) : Nat × Nat :=
  if e < 0 then (num * Nat.pow 2 (-e).toNat, den) else (num, den * Nat.pow 2 e.toNat)

/-- The integer nearest to `num / den`, a tie going to the even one. -/
def roundDiv (num den : Nat) : Nat :=
  let q := num / den
  let r := num % den
  if den < 2 * r ∨ (2 * r = den ∧ q % 2 = 1) then q + 1 else q

/-- The exponent at which `num / den` is written with 53 significant bits, or the
least exponent of the format if that is larger. -/
def exponentFor (num den : Nat) : Int :=
  let e := max ((num.log2 : Int) - den.log2 - 53) (-1074)
  let (n, d) := scaled num den e
  if n / d < 2 * fractionSpan then e else e + 1

/-- The double nearest to `± num / den`, a tie going to the even significand and
a number beyond the largest double to infinity. A significand rounded up to the
next power of two carries into the exponent field by itself. -/
def ofRatio (negative : Bool) (num den : Nat) : Binary64 :=
  if num = 0 then ofMagnitude negative 0 else
    let e := exponentFor num den
    let (n, d) := scaled num den e
    ofMagnitude negative (min ((e + 1074).toNat * fractionSpan + roundDiv n d) infinityMagnitude)

/-- The rounded product of two finite doubles. -/
def mul (x y : Binary64) : Binary64 :=
  let (m, e) := x.significand
  let (n, f) := y.significand
  let (num, den) := scaled (m * n) 1 (-(e + f))
  ofRatio (x.isNegative != y.isNegative) num den

/-- The rounded quotient of two finite doubles. The divisor is not zero. -/
def div (x y : Binary64) : Binary64 :=
  let (m, e) := x.significand
  let (n, f) := y.significand
  let (num, den) := scaled m n (f - e)
  ofRatio (x.isNegative != y.isNegative) num den

/-- The double nearest to an integer. -/
def ofInt (n : Int) : Binary64 := ofRatio (decide (n < 0)) n.natAbs 1

def zero : Binary64 := ofMagnitude false 0

def negativeZero : Binary64 := ofMagnitude true 0

def one : Binary64 := ofInt 1

end Binary64

end SsaLowering
