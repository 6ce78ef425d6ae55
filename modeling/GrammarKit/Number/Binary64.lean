/-!
# The binary64 format

Floating-point numbers of 64 bits seen through exact arithmetic: the number nearest to a
quotient of natural numbers, and the significand and exponent of a given number.

## Main Definitions

* `Binary64.roundDiv` — a quotient rounded to the nearest integer, ties to even
* `Binary64.ofRatio?` — the number nearest to a quotient, unless it is beyond the range
* `Binary64.significand`, `Binary64.exponent` — a finite number is the first times two
  to the second
-/

namespace GrammarKit.Binary64

/-- Two to a power. -/
def twoTo (n : Nat) : Nat := Nat.pow 2 n

/-- The leading bit of a significand of 53 bits. -/
def leadingBit : Nat := twoTo 52

/-- The integer nearest to `num / den`; a tie goes to the even neighbour. -/
def roundDiv (num den : Nat) : Nat :=
  let quotient := num / den
  let twice := 2 * (num % den)
  if twice < den then quotient
  else if den < twice then quotient + 1
  else quotient + quotient % 2

/-- The least exponent of a unit in the last place. -/
def minExponent : Int := -1074

/-- Numerator and denominator of `num / den` divided by two to the given exponent. -/
def scaled (num den : Nat) (exponent : Int) : Nat × Nat :=
  (num * twoTo (-exponent).toNat, den * twoTo exponent.toNat)

/-- The exponent of the unit in the last place of a number near `num / den`: the
significand has 53 binary digits, or fewer at the lower end of the range. -/
def unitExponent (num den : Nat) : Int :=
  let guess : Int := num.log2 - den.log2 - 52
  let (n, d) := scaled num den guess
  max minExponent (if n < d * leadingBit then guess - 1 else guess)

/-- The bits of infinity, one more than those of the largest finite number. -/
def infinityBits : Nat := 0x7ff0000000000000

/-- The bits of the number nearest to a positive quotient.  A significand that rounds up
to 54 binary digits carries into the exponent. -/
def nearestBits (num den : Nat) : Nat :=
  let exponent := unitExponent num den
  let (n, d) := scaled num den exponent
  (exponent - minExponent).toNat * leadingBit + roundDiv n d

/-- The number nearest to `num / den`, or nothing if it is beyond the largest finite
number. -/
def ofRatio? (num den : Nat) : Option Float :=
  if num = 0 then some (Float.ofBits 0)
  else
    let bits := nearestBits num den
    if bits < infinityBits then some (Float.ofBits bits.toUInt64) else none

/-- Positive infinity. -/
def infinity : Float := Float.ofBits infinityBits.toUInt64

/-- A number that is not one. -/
def notANumber : Float := Float.ofBits 0x7ff8000000000000

/-- The eleven bits of the exponent field. -/
def exponentField (x : Float) : Nat :=
  x.toBits.toNat / leadingBit % twoTo 11

/-- The fifty-two bits of the fraction field. -/
def fractionField (x : Float) : Nat :=
  x.toBits.toNat % leadingBit

/-- Whether the sign bit is set. -/
def isNegative (x : Float) : Bool :=
  twoTo 63 ≤ x.toBits.toNat

/-- The significand of a finite number. -/
def significand (x : Float) : Nat :=
  if exponentField x = 0 then fractionField x else fractionField x + leadingBit

/-- The exponent of the unit in the last place of a finite number. -/
def exponent (x : Float) : Int :=
  if exponentField x = 0 then minExponent else exponentField x - 1075

end GrammarKit.Binary64
