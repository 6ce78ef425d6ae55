import GrammarKit.Number.Binary64

/-!
# Decimal text of numbers

A floating-point number is written with the fewest decimal digits that still single it
out among its neighbours, and of those with the digits nearest to it.

## Main Definitions

* `Decimal.shortest` — the digits of a number
* `Decimal.Layout`, `Decimal.Layout.render` — how digits are laid out
-/

namespace GrammarKit

/-- The number `digits` times ten to the `exponent`. -/
structure Decimal where
  digits : Nat
  exponent : Int
deriving DecidableEq, Repr

namespace Decimal

open Binary64 (twoTo leadingBit)

/-- Ten to a power. -/
def tenTo (n : Nat) : Nat := Nat.pow 10 n

/-- The decimal digits of a natural number, most significant first. -/
def digitsOf (n : Nat) : List Char :=
  Nat.toDigits 10 n

/-- The position of the leading decimal digit of `significand * 2 ^ exponent`, where
zero is the place of units.  The scale is fine enough for every number of the binary64
format. -/
def leadingPlace (significand : Nat) (exponent : Int) : Int :=
  let scale : Nat := 340
  let n := significand * twoTo exponent.toNat * tenTo scale / twoTo (-exponent).toNat
  (digitsOf n).length - 1 - (scale : Int)

/-- The numbers that round to `significand * 2 ^ exponent`, in quarters of a unit in the
last place: the lower end, the number itself and the upper end.  The gap below a power
of two is half as wide as the one above it. -/
def quarters (significand : Nat) (exponent : Int) : Nat × Nat × Nat :=
  let below := if significand = leadingBit && Binary64.minExponent < exponent then 1 else 2
  (4 * significand - below, 4 * significand, 4 * significand + 2)

/-- The decimal on the grid of the given place that singles out
`significand * 2 ^ exponent`: of the two neighbours on the grid the nearer one that
rounds back, and of two equally near the even one. -/
def onGrid? (significand : Nat) (exponent place : Int) : Option Decimal :=
  let (low, mid, high) := quarters significand exponent
  -- a quarter of a unit is `a / b` steps of the grid
  let a := twoTo (exponent - 2).toNat * tenTo (-place).toNat
  let b := twoTo (2 - exponent).toNat * tenTo place.toNat
  let inside (d : Nat) : Bool :=
    if significand % 2 = 0 then low * a ≤ d * b && d * b ≤ high * a
    else low * a < d * b && d * b < high * a
  let floor := mid * a / b
  let upperIsNearer : Bool :=
    (2 * floor + 1) * b < 2 * mid * a || ((2 * floor + 1) * b == 2 * mid * a && floor % 2 == 1)
  if inside floor && !(inside (floor + 1) && upperIsNearer) then some ⟨floor, place⟩
  else if inside (floor + 1) then some ⟨floor + 1, place⟩
  else none

/-- The shortest decimal that rounds to a positive `significand * 2 ^ exponent`;
seventeen digits are always enough. -/
def shortest (significand : Nat) (exponent : Int) : Decimal :=
  let leading := leadingPlace significand exponent
  let found := (List.range 17).findSome? fun (k : Nat) =>
    onGrid? significand exponent (leading - k)
  found.getD ⟨significand, exponent⟩

/-- How the digits of a decimal are laid out. -/
structure Layout where
  /-- The least leading place that is written without an exponent. -/
  positionalFrom : Int
  /-- The least leading place beyond those that are written without an exponent. -/
  positionalBelow : Int
  /-- What stands before the exponent. -/
  exponentMark : Char
  /-- The least number of digits of an exponent. -/
  exponentWidth : Nat

/-- A signed exponent with at least the layout's number of digits. -/
def Layout.exponentText (layout : Layout) (exponent : Int) : List Char :=
  let digits := digitsOf exponent.natAbs
  layout.exponentMark :: (if exponent < 0 then '-' else '+') ::
    List.replicate (layout.exponentWidth - digits.length) '0' ++ digits

/-- Digits with a decimal point after the leading place; at least one digit stands on
either side of the point. -/
def positional (digits : List Char) (leading : Int) : List Char :=
  if leading < 0 then
    '0' :: '.' :: List.replicate (-leading - 1).toNat '0' ++ digits
  else
    let whole := leading.toNat + 1
    let fraction := digits.drop whole
    digits.take whole ++ List.replicate (whole - digits.length) '0' ++ '.' ::
      (if fraction.isEmpty then ['0'] else fraction)

/-- The digits without the zeros at the end. -/
def trimZeros (digits : List Char) : List Char :=
  (digits.reverse.dropWhile (· == '0')).reverse

/-- A positive decimal as text. -/
def Layout.render (layout : Layout) (d : Decimal) : List Char :=
  let all := digitsOf d.digits
  let leading : Int := d.exponent + all.length - 1
  let digits := trimZeros all
  if layout.positionalFrom ≤ leading && leading < layout.positionalBelow then
    positional digits leading
  else
    let mantissa :=
      match digits with
      | first :: second :: rest => first :: '.' :: second :: rest
      | few => few
    mantissa ++ layout.exponentText leading

end Decimal

end GrammarKit
