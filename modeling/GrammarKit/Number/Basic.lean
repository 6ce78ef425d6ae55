import GrammarKit.Number.Decimal

/-!
# Numbers

A number is an exact integer or a floating-point number.  Sum, difference and product of
integers are exact; a quotient is always floating-point, and so is every result that has
a floating-point operand.

## Main Definitions

* `Number`, `Number.Error` — a number, and why an operation has no result
* `Number.add`, `Number.sub`, `Number.mul`, `Number.div` — the operations
* `Number.render` — the text of a number
-/

namespace GrammarKit

/-- An exact integer or a floating-point number. -/
inductive Number where
  | int (n : Int)
  | float (x : Float)

namespace Number

/-- Why an operation has no result. -/
inductive Error where
  /-- An integer is divided by zero. -/
  | divisionByZero
  /-- A division with a floating-point operand has divisor zero. -/
  | floatDivisionByZero
  /-- The quotient of two integers is beyond the floating-point range. -/
  | quotientTooLarge
  /-- An integer operand is beyond the floating-point range. -/
  | integerTooLarge
deriving DecidableEq, Repr

/-- The wording of an error. -/
def Error.message : Error → String
  | .divisionByZero => "division by zero"
  | .floatDivisionByZero => "float division by zero"
  | .quotientTooLarge => "integer division result too large for a float"
  | .integerTooLarge => "int too large to convert to float"

/-- Puts a sign on a floating-point magnitude. -/
def signed (negative : Bool) (x : Float) : Float :=
  if negative then -x else x

/-- The floating-point number nearest to an integer. -/
def floatOfInt (n : Int) : Except Error Float :=
  match Binary64.ofRatio? n.natAbs 1 with
  | some x => .ok (signed (n < 0) x)
  | none => .error .integerTooLarge

/-- A number in floating point. -/
def toFloat : Number → Except Error Float
  | .int n => floatOfInt n
  | .float x => .ok x

/-- Applies the exact operation to two integers and the floating-point one to all other
pairs. -/
def combine (exact : Int → Int → Int) (rounded : Float → Float → Float) :
    Number → Number → Except Error Number
  | .int m, .int n => .ok (.int (exact m n))
  | a, b => do
    let x ← a.toFloat
    let y ← b.toFloat
    .ok (.float (rounded x y))

/-- The sum. -/
def add : Number → Number → Except Error Number := combine (· + ·) (· + ·)

/-- The difference. -/
def sub : Number → Number → Except Error Number := combine (· - ·) (· - ·)

/-- The product. -/
def mul : Number → Number → Except Error Number := combine (· * ·) (· * ·)

/-- The floating-point number nearest to the quotient of two integers. -/
def divInt (m n : Int) : Except Error Float :=
  if n = 0 then .error .divisionByZero
  else
    match Binary64.ofRatio? m.natAbs n.natAbs with
    | some x => .ok (signed (xor (m < 0) (n < 0)) x)
    | none => .error .quotientTooLarge

/-- The quotient, always in floating point. -/
def div : Number → Number → Except Error Number
  | .int m, .int n => Number.float <$> divInt m n
  | a, b => do
    let x ← a.toFloat
    let y ← b.toFloat
    if y == 0 then .error .floatDivisionByZero else .ok (.float (x / y))

/-- Whether a floating-point number has the value of an integer, exactly. -/
def floatEqualsInt (x : Float) (n : Int) : Bool :=
  let magnitude := Binary64.significand x * Binary64.twoTo (Binary64.exponent x).toNat
  let scale := Binary64.twoTo (-Binary64.exponent x).toNat
  Binary64.exponentField x ≠ 0x7ff && n.natAbs * scale == magnitude &&
    (n == 0 || Binary64.isNegative x == decide (n < 0))

/-- Whether two numbers have the same value, whatever their kinds. -/
def sameValue : Number → Number → Bool
  | .int m, .int n => m == n
  | .float x, .float y => x == y
  | .int n, .float x => floatEqualsInt x n
  | .float x, .int n => floatEqualsInt x n

/-- Floating-point numbers are written positionally from 0.0001 up to below ten to the
sixteenth, and otherwise with an exponent of at least two digits. -/
def layout : Decimal.Layout where
  positionalFrom := -4
  positionalBelow := 16
  exponentMark := 'e'
  exponentWidth := 2

/-- The text of a floating-point number's magnitude. -/
def magnitudeText (x : Float) : List Char :=
  if Binary64.exponentField x = 0x7ff then ['i', 'n', 'f']
  else if Binary64.significand x = 0 then ['0', '.', '0']
  else layout.render (Decimal.shortest (Binary64.significand x) (Binary64.exponent x))

/-- The text of a floating-point number: the fewest digits that read back. -/
def floatText (x : Float) : String :=
  if Binary64.exponentField x = 0x7ff && Binary64.fractionField x ≠ 0 then "nan"
  else String.ofList ((if Binary64.isNegative x then ['-'] else []) ++ magnitudeText x)

/-- The text of a number. -/
def render : Number → String
  | .int n => toString n
  | .float x => floatText x

end Number

end GrammarKit
