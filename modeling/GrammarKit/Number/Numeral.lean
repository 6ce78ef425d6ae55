import GrammarKit.Number.Decimal
import GrammarKit.Text.Blank
import GrammarKit.Text.DecimalDigit
import GrammarKit.Text.Quoted

/-!
# Numerals

Reading numbers from text.  Blanks around a numeral do not count, a sign may stand
before it, digits may come from any script, and a single underscore may stand between
two digits.

## Main Definitions

* `Numeral.IntegerError` — why a text spells no integer
* `Numeral.integer`, `Numeral.int?` — an integer of at most `Numeral.maxDigits` digits
* `Numeral.float?` — a floating-point number, correctly rounded; also infinity and
  not-a-number

## Design Notes

The digits of an integer are limited, because reading them takes more than linear time.
They are counted as they are written, with zeros at the front, and before anything
behind them is looked at.  The parts of a floating-point number have no such limit.
-/

namespace GrammarKit.Numeral

/-- Characters without the blanks at either end. -/
def trim (cs : List Char) : List Char :=
  ((cs.dropWhile Text.isBlank).reverse.dropWhile Text.isBlank).reverse

/-- Splits off a sign; true means minus. -/
def splitSign : List Char → Bool × List Char
  | '-' :: rest => (true, rest)
  | '+' :: rest => (false, rest)
  | rest => (false, rest)

/-- The values of one or more digits, where a single underscore may stand between two of
them. -/
def digitRun? : List Char → Option (List Nat)
  | [] => none
  | [c] => (Text.digitValue? c).map ([·])
  | c :: '_' :: rest => (Text.digitValue? c).bind fun d => (digitRun? rest).map (d :: ·)
  | c :: rest => (Text.digitValue? c).bind fun d => (digitRun? rest).map (d :: ·)

/-- The number that digit values spell in base ten. -/
def ofDigits (digits : List Nat) : Nat :=
  digits.foldl (fun n d => 10 * n + d) 0

/-- The most digits that are read as an integer. -/
def maxDigits : Nat := 4300

/-- Why a text spells no integer. -/
inductive IntegerError where
  /-- The text is no numeral. -/
  | malformed (text : String)
  /-- The text begins with more digits than are read. -/
  | tooManyDigits (count : Nat)
deriving DecidableEq, Repr

/-- The wording of an error.  A text that is no numeral is cut after 200 characters. -/
def IntegerError.message : IntegerError → String
  | .malformed text =>
    "invalid literal for int() with base 10: " ++
      String.ofList ((Text.quoted text).toList.take 200)
  | .tooManyDigits count =>
    s!"Exceeds the limit ({maxDigits} digits) for integer string conversion: " ++
      s!"value has {count} digits; use sys.set_int_max_str_digits() to increase the limit"

/-- Whether a character can stand in a run of digits. -/
def isRunChar (c : Char) : Bool :=
  (Text.digitValue? c).isSome || c == '_'

/-- The number that characters spell without a sign, in a text that is reported if they
spell none. -/
def natural (text : String) (cs : List Char) : Except IntegerError Nat :=
  match digitRun? (cs.takeWhile isRunChar) with
  | none => .error (.malformed text)
  | some digits =>
    if maxDigits < digits.length then .error (.tooManyDigits digits.length)
    else if (cs.dropWhile isRunChar).isEmpty then .ok (ofDigits digits)
    else .error (.malformed text)

/-- The integer that a text spells, or why it spells none. -/
def integer (s : String) : Except IntegerError Int :=
  let (negative, body) := splitSign (trim s.toList)
  (natural s body).map fun (n : Nat) => if negative then -(n : Int) else n

/-- The integer that a text spells. -/
def int? (s : String) : Option Int :=
  (integer s).toOption

/-- A run of digits that may be missing. -/
def digits? (cs : List Char) : Option (List Nat) :=
  if cs.isEmpty then some [] else digitRun? cs

/-- The digits before and after the point; at least one digit is there. -/
def mantissa? (cs : List Char) : Option (List Nat × List Nat) := do
  let isPoint (c : Char) : Bool := c == '.'
  let whole ← digits? (cs.takeWhile (!isPoint ·))
  let fraction ← digits? ((cs.dropWhile (!isPoint ·)).drop 1)
  if whole.isEmpty && fraction.isEmpty then none else some (whole, fraction)

/-- The exponent after its mark, zero if there is no mark. -/
def exponent? : List Char → Option Int
  | [] => some 0
  | _mark :: rest =>
    let (negative, body) := splitSign rest
    (digitRun? body).map fun digits =>
      if negative then -(ofDigits digits : Int) else ofDigits digits

/-- The floating-point number nearest to `digits` times ten to the `exponent`.
Exponents far outside the range are settled by the number of digits alone. -/
def scientific (digits : Nat) (exponent : Int) : Float :=
  let size := exponent + (Decimal.digitsOf digits).length
  if digits = 0 || size < -400 then Float.ofBits 0
  else if 400 < size then Binary64.infinity
  else
    (Binary64.ofRatio? (digits * Decimal.tenTo exponent.toNat)
      (Decimal.tenTo (-exponent).toNat)).getD
      Binary64.infinity

/-- The magnitude that an unsigned numeral spells. -/
def magnitude? (cs : List Char) : Option Float :=
  let isMark (c : Char) : Bool := c == 'e' || c == 'E'
  let word := String.ofList (cs.map Char.toLower)
  if word = "inf" || word = "infinity" then some Binary64.infinity
  else if word = "nan" then some Binary64.notANumber
  else do
    let (whole, fraction) ← mantissa? (cs.takeWhile (!isMark ·))
    let exponent ← exponent? (cs.dropWhile (!isMark ·))
    some (scientific (ofDigits (whole ++ fraction)) (exponent - fraction.length))

/-- The floating-point number that a text spells. -/
def float? (s : String) : Option Float :=
  let (negative, body) := splitSign (trim s.toList)
  (magnitude? body).map fun x => if negative then -x else x

/-- The message about a text that spells no floating-point number. -/
def badFloatMessage (s : String) : String :=
  "could not convert string to float: " ++ Text.quoted s

end GrammarKit.Numeral
