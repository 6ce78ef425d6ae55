import GrammarKit.Text.Printable

/-!
# Quoted text

How a text is shown inside a message: between single quotes, or between double quotes
when it holds a single quote and no double one.  The backslash, the quote in use, line
feed, carriage return and tab are written with a backslash; any other unprintable
character is written by its code.

## Main Definitions

* `Text.quoted` — a text as messages show it
-/

namespace GrammarKit.Text

/-- The digits of a number in base sixteen, at least `width` of them. -/
def hexDigits (width code : Nat) : List Char :=
  let digits := Nat.toDigits 16 code
  List.replicate (width - digits.length) '0' ++ digits

/-- An unprintable character by its code: two, four or eight digits after `x`, `u` or
`U`. -/
def escapeCode (code : Nat) : List Char :=
  if code < 0x100 then '\\' :: 'x' :: hexDigits 2 code
  else if code < 0x10000 then '\\' :: 'u' :: hexDigits 4 code
  else '\\' :: 'U' :: hexDigits 8 code

/-- One character as it stands between two quotes. -/
def escapeChar (quote c : Char) : List Char :=
  if c = '\\' || c = quote then ['\\', c]
  else if c = '\n' then ['\\', 'n']
  else if c = '\r' then ['\\', 'r']
  else if c = '\t' then ['\\', 't']
  else if isPrintable c then [c]
  else escapeCode c.toNat

/-- The quote that a text is put between. -/
def quoteFor (cs : List Char) : Char :=
  if cs.contains '\x27' && !cs.contains '\x22' then '\x22' else '\x27'

/-- A text between quotes, with what cannot stand there escaped. -/
def quoted (s : String) : String :=
  let quote := quoteFor s.toList
  String.ofList (quote :: s.toList.flatMap (escapeChar quote) ++ [quote])

end GrammarKit.Text
