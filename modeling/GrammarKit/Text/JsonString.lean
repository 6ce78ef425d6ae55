import GrammarKit.Text.Quoted

/-!
# JSON strings

A text as a JSON string in ASCII: characters outside the printable ASCII range are
written as UTF-16 units, in pairs where one unit is not enough.

## Main Definitions

* `Text.jsonString` — a text as a JSON string
-/

namespace GrammarKit.Text

/-- One UTF-16 unit as an escape. -/
def unitEscape (unit : Nat) : List Char :=
  '\\' :: 'u' :: hexDigits 4 unit

/-- A code point as one or two UTF-16 units. -/
def utf16Escape (code : Nat) : List Char :=
  if code < 0x10000 then unitEscape code
  else
    let rest := code - 0x10000
    unitEscape (0xd800 + rest / 0x400) ++ unitEscape (0xdc00 + rest % 0x400)

/-- One character inside a JSON string. -/
def jsonChar (c : Char) : List Char :=
  if c = '\x22' || c = '\\' then ['\\', c]
  else if c = '\n' then ['\\', 'n']
  else if c = '\r' then ['\\', 'r']
  else if c = '\t' then ['\\', 't']
  else if c = '\x08' then ['\\', 'b']
  else if c = '\x0c' then ['\\', 'f']
  else if 0x20 ≤ c.toNat && c.toNat < 0x7f then [c]
  else utf16Escape c.toNat

/-- A text as a JSON string. -/
def jsonString (s : String) : String :=
  String.ofList ('\x22' :: s.toList.flatMap jsonChar ++ ['\x22'])

end GrammarKit.Text
