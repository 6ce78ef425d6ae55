import GrammarKit.Text.UpperCase
import GrammarKit.Token

/-!
# Terminals

A terminal accepts a token by its text or by its type, without regard to case.  An
inverse terminal stands for all tokens up to the first one that it accepts.

## Main Definitions

* `Terminal` — a text or a type, possibly inverse
* `Terminal.accepts` — whether a token has the text or the type
* `Terminal.render` — how messages show a terminal
-/

namespace GrammarKit

/-- What a terminal looks at. -/
inductive Terminal.Kind where
  /-- The token's text. -/
  | literal
  /-- The token's type. -/
  | tokenType
deriving DecidableEq, Repr

/-- A test on a single token. -/
structure Terminal where
  kind : Terminal.Kind
  value : String
  inverse : Bool := false
deriving DecidableEq, Repr

namespace Terminal

/-- Accepts a token by its text. -/
def literal (text : String) : Terminal := ⟨.literal, text, false⟩

/-- Stands for all tokens up to one with the given text. -/
def untilLiteral (text : String) : Terminal := ⟨.literal, text, true⟩

/-- Accepts a token by its type. -/
def ofType (type : String) : Terminal := ⟨.tokenType, type, false⟩

/-- Stands for all tokens up to one of the given type. -/
def untilType (type : String) : Terminal := ⟨.tokenType, type, true⟩

/-- The part of a token that the terminal looks at. -/
def valueOf (t : Terminal) (token : Token) : String :=
  match t.kind with
  | .literal => token.text
  | .tokenType => token.type

/-- Whether a terminal accepts a token: both values have the same upper case. -/
def accepts (t : Terminal) (token : Token) : Bool :=
  Text.upper (t.valueOf token) == Text.upper t.value

/-- A terminal as it is shown in grammars and messages. -/
def render (t : Terminal) : String :=
  let shown :=
    match t.kind with
    | .literal => Text.quoted t.value
    | .tokenType => "<" ++ t.value ++ ">"
  if t.inverse then "until " ++ shown else shown

end Terminal

end GrammarKit
