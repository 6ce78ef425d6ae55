import GrammarKit.Text.Quoted

/-!
# Tokens

A token is a piece of text with a type and the position where it starts.  The lexer
knows four types; word building may give any other name.

## Main Definitions

* `Token` — a typed piece of text at a position
* `Token.blankTypes`, `Token.isBlank` — the types that count as blank
* `Token.render` — how messages show a token
-/

namespace GrammarKit

/-- A typed piece of text at a position.  Lines and columns of the lexer count from one;
a token made by hand may have any. -/
structure Token where
  type : String
  text : String
  line : Int
  column : Int
deriving DecidableEq, Repr

namespace Token

/-- The type of a run of blanks. -/
def blankType : String := "WS"

/-- The type of a word. -/
def wordType : String := "IDENT"

/-- The type of a numeral. -/
def numberType : String := "NUMLIT"

/-- The type of a punctuation character. -/
def punctuationType : String := "PUNCT"

/-- The types that count as blank unless others are named. -/
def blankTypes : List String := ["WS", "WS-LINE-COMMENT", "WS-BLOCK-COMMENT"]

/-- Whether a token's type is one of the given blank types. -/
def isBlank (types : List String) (t : Token) : Bool :=
  t.type ∈ types

/-- A token as it is shown in messages. -/
def render (t : Token) : String :=
  let text := Text.quoted t.text
  s!"{t.type}({text})@{t.line}:{t.column}"

/-- The texts of tokens, one after the other. -/
def join (tokens : List Token) : String :=
  String.join (tokens.map Token.text)

end Token

end GrammarKit
