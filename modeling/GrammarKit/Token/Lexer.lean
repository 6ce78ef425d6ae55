import GrammarKit.Text.Blank
import GrammarKit.Token
import GrammarKit.Traced

/-!
# The lexer

One pass over the characters of a source.  A blank, a letter or a digit opens a run;
the run takes in the characters that continue it and closes at the first that does not.
A punctuation character is a token of its own, and a character of no class is dropped.

## Main Definitions

* `Profile` — which characters start and continue words and numerals, and which are
  punctuation
* `Profile.canonical`, `Profile.standalone` — the two built-in profiles
* `Profile.step`, `Profile.scan` — one character, and all of them, from a given state
* `Profile.tokenize` — the tokens of a source

## Design Notes

`scan` recurses on the characters and its state is the open run, if any, and the
position of the next character.  It gives back tokens and dropped characters in the
order in which they end.

Lines are counted among blanks only.  A line feed is a blank wherever it opens a run,
but a profile may let it continue a word or a numeral, and there it takes a column like
any other character.
-/

namespace GrammarKit

/-- Line and column of a character, both counted from one. -/
structure Position where
  line : Nat
  column : Nat
deriving DecidableEq, Repr

namespace Position

/-- Where a source begins. -/
def start : Position := ⟨1, 1⟩

/-- One column further. -/
def right (p : Position) : Position := ⟨p.line, p.column + 1⟩

/-- The position after a character: a line feed opens the next line. -/
def advance (p : Position) (c : Char) : Position :=
  if c = '\n' then ⟨p.line + 1, 1⟩ else p.right

/-- The position after a list of characters. -/
def advanceAll (p : Position) (cs : List Char) : Position :=
  cs.foldl advance p

@[simp] theorem advanceAll_nil (p : Position) : p.advanceAll [] = p := rfl

@[simp] theorem advanceAll_cons (p : Position) (c : Char) (cs : List Char) :
    p.advanceAll (c :: cs) = (p.advance c).advanceAll cs := rfl

theorem advanceAll_append (p : Position) (cs ds : List Char) :
    p.advanceAll (cs ++ ds) = (p.advanceAll cs).advanceAll ds := by
  simp [advanceAll, List.foldl_append]

end Position

/-- Which characters start and continue words and numerals, and which are punctuation.
A character is tried as a blank first, then as the start of a word, of a numeral, and as
punctuation. -/
structure Profile where
  name : String
  wordStart : Char → Bool
  wordContinue : Char → Bool
  numberStart : Char → Bool
  numberContinue : Char → Bool
  punctuation : Char → Bool

namespace Profile

/-- ASCII letters. -/
def isLetter (c : Char) : Bool := c.isAlpha

/-- ASCII letters and the underscore. -/
def isWordLetter (c : Char) : Bool := c.isAlpha || c == '_'

/-- ASCII digits. -/
def isDigit (c : Char) : Bool := c.isDigit

/-- The punctuation of the standalone profile: what ASCII has, less the grave accent. -/
def punctuationChars : List Char :=
  "!\"#$%&\x27()*+,-./:;<=>?@[\\]^_\x7b|\x7d~".toList

/-- Words are letters, numerals are digits, and every other character is punctuation. -/
def canonical : Profile where
  name := "canonical"
  wordStart := isWordLetter
  wordContinue := isWordLetter
  numberStart := isDigit
  numberContinue := isDigit
  punctuation := fun _ => true

/-- Words may contain digits and numerals may contain letters; punctuation is a fixed
class, and what is in no class is dropped. -/
def standalone : Profile where
  name := "standalone"
  wordStart := isWordLetter
  wordContinue := fun c => isWordLetter c || isDigit c
  numberStart := isDigit
  numberContinue := fun c => isDigit c || isLetter c
  punctuation := fun c => punctuationChars.contains c

/-- The kinds of run that can be open. -/
inductive RunKind where
  | blank
  | word
  | number
deriving DecidableEq, Repr

/-- The token type of a closed run. -/
def RunKind.tokenType : RunKind → String
  | .blank => Token.blankType
  | .word => Token.wordType
  | .number => Token.numberType

/-- The position after a character of a run: a line feed opens the next line only among
blanks. -/
def RunKind.advance : RunKind → Position → Char → Position
  | .blank, position, c => position.advance c
  | .word, position, _ => position.right
  | .number, position, _ => position.right

/-- The position after some characters of a run. -/
def RunKind.advanceAll (kind : RunKind) (position : Position) (cs : List Char) : Position :=
  cs.foldl kind.advance position

/-- A run of characters that may still grow. -/
structure OpenRun where
  kind : RunKind
  start : Position
  text : String
deriving DecidableEq, Repr

/-- A token that starts at a position. -/
def tokenAt (type text : String) (p : Position) : Token :=
  ⟨type, text, p.line, p.column⟩

/-- The token of a run that has ended. -/
def OpenRun.close (run : OpenRun) : Token :=
  tokenAt run.kind.tokenType run.text run.start

/-- What the lexer gives out: a token, or a character that belongs to no class. -/
inductive Lexeme where
  | token (t : Token)
  | dropped (c : Char) (position : Position)
deriving DecidableEq, Repr

/-- Whether a character continues a run. -/
def continues (p : Profile) : RunKind → Char → Bool
  | .blank, c => Text.isBlank c
  | .word, c => p.wordContinue c
  | .number, c => p.numberContinue c

/-- The kind of run that a character opens, if any. -/
def opens? (p : Profile) (c : Char) : Option RunKind :=
  if Text.isBlank c then some .blank
  else if p.wordStart c then some .word
  else if p.numberStart c then some .number
  else none

/-- A character outside any run: what it gives out at once and the run it opens. -/
def begin (p : Profile) (position : Position) (c : Char) : List Lexeme × Option OpenRun :=
  match p.opens? c with
  | some kind => ([], some ⟨kind, position, String.singleton c⟩)
  | none =>
    if p.punctuation c then
      ([.token (tokenAt Token.punctuationType (String.singleton c) position)], none)
    else ([.dropped c position], none)

/-- A character in any state: it continues the open run, or closes it and begins
anew. -/
def step (p : Profile) (run : Option OpenRun) (position : Position) (c : Char) :
    List Lexeme × Option OpenRun :=
  match run with
  | none => p.begin position c
  | some run =>
    if p.continues run.kind c then ([], some { run with text := run.text.push c })
    else
      let (lexemes, next) := p.begin position c
      (.token run.close :: lexemes, next)

/-- The position after a character that was read into the given run, or that is in no
run. -/
def advanceIn (run : Option OpenRun) (position : Position) (c : Char) : Position :=
  match run with
  | some run => run.kind.advance position c
  | none => position.right

/-- All characters from a state on; a run that is open at the end is closed. -/
def scan (p : Profile) (run : Option OpenRun) (position : Position) : List Char → List Lexeme
  | [] => (run.map fun r => Lexeme.token r.close).toList
  | c :: cs =>
    let (lexemes, next) := p.step run position c
    lexemes ++ scan p next (advanceIn next position c) cs

/-- The tokens and dropped characters of a source, in order. -/
def lexemes (p : Profile) (source : String) : List Lexeme :=
  p.scan none .start source.toList

/-- The token of a lexeme, if it is one. -/
def Lexeme.token? : Lexeme → Option Token
  | .token t => some t
  | .dropped _ _ => none

/-- The line that reports a dropped character. -/
def Lexeme.report? : Lexeme → Option String
  | .token _ => none
  | .dropped c position =>
    let shown := Text.quoted (String.singleton c)
    some s!"lex drop {shown} at {position.line}:{position.column}"

/-- The tokens of a source. -/
def tokens (p : Profile) (source : String) : List Token :=
  (p.lexemes source).filterMap Lexeme.token?

/-- Writes each of the lines if tracing is on. -/
def noteAll {ε : Type} (debug : Bool) (lines : List String) : Traced ε Unit :=
  lines.forM fun line => Traced.note debug fun _ => line

/-- The tokens of a source, with a trace of the dropped characters and of the number of
tokens. -/
def tokenize {ε : Type} (p : Profile) (debug : Bool) (source : String) : Traced ε (List Token) := do
  let lexemes := p.lexemes source
  let tokens := lexemes.filterMap Lexeme.token?
  noteAll debug (lexemes.filterMap Lexeme.report?)
  Traced.note debug fun _ => s!"lex[{p.name}] tokens={tokens.length}"
  return tokens

end Profile

end GrammarKit
