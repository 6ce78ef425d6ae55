import GrammarKit.Grammar.Sign
import GrammarKit.WordBuilder

/-!
# The words of queries

The word builder of the query language.  Signed and fractional numbers, comparison
operators, placeholders, dotted paths, escaped characters, strings and comments become
single tokens.

## Main Definitions

* `Query.wordRules`, `Query.wordGrammar` — the rules of words, and their grammar
* `Query.wordTypes` — the token type of each word
* `Query.words` — the word builder

## Design Notes

Strings and comments take two passes.  The first pass turns each bare quote into a mark
and joins the two characters of a comment mark; the second folds what stands between two
marks.  An escaped quote is folded in the first pass and so never becomes a mark.  A
line comment ends before a blank token that is a single line feed.
-/

namespace GrammarKit.Query

open Element (rule optionalRule many literal ofType)

/-- A word. -/
def word : Element := ofType Token.wordType

/-- A numeral. -/
def number : Element := ofType Token.numberType

/-- A string between double quotes. -/
def doubleQuoted : Element := ofType "STRLIT-DQ"

/-- A string between single quotes. -/
def singleQuoted : Element := ofType "STRLIT-SQ"

/-- All tokens up to one with the given text. -/
def untilLiteral (text : String) : Element := .one (.untilLiteral text)

/-- All tokens up to one of the given type. -/
def untilType (type : String) : Element := .one (.untilType type)

/-- The rules of words; the first is the root. -/
def wordRules : List Rule :=
  [{ name := "words", alternatives := [[many "word"]] },
   { name := "word"
     alternatives :=
       [[rule "num-literal"], [rule "comparison-operator"], [rule "attribute-value-placeholder"],
        [rule "attribute-path-name"], [rule "block-comment"], [rule "line-comment"],
        [rule "comment-mark"], [rule "escaped-char"], [rule "string-literal-dq"],
        [rule "string-literal-sq"], [rule "quote-dq"], [rule "quote-sq"], [word],
        [ofType Token.punctuationType], [number], [doubleQuoted], [singleQuoted],
        [ofType Token.blankType], [ofType "WS-BLOCK-COMMENT"], [ofType "WS-LINE-COMMENT"]] },
   { name := "num-literal", alternatives := [[rule "fractional-literal"], [rule "int-literal"]] },
   { name := "int-literal", alternatives := [[optionalRule "sign", number]] },
   { name := "fractional-literal"
     alternatives := [[optionalRule "sign", number, rule "fractional-part"]] },
   { name := "fractional-part", alternatives := [[literal ".", number]] },
   Rule.sign,
   { name := "comparison-operator"
     alternatives :=
       [[literal "<", literal "="], [literal "<", literal ">"], [literal ">", literal "="],
        [literal ">"], [literal "="], [literal "<"]] },
   { name := "attribute-value-placeholder", alternatives := [[literal ":", word]] },
   { name := "attribute-path-name"
     alternatives := [[word, rule "path-step", many "path-step"]] },
   { name := "path-step", alternatives := [[literal ".", word]] },
   { name := "block-comment"
     alternatives := [[literal "/*", untilLiteral "*/", literal "*/"]] },
   { name := "line-comment"
     alternatives := [[literal "--", untilLiteral "\n"], [literal "//", untilLiteral "\n"]] },
   { name := "comment-mark"
     alternatives :=
       [[literal "/", literal "*"], [literal "*", literal "/"], [literal "/", literal "/"],
        [literal "-", literal "-"]] },
   { name := "escaped-char"
     alternatives :=
       [[literal "\\", literal "\\"], [literal "\\", literal "\""],
        [literal "\\", literal "\x27"]] },
   { name := "quote-dq", alternatives := [[literal "\""]] },
   { name := "quote-sq", alternatives := [[literal "\x27"]] },
   { name := "string-literal-dq"
     alternatives := [[ofType "QUOTE-DQ", untilType "QUOTE-DQ", ofType "QUOTE-DQ"]] },
   { name := "string-literal-sq"
     alternatives := [[ofType "QUOTE-SQ", untilType "QUOTE-SQ", ofType "QUOTE-SQ"]] }]

/-- The grammar of words. -/
def wordGrammar : Grammar where
  rules := wordRules
  root := "words"

/-- The token types that words become. -/
def wordTypes : List (String × String) :=
  [("num-literal", "NUMLIT"),
   ("comparison-operator", "PUNCT"),
   ("attribute-value-placeholder", "IDENT"),
   ("attribute-path-name", "IDENT"),
   ("block-comment", "WS-BLOCK-COMMENT"),
   ("line-comment", "WS-LINE-COMMENT"),
   ("comment-mark", "PUNCT"),
   ("escaped-char", "PUNCT"),
   ("quote-dq", "QUOTE-DQ"),
   ("quote-sq", "QUOTE-SQ"),
   ("string-literal-dq", "STRLIT-DQ"),
   ("string-literal-sq", "STRLIT-SQ")]

/-- The word builder of the query language. -/
def words : WordBuilder where
  grammar := wordGrammar
  wordTypes := wordTypes

end GrammarKit.Query
