import GrammarKit.Evaluation
import GrammarKit.Token.Lexer
import GrammarKit.WordBuilder

/-!
# Languages

A language is all that leads from a source to a value: a lexer profile, possibly a word
builder, a parser, and the evaluators of the grammar's rules.

## Main Definitions

* `Language` — the parts of a language
* `Language.tokenize`, `Language.parse`, `Language.evaluate` — from a source to its
  tokens and its term, and from a term to its value
* `Language.debugged` — a language built anew for a trace
-/

namespace GrammarKit

/-- A lexer profile, possibly a word builder, a parser, and evaluators. -/
structure Language (ε α : Type) where
  parser : Parser
  profile : Profile := .canonical
  words : Option WordBuilder := none
  evaluator? : String → Option (Evaluator ε α) := fun _ => none

namespace Language

variable {ε α : Type}

/-- The grammar that sources are parsed under. -/
def grammar (l : Language ε α) : Grammar := l.parser.grammar

/-- The grammar with its evaluators. -/
def semantics (l : Language ε α) : Semantics ε α := ⟨l.grammar, l.evaluator?⟩

/-- Whether any part of the language writes a trace. -/
def traces (l : Language ε α) : Bool :=
  l.parser.debug || (l.words.map WordBuilder.debug).getD false

/-- The tokens of a source, after word building if the language has a word builder. -/
def tokenize (l : Language ε α) (source : String) (raw : Bool) :
    Traced WordBuilder.Error (List Token) := do
  let tokens ← l.profile.tokenize l.parser.debug source
  match l.words with
  | none => return tokens
  | some words => words.build tokens raw

/-- A list of tokens under the root rule. -/
def parseTokens (l : Language ε α) (tokens : List Token) : Traced WordBuilder.Error Term :=
  (l.parser.parse tokens).mapError .fault

/-- A source under the root rule.  A failed term of the word builder is the answer. -/
def parse (l : Language ε α) (source : String) : Traced WordBuilder.Error Term :=
  (l.tokenize source false).recover fun
    | .ok tokens => l.parseTokens tokens
    | .error (.failed term) => return term
    | .error e => Traced.fail e

/-- A rule on a list of tokens from an index on, with the number of tokens it
consumed. -/
def parseRuleTokens (l : Language ε α) (name : String) (tokens : List Token) (start : Nat) :
    Traced WordBuilder.Error (Term × Nat) :=
  (l.parser.parseRule name tokens start).mapError .fault

/-- A rule on a source, from the token of an index on. -/
def parseRule (l : Language ε α) (name : String) (source : String) (start : Nat) :
    Traced WordBuilder.Error (Term × Nat) := do
  let tokens ← l.tokenize source false
  l.parseRuleTokens name tokens start

/-- The value of a term. -/
def evaluate (l : Language ε α) (t : Term) : Except (Evaluation.Error ε) α :=
  Evaluation.evaluate (some l.semantics) l.parser.blankTypes t

/-- The same language with a trace.  The word builder is built anew from its grammar,
word rules, blank types and pass limit, so its own limit on nesting gives way to the
default one. -/
def debugged (l : Language ε α) : Language ε α :=
  { l with
    parser := { l.parser with debug := true }
    words := l.words.map fun b =>
      { grammar := b.grammar
        wordTypes := b.wordTypes
        blankTypes := b.blankTypes
        maxPasses := b.maxPasses
        debug := true } }

end Language

end GrammarKit
