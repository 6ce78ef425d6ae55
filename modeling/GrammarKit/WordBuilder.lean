import GrammarKit.Parser.Basic

/-!
# Word building

A word builder parses a list of tokens under a grammar of words and folds the span of
each word rule into one token.  It does so again with the result until a pass changes
nothing.

## Main Definitions

* `WordBuilder` — a grammar, the token type of each word rule, and the options of the
  passes
* `WordBuilder.rebuildIn` — the tokens of a parse with each outermost word folded
* `WordBuilder.build` — passes until nothing changes, at most a given number
-/

namespace GrammarKit

/-- A grammar of words and the token types they become. -/
structure WordBuilder where
  grammar : Grammar
  /-- The word rules, each with the type of the token it becomes. -/
  wordTypes : List (String × String)
  /-- The token types that are left out of the result. -/
  blankTypes : List String := Token.blankTypes
  /-- How many passes are made at most; by default two for each token and two more. -/
  maxPasses : Option Int := none
  /-- How deeply rules may nest. -/
  maxDepth : Int := 256
  /-- Whether a trace is written. -/
  debug : Bool := false

namespace WordBuilder

/-- Why word rules and token types do not make up a word builder. -/
inductive Defect where
  | undeclaredRule (name : String)
  | noTokenType (name : String)
deriving DecidableEq, Repr

/-- The wording of a defect. -/
def Defect.message : Defect → String
  | .undeclaredRule name => "Word rule " ++ Text.quoted name ++ " is not declared in the grammar"
  | .noTokenType name => "Word rule " ++ Text.quoted name ++ " has no target token type"

/-- The token type of a word rule of the grammar. -/
def typeOf (g : Grammar) (types : List (String × String)) (name : String) :
    Except Defect (String × String) :=
  if g.declares name then
    match types.lookup name with
    | some type => .ok (name, type)
    | none => .error (.noTokenType name)
  else .error (.undeclaredRule name)

/-- The word rules with their token types, checked in code point order.  Unless word
rules are named, all rules that have a token type are. -/
def wordTypesOf (g : Grammar) (types : List (String × String)) (wordRules : Option (List String)) :
    Except Defect (List (String × String)) :=
  (Text.sortedSet (wordRules.getD (types.map Prod.fst))).mapM (typeOf g types)

/-- Why no words were built. -/
inductive Error where
  /-- A pass had no answer. -/
  | fault (f : Parser.Fault)
  /-- The tokens of a pass do not match the grammar. -/
  | failed (term : Term)
  /-- The passes were used up and the last one still changed something. -/
  | unsettled (limit : Int)

/-- The message about a failed term: its failure and where it is. -/
def failedMessage (t : Term) : String :=
  match t.failure with
  | none => "word building failed"
  | some failure =>
    match failure.token? with
    | none => failure.message
    | some token => s!"{failure.message} at {token.line}:{token.column}"

/-- The wording of an error. -/
def Error.message : Error → String
  | .fault f => f.message
  | .failed term => failedMessage term
  | .unsettled limit => "Word building did not converge within " ++ toString limit ++ " passes"

/-- The parser of the passes: blanks are tokens like all others. -/
def parser (b : WordBuilder) : Parser where
  grammar := b.grammar
  skipBlanks := false
  blankTypes := b.blankTypes
  maxDepth := b.maxDepth
  debug := b.debug

/-- The token of a word: the type of its rule, the text of all its leaves, the position
of the first.  A word without leaves has none. -/
def fold? (type : String) : List Token → Option Token
  | [] => none
  | first :: rest => some ⟨type, Token.join (first :: rest), first.line, first.column⟩

mutual

/-- The tokens of a tree with each outermost word folded. -/
def rebuild (b : WordBuilder) : Tree → List Token
  | .leaf t => [t]
  | .node rule children _ =>
    match b.wordTypes.lookup rule with
    | some type => (fold? type (Tree.tokensIn children)).toList
    | none => rebuildIn b children

/-- The tokens of trees with each outermost word folded. -/
def rebuildIn (b : WordBuilder) : List Tree → List Token
  | [] => []
  | t :: rest => rebuild b t ++ rebuildIn b rest

end

/-- One pass: the tokens after folding each word. -/
def pass (b : WordBuilder) (tokens : List Token) : Traced Error (List Token) := do
  let term ← (b.parser.parse tokens).mapError .fault
  if term.ok then return b.rebuildIn term.children else Traced.fail (.failed term)

/-- Passes until one changes nothing.  `left` is how many may follow, `number` counts
from one. -/
def settle (b : WordBuilder) (limit : Int) :
    (left number : Nat) → List Token → Traced Error (List Token)
  | 0, _, _ => Traced.fail (.unsettled limit)
  | left + 1, number, tokens => do
    let next ← b.pass tokens
    Traced.note b.debug fun _ =>
      s!"words pass {number}: {tokens.length} -> {next.length} tokens"
    if next = tokens then return tokens else settle b limit left (number + 1) next

/-- How many passes are made at most on a list of tokens. -/
def limit (b : WordBuilder) (tokens : List Token) : Int :=
  b.maxPasses.getD (2 * tokens.length + 2)

/-- The words of a list of tokens; blanks are kept only if `raw` says so. -/
def build (b : WordBuilder) (tokens : List Token) (raw : Bool) : Traced Error (List Token) := do
  let limit := b.limit tokens
  let words ← b.settle limit limit.toNat 1 tokens
  return if raw then words else words.filter fun t => !t.isBlank b.blankTypes

end WordBuilder

end GrammarKit
