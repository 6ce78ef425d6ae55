import GrammarKit.Description.Rule
import GrammarKit.Language

/-!
# Described grammars, word builders and languages

A whole language as data.  All rules are checked before the grammar is, and a word
builder before the grammar that uses it.

## Main Definitions

* `DescribedGrammar`, `GrammarDraft.check` — a grammar with the evaluators of its rules,
  and the grammar of a description
* `WordsDraft.check` — the word builder of a description
* `LanguageDraft.check` — the language of a description
-/

namespace GrammarKit.Description

/-- An entry of a list of rules. -/
inductive EntryDraft where
  | rule (d : RuleDraft)
  | datum (d : Datum)

/-- A grammar before it is checked. -/
structure GrammarDraft where
  rules : List EntryDraft
  root : Option Datum := none

/-- An entry whose rule has been checked. -/
inductive Entry where
  | rule (r : DescribedRule)
  | datum (d : Datum)

/-- Checks the rule of an entry. -/
def EntryDraft.check : EntryDraft → Except Error Entry
  | .rule d => Entry.rule <$> d.check
  | .datum d => .ok (.datum d)

/-- The rules of entries.  The first entry that is no rule, or whose rule is named as
one before it, is an error. -/
def collect (seen : List String) : List Entry → Except Error (List DescribedRule)
  | [] => .ok []
  | .datum d :: _ => .error (.notARule d)
  | .rule r :: rest =>
    if r.name ∈ seen then .error (.grammar (.duplicateRule r.name))
    else return r :: (← collect (seen ++ [r.name]) rest)

/-- The root among the declared names: the first of them, unless a datum names
another. -/
def rootOf (declared : List String) (root : Option Datum) : Except Error String :=
  match declared, root with
  | [], _ => .error (.grammar .noRules)
  | first :: _, none => .ok first
  | _, some (.text name) =>
    if name ∈ declared then .ok name else .error (.grammar (.undeclaredRoot name))
  | _, some root => .error (if root.isKey then .rootNotAName root else .notAKey root)

/-- A grammar with the rules that it was described by. -/
structure DescribedGrammar where
  grammar : Grammar
  rules : List DescribedRule

namespace DescribedGrammar

/-- The described rule of a name. -/
def find? (d : DescribedGrammar) (name : String) : Option DescribedRule :=
  d.rules.find? (·.name = name)

/-- The evaluator that the rule of a name has. -/
def evaluator? (d : DescribedGrammar) (name : String) : Option NamedEvaluator :=
  (d.find? name).bind DescribedRule.evaluator

/-- The rule that a datum names.  Only a text can name one. -/
def rule? (d : DescribedGrammar) (name : Datum) : Except Error DescribedRule :=
  match name with
  | .text s =>
    match d.find? s with
    | some r => .ok r
    | none => .error (lookupError name)
  | _ => .error (lookupError name)

/-- Each of some data with the rule that it names.  A datum that cannot be looked up is
an error of the whole. -/
def lookups (d : DescribedGrammar) (names : List Datum) :
    Except Error (List (Except Error DescribedRule)) :=
  names.mapM fun name => if name.isKey then .ok (d.rule? name) else .error (.notAKey name)

end DescribedGrammar

/-- The grammar of a draft.  The root is checked first, then the references of each
rule, and then whether a rule is left recursive. -/
def GrammarDraft.check (d : GrammarDraft) : Except Error DescribedGrammar := do
  let entries ← d.rules.mapM EntryDraft.check
  let described ← collect [] entries
  let declared := described.map DescribedRule.name
  let root ← rootOf declared d.root
  let rules ← described.mapM (DescribedRule.resolve declared)
  let grammar ← (Grammar.ofRules rules (some root)).mapError .grammar
  return ⟨grammar, described⟩

/-- The token types of word rules, and the word rules if they are named. -/
structure WordTypesDraft where
  types : List (String × String)
  wordRules : Option (List String) := none

/-- A word builder before it is checked. -/
structure WordsDraft where
  grammar : GrammarDraft
  wordTypes : WordTypesDraft
  blankTypes : List String := Token.blankTypes
  maxPasses : Option Int := none
  maxDepth : Int := 256
  debug : Bool := false

/-- The token types of the word rules of a grammar. -/
def WordTypesDraft.check (d : WordTypesDraft) (g : Grammar) :
    Except Error (List (String × String)) :=
  (WordBuilder.wordTypesOf g d.types d.wordRules).mapError .words

/-- The word builder of a draft. -/
def WordsDraft.check (d : WordsDraft) : Except Error WordBuilder := do
  let described ← d.grammar.check
  let wordTypes ← d.wordTypes.check described.grammar
  return {
    grammar := described.grammar
    wordTypes := wordTypes
    blankTypes := d.blankTypes
    maxPasses := d.maxPasses
    maxDepth := d.maxDepth
    debug := d.debug }

/-- A language before it is checked. -/
structure LanguageDraft where
  grammar : GrammarDraft
  profile : Profile := .canonical
  words : Option WordsDraft := none
  skipBlanks : Bool := true
  blankTypes : List String := Token.blankTypes
  maxDepth : Int := 256
  debug : Bool := false

/-- The language of a draft. -/
def LanguageDraft.check (d : LanguageDraft) : Except Error (Language ValueError Value) := do
  let words ← d.words.mapM WordsDraft.check
  let described ← d.grammar.check
  return {
    parser := {
      grammar := described.grammar
      skipBlanks := d.skipBlanks
      blankTypes := d.blankTypes
      maxDepth := d.maxDepth
      debug := d.debug }
    profile := d.profile
    words := words
    evaluator? := fun name => (described.evaluator? name).map NamedEvaluator.evaluate }

end GrammarKit.Description
