import GrammarKit.Language
import GrammarKit.Number.Numeral
import GrammarKit.Query.Clauses

/-!
# Queries

A query names a table and gives the texts of its clauses.  It is read off the term of a
source: the words of a condition are joined by blanks, those of the other clauses
without any.

## Main Definitions

* `Query`, `Query.params` — the clauses of a query, and those that are present by
  parameter name
* `Query.language` — the query language
* `Query.ofSource` — the query that a source spells
-/

namespace GrammarKit

/-- The clauses of a query. -/
structure Query where
  table : Option String := none
  keyCondition : Option String := none
  projection : Option String := none
  filter : Option String := none
  limit : Option Int := none
deriving DecidableEq, Repr

namespace Query

/-- The value of a query parameter. -/
inductive Param where
  | text (s : String)
  | count (n : Int)
deriving DecidableEq, Repr

/-- The clauses that are present, under the names of the query parameters. -/
def params (q : Query) : List (String × Param) :=
  [("TableName", q.table.map .text),
   ("KeyConditionExpression", q.keyCondition.map .text),
   ("ProjectionExpression", q.projection.map .text),
   ("FilterExpression", q.filter.map .text),
   ("Limit", q.limit.map .count)].filterMap fun (name, param) => param.map (name, ·)

/-- Why a term gives no query. -/
inductive Error where
  /-- The limit is not an integer. -/
  | badLimit (text : String)
deriving DecidableEq, Repr

/-- The wording of an error. -/
def Error.message : Error → String
  | .badLimit text => "invalid LIMIT count " ++ Text.quoted text

/-- The texts of the first part with a rule name in a clause, joined by a separator. -/
def joined (blanks : List String) (clause : Option Term) (part separator : String) :
    Option String :=
  clause.bind fun c => (c.words blanks part).head?.map separator.intercalate

/-- The limit that a text spells. -/
def limitOf : Option String → Except Error (Option Int)
  | none => .ok none
  | some text =>
    match Numeral.int? text with
    | some n => .ok (some n)
    | none => .error (.badLimit text)

/-- The query of a term, clause by clause. -/
def project (blanks : List String) (t : Term) : Except Error Query := do
  let limit ← limitOf (joined blanks (t.find? "limit-clause") "limit-count" "")
  return {
    table := joined blanks (t.find? "from-clause") "table-name" ""
    keyCondition := joined blanks (t.find? "where-key-clause") "condition-expression" " "
    projection := joined blanks (t.find? "select-clause") "key-list" ""
    filter := joined blanks (t.find? "filter-clause") "condition-expression" " "
    limit := limit }

/-- The evaluator of the root rule. -/
def evaluateQuery : Evaluator Error Query := fun s =>
  (project s.blankTypes s.term).mapError .evaluator

/-- The query language. -/
def language : Language Error Query where
  parser := { grammar := clauseGrammar }
  profile := .standalone
  words := some words
  evaluator? := fun name => if name = clauseGrammar.root then some evaluateQuery else none

/-- Why a source gives no query. -/
inductive SourceError where
  /-- The source has no term. -/
  | words (e : WordBuilder.Error)
  /-- The source is not a query. -/
  | rejected (report : String)
  | evaluation (e : Evaluation.Error Error)

/-- The query that a source spells. -/
def ofSource (source : String) : Except SourceError Query :=
  match (language.parse source).outcome with
  | .error e => .error (.words e)
  | .ok term =>
    if term.ok then (language.evaluate term).mapError .evaluation
    else .error (.rejected (term.report (some source)))

end Query

end GrammarKit
