import GrammarKit.Query.Words

/-!
# The clauses of queries

The grammar of a query over words: an optional list of columns, a table, a condition on
the key, an optional further condition and an optional limit.

## Main Definitions

* `Query.clauseRules`, `Query.clauseGrammar` — the rules, and the grammar with its root
-/

namespace GrammarKit.Query

open Element (rule optionalRule many literal)

/-- The names of attribute types. -/
def attributeTypes : List String :=
  ["S", "SS", "N", "NS", "B", "BS", "BOOL", "NULL", "L", "M"]

/-- The rules of clauses; the first is the root. -/
def clauseRules : List Rule :=
  [{ name := "sqlish-query"
     alternatives :=
       [[optionalRule "select-clause", rule "from-clause", rule "where-key-clause",
         optionalRule "filter-clause", optionalRule "limit-clause"]] },
   { name := "select-clause", alternatives := [[literal "SELECT", rule "key-list"]] },
   { name := "key-list", alternatives := [[rule "column-name", many "key-list-rest"]] },
   { name := "key-list-rest", alternatives := [[literal ",", rule "column-name"]] },
   { name := "column-name", alternatives := [[word]] },
   { name := "from-clause", alternatives := [[literal "FROM", rule "table-name"]] },
   { name := "table-name", alternatives := [[word]] },
   { name := "where-key-clause", alternatives := [[literal "WHERE", rule "condition-expression"]] },
   { name := "filter-clause", alternatives := [[literal "FILTER", rule "condition-expression"]] },
   { name := "condition-expression", alternatives := [[rule "or-expression"]] },
   { name := "or-expression", alternatives := [[rule "and-expression", many "or-rest"]] },
   { name := "or-rest", alternatives := [[literal "OR", rule "and-expression"]] },
   { name := "and-expression", alternatives := [[rule "compare-expression", many "and-rest"]] },
   { name := "and-rest", alternatives := [[literal "AND", rule "compare-expression"]] },
   { name := "compare-expression"
     alternatives :=
       [[literal "(", rule "condition-expression", literal ")"],
        [literal "NOT", rule "compare-expression"],
        [rule "function"],
        [word, rule "comparator", rule "value"],
        [word, literal "BETWEEN", rule "between-range"],
        [word, literal "IN", literal "(", rule "value-list", literal ")"]] },
   { name := "comparator"
     alternatives :=
       [[literal "<="], [literal "<>"], [literal ">="], [literal "="], [literal "<"],
        [literal ">"]] },
   { name := "function"
     alternatives :=
       [[literal "attribute_exists", literal "(", rule "path", literal ")"],
        [literal "attribute_not_exists", literal "(", rule "path", literal ")"],
        [literal "attribute_type", literal "(", rule "path", literal ",", rule "attribute-type",
         literal ")"],
        [literal "begins_with", literal "(", rule "path", literal ",", rule "value", literal ")"],
        [literal "contains", literal "(", rule "path", literal ",", rule "value", literal ")"],
        [literal "size", literal "(", rule "path", literal ")"]] },
   { name := "path", alternatives := [[word]] },
   { name := "between-range", alternatives := [[rule "value", literal "AND", rule "value"]] },
   { name := "value-list", alternatives := [[rule "value", many "value-list-rest"]] },
   { name := "value-list-rest", alternatives := [[literal ",", rule "value"]] },
   { name := "value", alternatives := [[number], [doubleQuoted], [singleQuoted], [word]] },
   { name := "attribute-type", alternatives := attributeTypes.map fun t => [literal t] },
   { name := "limit-clause", alternatives := [[literal "LIMIT", rule "limit-count"]] },
   { name := "limit-count", alternatives := [[number]] }]

/-- The grammar of clauses. -/
def clauseGrammar : Grammar where
  rules := clauseRules
  root := "sqlish-query"

end GrammarKit.Query
