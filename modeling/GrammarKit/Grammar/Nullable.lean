import GrammarKit.Grammar.Rule

/-!
# Nullable rules

A rule is nullable if it can match without consuming a token: some alternative has
nullable elements only.  An element is nullable if it is optional or repeatable, if it
is an inverse terminal, which may end at once, or if it refers to a nullable rule.

## Main Definitions

* `Element.nullable`, `Rule.nullable` — whether an element or a rule is nullable, given
  some rules that are
* `nullableNames` — the names of all nullable rules

## Design Notes

The set is found by sweeps over the rules, each of which adds the rules that are
nullable by what is known so far.  A sweep that adds nothing is the last, so there are
no more sweeps than rules.
-/

namespace GrammarKit

/-- Whether an element can match nothing, given the rules known to be nullable. -/
def Element.nullable (known : List String) : Element → Bool
  | .reference name optional repeatable => optional || repeatable || name ∈ known
  | .terminal t optional => optional || t.inverse

/-- Whether all elements of some alternative are nullable. -/
def Rule.nullable (known : List String) (r : Rule) : Bool :=
  r.alternatives.any fun production => production.all (Element.nullable known)

namespace Nullable

/-- Adds a rule if it is nullable by what is known. -/
def learn (known : List String) (r : Rule) : List String :=
  if r.name ∈ known then known
  else if r.nullable known then known ++ [r.name]
  else known

/-- One sweep over the rules; a rule sees what the rules before it have added. -/
def sweep (rules : List Rule) (known : List String) : List String :=
  rules.foldl learn known

/-- Sweeps until nothing is added, at most the given number of times. -/
def sweeps (rules : List Rule) : Nat → List String → List String
  | 0, known => known
  | n + 1, known =>
    let next := sweep rules known
    if next.length = known.length then known else sweeps rules n next

end Nullable

/-- The names of the nullable rules. -/
def nullableNames (rules : List Rule) : List String :=
  Nullable.sweeps rules rules.length []

end GrammarKit
