import GrammarKit.Grammar.Nullable

/-!
# Left recursion

A rule refers to another at its left if some production reaches the reference after
nullable elements only: the second rule is then tried at the same token as the first.  A
cycle of such references would let a rule be tried at one token without end.

## Main Definitions

* `leftTargets` — the rules that a rule refers to at its left
* `findCycle?` — a cycle of left references, if there is one, by depth-first search
-/

namespace GrammarKit

/-- The rules that a production refers to before any element that must consume a
token. -/
def Production.leftReferences (nullable : List String) : Production → List String
  | [] => []
  | element :: rest =>
    element.target?.toList ++
      (if element.nullable nullable then leftReferences nullable rest else [])

/-- The rules that a rule refers to at its left, in order of first occurrence. -/
def Rule.leftReferences (nullable : List String) (r : Rule) : List String :=
  Rule.distinct (r.alternatives.flatMap (Production.leftReferences nullable))

/-- The rules that the rule of a given name refers to at its left. -/
def leftTargets (rules : List Rule) (name : String) : List String :=
  match rules.find? (·.name = name) with
  | some r => r.leftReferences (nullableNames rules)
  | none => []

namespace LeftRecursion

/-- Depth-first search from a name.  The path leads to the name, `finished` are the
names from which no cycle is reached.  The answer is a cycle, or the names finished now.
No path repeats a name, so a depth of one more than the number of names is never used
up. -/
def visit (targets : String → List String) :
    (depth : Nat) → (path finished : List String) → (name : String) →
      Except (List String) (List String)
  | 0, _, finished, _ => .ok finished
  | depth + 1, path, finished, name => do
    let path := path ++ [name]
    let finished ← (targets name).foldlM
      (fun finished next =>
        if next ∈ path then .error (path.dropWhile (· ≠ next) ++ [next])
        else if next ∈ finished then .ok finished
        else visit targets depth path finished next)
      finished
    .ok (finished ++ [name])

/-- Searches from each name in turn. -/
def search (targets : String → List String) (names : List String) :
    Except (List String) (List String) :=
  names.foldlM
    (fun finished name =>
      if name ∈ finished then .ok finished else visit targets (names.length + 1) [] finished name)
    []

end LeftRecursion

/-- A cycle of left references, from a name back to itself. -/
def findCycle? (rules : List Rule) : Option (List String) :=
  match LeftRecursion.search (leftTargets rules) (rules.map Rule.name) with
  | .ok _ => none
  | .error cycle => some cycle

end GrammarKit
