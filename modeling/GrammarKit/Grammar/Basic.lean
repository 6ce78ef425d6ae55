import GrammarKit.Grammar.LeftRecursion

/-!
# Grammars

A grammar is a list of rules with distinct names and a root among them, in which every
referenced rule is declared and no rule is left recursive.  The checks are made once,
when the grammar is built.

## Main Definitions

* `Grammar.Error` — why rules do not make up a grammar
* `Grammar.findDefect?` — the first defect, in the order in which defects are looked for
* `Grammar.ofRules` — the grammar of the given rules and root
* `Grammar.rule?` — the rule of a name
-/

namespace GrammarKit

/-- Why rules do not make up a grammar. -/
inductive Grammar.Error where
  | duplicateRule (name : String)
  | noRules
  | undeclaredRoot (name : String)
  | undeclaredReference (name source : String)
  | leftRecursion (cycle : List String)
deriving DecidableEq, Repr

/-- The wording of an error. -/
def Grammar.Error.message : Grammar.Error → String
  | .duplicateRule name => "Duplicate syntax rule " ++ name
  | .noRules => "Grammar has no rules"
  | .undeclaredRoot name => "Root rule " ++ Text.quoted name ++ " is not declared"
  | .undeclaredReference name source =>
    name ++ " is not declared (referenced from syntax rule " ++ source ++ ")"
  | .leftRecursion cycle =>
    "Left recursion is found in syntax rule " ++ cycle.headD "" ++ ": " ++
      " -> ".intercalate cycle

namespace Grammar

/-- The first name that has occurred before. -/
def findDuplicate? (seen : List String) : List String → Option String
  | [] => none
  | name :: rest => if name ∈ seen then some name else findDuplicate? (seen ++ [name]) rest

/-- The first reference to a rule that is not declared, with the rule that makes it. -/
def findUndeclared? (rules : List Rule) : Option (String × String) :=
  rules.findSome? fun r =>
    (r.references.find? fun name => name ∉ rules.map Rule.name).map fun name => (name, r.name)

/-- The first defect of rules and a root. -/
def findDefect? (rules : List Rule) (root : String) : Option Error :=
  match findDuplicate? [] (rules.map Rule.name) with
  | some name => some (.duplicateRule name)
  | none =>
    if rules.isEmpty then some .noRules
    else if root ∉ rules.map Rule.name then some (.undeclaredRoot root)
    else
      match findUndeclared? rules with
      | some (name, source) => some (.undeclaredReference name source)
      | none => (findCycle? rules).map .leftRecursion

end Grammar

/-- Rules without a defect, and the one that a parse begins with. -/
structure Grammar where
  rules : List Rule
  root : String
  sound : Grammar.findDefect? rules root = none := by decide +kernel

namespace Grammar

/-- The grammar of the given rules; the root is the first rule unless another is
named. -/
def ofRules (rules : List Rule) (root : Option String) : Except Error Grammar :=
  let root := root.getD ((rules.map Rule.name).headD "")
  match h : findDefect? rules root with
  | none => .ok ⟨rules, root, h⟩
  | some e => .error e

/-- The rule of a name. -/
def rule? (g : Grammar) (name : String) : Option Rule :=
  g.rules.find? (·.name = name)

/-- Whether a rule is declared. -/
def declares (g : Grammar) (name : String) : Bool :=
  (g.rule? name).isSome

/-- The names of the rules, in order. -/
def names (g : Grammar) : List String :=
  g.rules.map Rule.name

/-- The names of the nullable rules. -/
def nullable (g : Grammar) : List String :=
  nullableNames g.rules

/-- A grammar as text, one rule a line. -/
def render (g : Grammar) : String :=
  "\n".intercalate (g.rules.map Rule.render)

/-- The message about a rule that is not declared. -/
def undeclaredMessage (name : String) : String :=
  "FATAL: No syntax rule for " ++ Text.quoted name

end Grammar

end GrammarKit
