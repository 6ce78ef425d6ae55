import GrammarKit.Grammar.Element

/-!
# Rules

A rule has a name and alternatives, each a production; they are tried in the order in
which they are given.  A rule is valid if it has a name, at least one alternative, no
empty alternative, no reference without a name, and no alternative that begins with a
reference to the rule itself.

## Main Definitions

* `Rule` — a valid rule
* `Rule.references` — the rules that it refers to
* `Rule.render` — the text of a rule
-/

namespace GrammarKit

/-- Whether a production may stand in the rule of the given name. -/
def Production.ValidIn (name : String) (production : Production) : Prop :=
  production ≠ [] ∧ (∀ element ∈ production, element.target? ≠ some "") ∧
    production.head?.bind Element.target? ≠ some name

instance (name : String) (production : Production) : Decidable (production.ValidIn name) :=
  inferInstanceAs (Decidable (_ ∧ _ ∧ _))

/-- Whether a name and alternatives make up a rule. -/
def Rule.Valid (name : String) (alternatives : List Production) : Prop :=
  name ≠ "" ∧ alternatives ≠ [] ∧ ∀ production ∈ alternatives, Production.ValidIn name production

instance (name : String) (alternatives : List Production) :
    Decidable (Rule.Valid name alternatives) :=
  inferInstanceAs (Decidable (_ ∧ _ ∧ _))

/-- A named list of alternatives. -/
structure Rule where
  name : String
  alternatives : List Production
  valid : Rule.Valid name alternatives := by decide +kernel

namespace Rule

/-- A list without its repetitions, in order of first occurrence. -/
def distinct (names : List String) : List String :=
  names.foldl (fun seen name => if name ∈ seen then seen else seen ++ [name]) []

/-- The rules that a rule refers to, in order of first occurrence. -/
def references (r : Rule) : List String :=
  distinct (r.alternatives.flatten.filterMap Element.target?)

/-- The text of a production. -/
def renderProduction (production : Production) : String :=
  " ".intercalate (production.map Element.render)

/-- A name with its alternatives as it is shown in grammars. -/
def renderAlternatives (name : String) (alternatives : List Production) : String :=
  name ++ " ::= " ++ " | ".intercalate (alternatives.map renderProduction)

/-- A rule as it is shown in grammars. -/
def render (r : Rule) : String :=
  renderAlternatives r.name r.alternatives

end Rule

end GrammarKit
