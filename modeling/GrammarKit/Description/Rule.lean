import GrammarKit.Description.Element
import GrammarKit.Description.Value

/-!
# Described rules

A described rule is data that may or may not make up a rule.  Checking it gives the rule
or the first error: the terminals of all alternatives come first, then the rule's name,
then each alternative with its elements in order, and the evaluator last.  A grammar
then resolves the references of its rules.

## Main Definitions

* `RuleDraft` — a rule before it is checked
* `DescribedRule` — a rule whose references are still data, with its evaluator
* `RuleDraft.check` — the rule of a description
* `DescribedRule.resolve` — the rule of a grammar that declares its references
-/

namespace GrammarKit.Description

/-- A list that may turn out to be some other datum. -/
inductive Listed (α : Type) where
  | items (l : List α)
  | other

/-- Applies a check to each item, in order. -/
def Listed.mapM {α β : Type} (f : α → Except Error β) : Listed α → Except Error (Listed β)
  | .items l => .items <$> l.mapM f
  | .other => .ok .other

/-- The evaluator of a rule before it is checked. -/
inductive EvaluatorDraft where
  | absent
  | named (e : NamedEvaluator)
  /-- A datum in the place of an evaluator; only nothing is accepted there. -/
  | datum (d : Datum)

/-- The evaluator of a draft. -/
def EvaluatorDraft.check (rule : String) : EvaluatorDraft → Except Error (Option NamedEvaluator)
  | .absent => .ok none
  | .named e => .ok (some e)
  | .datum .null => .ok none
  | .datum _ => .error (.notAnEvaluator rule)

/-- A rule before it is checked. -/
structure RuleDraft where
  name : Datum
  alternatives : Listed (Listed ElementDraft)
  evaluator : EvaluatorDraft := .absent

/-- A rule whose references are still data, with its evaluator. -/
structure DescribedRule where
  name : String
  alternatives : List (List DescribedElement)
  evaluator : Option NamedEvaluator

namespace DescribedRule

/-- What a rule refers to, in order of first occurrence. -/
def references (r : DescribedRule) : List Datum :=
  Datum.distinct (r.alternatives.flatten.filterMap DescribedElement.target?)

/-- A described rule as it is shown in grammars. -/
def render (r : DescribedRule) : String :=
  Rule.renderAlternatives r.name (r.alternatives.map (·.map DescribedElement.shown))

/-- The rule in a grammar with the declared names.  Once its references are names, a
checked rule can only be refused because it begins with itself. -/
def resolve (declared : List String) (r : DescribedRule) : Except Error Rule := do
  let alternatives ← r.alternatives.mapM (·.mapM (DescribedElement.resolve declared r.name))
  if h : Rule.Valid r.name alternatives then .ok ⟨r.name, alternatives, h⟩
  else .error (.directLeftRecursion r.name)

end DescribedRule

/-- Whether an element refers to the rule of the given name. -/
def refersTo (name : String) : DescribedElement → Bool
  | .reference (.text target) _ _ => target = name
  | _ => false

/-- The production of pieces in the rule of the given name.  It has at least one element
and does not begin with the rule itself. -/
def checkProduction (name : String) : Listed Piece → Except Error (List DescribedElement)
  | .items (first :: rest) => do
    let first ← first.element? name
    let rest ← rest.mapM (Piece.element? name)
    if refersTo name first then .error (.directLeftRecursion name) else .ok (first :: rest)
  | _ => .error (.noAlternatives name)

/-- The productions of alternatives, of which there is at least one. -/
def checkAlternatives (name : String) :
    Listed (Listed Piece) → Except Error (List (List DescribedElement))
  | .items (first :: rest) => (first :: rest).mapM (checkProduction name)
  | _ => .error (.noAlternatives name)

/-- The rule of a draft. -/
def RuleDraft.check (d : RuleDraft) : Except Error DescribedRule := do
  let pieces ← d.alternatives.mapM (Listed.mapM ElementDraft.piece)
  match d.name with
  | .text name =>
    if name = "" then .error (.badRuleName d.name)
    else
      let alternatives ← checkAlternatives name pieces
      let evaluator ← d.evaluator.check name
      .ok ⟨name, alternatives, evaluator⟩
  | _ => .error (.badRuleName d.name)

end GrammarKit.Description
