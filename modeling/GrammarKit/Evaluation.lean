import GrammarKit.Grammar.Basic
import GrammarKit.Term

/-!
# Evaluation

The value of a term comes from the evaluator of its rule.  A rule without an evaluator
passes on the value of its only part, if that part is a term.

## Main Definitions

* `Part` — a child of a term as evaluation sees it
* `Subject`, `Evaluator` — a term with its evaluated parts, and a value from it
* `Semantics` — a grammar with the evaluators of its rules
* `Evaluation.evaluate` — the value of a term, in the given semantics or in none

## Design Notes

The parts of a term are evaluated by recursion on its tree, and an evaluator gets them
with the term.  A part that failed matters only to an evaluator that asks for the
contents.
-/

namespace GrammarKit

/-- Why a term has no value. -/
inductive Evaluation.Error (ε : Type) where
  /-- The term has a failure. -/
  | failedTerm (rule message : String)
  /-- There is no semantics. -/
  | unbound (rule : String)
  /-- The grammar does not declare the term's rule. -/
  | undeclared (rule : String)
  /-- The rule has no evaluator, and the term is more than one inner term. -/
  | noEvaluator (rule : String)
  /-- An evaluator failed. -/
  | evaluator (e : ε)

/-- A child of a term as evaluation sees it. -/
inductive Part (ε α : Type) where
  | blank
  | word (text : String)
  | phrase (value : Except (Evaluation.Error ε) α)

/-- A value among the contents of a term. -/
inductive Item (α : Type) where
  /-- The text of a token. -/
  | text (s : String)
  /-- The value of an inner term. -/
  | value (a : α)
deriving Repr

/-- A term with its evaluated parts and the token types that count as blank. -/
structure Subject (ε α : Type) where
  term : Term
  blankTypes : List String
  parts : List (Part ε α)

/-- A value from a subject. -/
abbrev Evaluator (ε α : Type) := Subject ε α → Except (Evaluation.Error ε) α

/-- A grammar with the evaluators of its rules. -/
structure Semantics (ε α : Type) where
  grammar : Grammar
  evaluator? : String → Option (Evaluator ε α)

namespace Part

variable {ε α : Type}

/-- Whether a part is not a blank. -/
def isSolid : Part ε α → Bool
  | .blank => false
  | _ => true

/-- The values of parts in order, without blanks; the first error counts. -/
def contents : List (Part ε α) → Except (Evaluation.Error ε) (List (Item α))
  | [] => .ok []
  | .blank :: rest => contents rest
  | .word text :: rest => return .text text :: (← contents rest)
  | .phrase value :: rest => do
    let a ← value
    return .value a :: (← contents rest)

end Part

namespace Subject

variable {ε α : Type}

/-- The values of the parts of a subject. -/
def contents (s : Subject ε α) : Except (Evaluation.Error ε) (List (Item α)) :=
  Part.contents s.parts

/-- The text of a subject. -/
def text (s : Subject ε α) : String := s.term.text

/-- The value of the only part of a subject. -/
def onlyPhrase (s : Subject ε α) : Except (Evaluation.Error ε) α :=
  match s.parts.filter Part.isSolid with
  | [.phrase value] => value
  | _ => .error (.noEvaluator s.term.rule)

/-- The value of a subject: a failed term has none, then the semantics is asked. -/
def evaluate (semantics : Option (Semantics ε α)) (s : Subject ε α) :
    Except (Evaluation.Error ε) α :=
  match s.term.failure with
  | some failure => .error (.failedTerm s.term.rule failure.message)
  | none =>
    match semantics with
    | none => .error (.unbound s.term.rule)
    | some sem =>
      if sem.grammar.declares s.term.rule then
        match sem.evaluator? s.term.rule with
        | some evaluator => evaluator s
        | none => s.onlyPhrase
      else .error (.undeclared s.term.rule)

end Subject

namespace Evaluation

variable {ε α : Type}

mutual

/-- A tree as a part: a node is evaluated after its children. -/
def partOf (semantics : Option (Semantics ε α)) (blanks : List String) : Tree → Part ε α
  | .leaf t => if t.isBlank blanks then .blank else .word t.text
  | .node rule children failure =>
    .phrase (Subject.evaluate semantics
      ⟨⟨rule, children, failure⟩, blanks, partsIn semantics blanks children⟩)

/-- The parts of trees. -/
def partsIn (semantics : Option (Semantics ε α)) (blanks : List String) :
    List Tree → List (Part ε α)
  | [] => []
  | t :: rest => partOf semantics blanks t :: partsIn semantics blanks rest

end

/-- A term with its evaluated parts. -/
def subject (semantics : Option (Semantics ε α)) (blanks : List String) (t : Term) :
    Subject ε α :=
  ⟨t, blanks, partsIn semantics blanks t.children⟩

/-- The values of a term's children, without blanks. -/
def contents (semantics : Option (Semantics ε α)) (blanks : List String) (t : Term) :
    Except (Error ε) (List (Item α)) :=
  (subject semantics blanks t).contents

/-- The value of a term. -/
def evaluate (semantics : Option (Semantics ε α)) (blanks : List String) (t : Term) :
    Except (Error ε) α :=
  (subject semantics blanks t).evaluate semantics

/-- The wording of an error, given the wording of the evaluators' own errors. -/
def Error.message (inner : ε → String) : Error ε → String
  | .failedTerm rule message => "Cannot evaluate the failed term " ++ rule ++ ": " ++ message
  | .unbound rule => "Term " ++ rule ++ " is not bound to a grammar"
  | .undeclared rule => Grammar.undeclaredMessage rule
  | .noEvaluator rule => "FATAL: no evaluator for the rule named " ++ rule
  | .evaluator e => inner e

/-- The name of the family an error belongs to, given those of the evaluators' own
errors. -/
def Error.label (inner : ε → String) : Error ε → String
  | .failedTerm _ _ | .unbound _ | .noEvaluator _ => "EvaluationError"
  | .undeclared _ => "GrammarError"
  | .evaluator e => inner e

end Evaluation

end GrammarKit
