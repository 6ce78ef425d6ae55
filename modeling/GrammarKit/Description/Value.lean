import GrammarKit.Evaluation
import GrammarKit.Number.Numeral

/-!
# Evaluators of described languages

A description names the evaluators of its rules.  There is a fixed set of them, and
their values are texts, integers and lists.

## Main Definitions

* `Value`, `ValueError` — the values, and why there is none
* `NamedEvaluator` — the evaluators that a description can name
* `NamedEvaluator.evaluate` — what each of them does
-/

namespace GrammarKit.Description

/-- A value of a described language. -/
inductive Value where
  | text (s : String)
  | int (n : Int)
  | list (items : List Value)

/-- Why a named evaluator has no value. -/
inductive ValueError where
  /-- The contents are empty. -/
  | missing
  /-- The text spells no integer. -/
  | integer (e : Numeral.IntegerError)
  /-- The evaluator refuses every term. -/
  | refused (text : String)

/-- The wording of an error. -/
def ValueError.message : ValueError → String
  | .missing => "list index out of range"
  | .integer e => e.message
  | .refused text => "bad: " ++ text

/-- The name of the family an error belongs to. -/
def ValueError.label : ValueError → String
  | .missing => "IndexError"
  | .integer _ | .refused _ => "ValueError"

/-- The evaluators that a description can name. -/
inductive NamedEvaluator where
  /-- The text of the term. -/
  | text
  /-- The values of the children. -/
  | contents
  /-- The texts of each child. -/
  | words
  /-- The first value of the children. -/
  | first
  /-- The last value of the children. -/
  | last
  /-- How many values the children have. -/
  | count
  /-- The integer that the text spells. -/
  | int
  /-- Always an error. -/
  | refuse
deriving DecidableEq, Repr

/-- An item of the contents as a value. -/
def Value.ofItem : Item Value → Value
  | .text s => .text s
  | .value v => v

/-- The values of a subject's children. -/
def contentValues (s : Subject ValueError Value) :
    Except (Evaluation.Error ValueError) (List Value) :=
  (·.map Value.ofItem) <$> s.contents

/-- A value, or the error that it is missing. -/
def present : Option Value → Except (Evaluation.Error ValueError) Value
  | some v => .ok v
  | none => .error (.evaluator .missing)

/-- What a named evaluator does. -/
def NamedEvaluator.evaluate : NamedEvaluator → Evaluator ValueError Value
  | .text, s => .ok (.text s.text)
  | .contents, s => Value.list <$> contentValues s
  | .words, s =>
    .ok (.list ((s.term.words s.blankTypes Term.anyName).map fun texts => .list (texts.map .text)))
  | .first, s => do present (← contentValues s).head?
  | .last, s => do present (← contentValues s).getLast?
  | .count, s => do return .int (← contentValues s).length
  | .int, s =>
    match Numeral.integer s.text with
    | .ok n => .ok (.int n)
    | .error e => .error (.evaluator (.integer e))
  | .refuse, s => .error (.evaluator (.refused s.text))

end GrammarKit.Description
