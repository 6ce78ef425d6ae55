import GrammarKit.Calculator.Grammar
import GrammarKit.Calculator.Value
import GrammarKit.Language
import GrammarKit.Number.Numeral

/-!
# Calculation

The values of calculator expressions.  Integers are exact, a quotient or a literal with
a point is a floating-point number, and operators of one level are applied from left to
right.

## Main Definitions

* `Calculator.Error` — why an expression has no value
* `Calculator.evaluators` — the evaluators of the calculator's rules
* `Calculator.language` — the calculator
-/

namespace GrammarKit.Calculator

/-- Why an expression has no value. -/
inductive Error where
  /-- A literal has blanks inside. -/
  | splitLiteral (what text : String)
  | integer (e : Numeral.IntegerError)
  | badFloat (text : String)
  /-- A part of an expression is not there. -/
  | missing
  | operator (e : OperatorError)

/-- The wording of an error. -/
def Error.message : Error → String
  | .splitLiteral what text => "invalid text for " ++ what ++ ": " ++ Text.quoted text
  | .integer e => e.message
  | .badFloat text => Numeral.badFloatMessage text
  | .missing => "list index out of range"
  | .operator e => e.message

/-- The name of the family an error belongs to. -/
def Error.label : Error → String
  | .splitLiteral _ _ | .integer _ | .badFloat _ => "ValueError"
  | .missing => "IndexError"
  | .operator e => e.label

/-- An outcome of evaluation. -/
abbrev Result := Except (Evaluation.Error Error)

/-- A failure of an evaluator. -/
def fail {α : Type} (e : Error) : Result α := .error (.evaluator e)

/-- An item of the contents as a value. -/
def Value.ofItem : Item Value → Value
  | .text s => .text s
  | .value v => v

/-- Items of the contents as values, the first of them at the given index. -/
def valuesFrom (index : Nat) : List (Item Value) → List Value
  | [] => []
  | item :: rest => (Value.ofItem item).within index :: valuesFrom (index + 1) rest

/-- The values of a subject's children. -/
def contentValues (s : Subject Error Value) : Result (List Value) :=
  valuesFrom 0 <$> s.contents

/-- The value at an index. -/
def item (values : List Value) (index : Nat) : Result Value :=
  match values[index]? with
  | some v => .ok v
  | none => fail .missing

/-- The values of a list, with the items of inner lists in their place. -/
def flatten (values : List Value) : List Value :=
  values.flatMap fun
    | .list _ items => items
    | v => [v]

/-- Applies an operator; what is no operator changes nothing. -/
def applyOperator (left operator right : Value) : Result Value :=
  match operator with
  | .text sign =>
    match Operator.ofSign? sign with
    | some operator =>
      (operator.apply left (right.grownWith left)).mapError (.evaluator ∘ .operator)
    | none => .ok left
  | _ => .ok left

/-- Applies operators with their right operands from left to right. -/
def foldOperators (left : Value) : List Value → Result Value
  | operator :: right :: rest => do
    let next ← applyOperator left operator right
    foldOperators next rest
  | _ => .ok left

/-- A first operand and the operators that follow it. -/
def evaluateChain : Evaluator Error Value := fun s => do
  let items := flatten (← contentValues s)
  let first ← item items 0
  foldOperators first (items.drop 1)

/-- An operator with its right operand, as a list. -/
def evaluateRest : Evaluator Error Value := fun s =>
  Value.list [] <$> contentValues s

/-- Whether a value is the opening parenthesis. -/
def isOpening : Value → Bool
  | .text s => s == "("
  | _ => false

/-- A literal, or the value between parentheses. -/
def evaluatePrimary : Evaluator Error Value := fun s => do
  let items ← contentValues s
  let first ← item items 0
  if isOpening first then item items 1 else .ok first

/-- The text of a literal, which has no blanks inside. -/
def strictText (what : String) (s : Subject Error Value) : Result String :=
  if s.text.toList.any Text.isSpacing then fail (.splitLiteral what s.text) else .ok s.text

/-- A literal with a point or an exponent. -/
def evaluateFloat : Evaluator Error Value := fun s => do
  let text ← strictText "floating-constant" s
  match Numeral.float? text with
  | some x => .ok (.number (.float x))
  | none => fail (.badFloat text)

/-- An integer literal. -/
def evaluateInteger : Evaluator Error Value := fun s => do
  let text ← strictText "integer-constant" s
  match Numeral.integer text with
  | .ok n => .ok (.number (.int n))
  | .error e => fail (.integer e)

/-- The text of a sign. -/
def evaluateSign : Evaluator Error Value := fun s => .ok (.text s.text)

/-- The evaluators of the rules that have one. -/
def evaluators : List (String × Evaluator Error Value) :=
  [("additive-expression", evaluateChain),
   ("additive-expression-rest", evaluateRest),
   ("multiplicative-expression", evaluateChain),
   ("multiplicative-expression-rest", evaluateRest),
   ("primary-expression", evaluatePrimary),
   ("floating-constant", evaluateFloat),
   ("integer-constant", evaluateInteger),
   ("sign", evaluateSign)]

/-- The calculator. -/
def language : Language Error Value where
  parser := { grammar := grammar }
  evaluator? := fun name => evaluators.lookup name

end GrammarKit.Calculator
