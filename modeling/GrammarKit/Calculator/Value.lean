import GrammarKit.Number.Basic

/-!
# Values of expressions

The values that parts of an expression have, and the operators on them.  Operators are
made for numbers.  A sum also joins texts and lists, and a product repeats a text or a
list; every other combination is an error that names the kinds of the operands.

## Main Definitions

* `Calculator.Value`, `Calculator.Value.kind` — a number, a text or a list of values,
  and which of these it is
* `Calculator.Operator` — the four operators
* `Calculator.OperatorError` — why an operator has no result
* `Calculator.Operator.apply` — the result of an operator

## Design Notes

A list grows in place: what is added to a list is seen wherever that list stands, and it
stands more than once if a list around it was repeated.  So each list carries the place
where it was made, a path of indices that `Value.within` makes longer on the way up;
lists of one place are one list, and `Value.grownWith` brings a later occurrence up to
date.
-/

namespace GrammarKit.Calculator

/-- A value of a part of an expression. -/
inductive Value where
  | number (n : Number)
  /-- An operator, a parenthesis or a sign. -/
  | text (s : String)
  /-- An operator and its right operand.  The place is the path of indices that leads to
  the part of the expression where the list was made. -/
  | list (place : List Nat) (items : List Value)

/-- What a value is. -/
inductive Kind where
  | int
  | float
  | text
  | list
deriving DecidableEq, Repr

/-- The name of a kind. -/
def Kind.name : Kind → String
  | .int => "int"
  | .float => "float"
  | .text => "str"
  | .list => "list"

namespace Value

/-- What a value is. -/
def kind : Value → Kind
  | .number (.int _) => .int
  | .number (.float _) => .float
  | .text _ => .text
  | .list _ _ => .list

mutual

/-- A value as a part of the expression around it sees it, which has it at the given
index. -/
def within (index : Nat) : Value → Value
  | .list place items => .list (index :: place) (allWithin index items)
  | v => v

/-- Each value of a list as the part of the expression around it sees it. -/
def allWithin (index : Nat) : List Value → List Value
  | [] => []
  | v :: rest => within index v :: allWithin index rest

end

/-- A number has no place. -/
@[simp] theorem within_number (index : Nat) (n : Number) :
    within index (.number n) = .number n := by
  simp [within]

/-- A text has no place. -/
@[simp] theorem within_text (index : Nat) (s : String) : within index (.text s) = .text s := by
  simp [within]

/-- An operand when `left` is what has been reached: if both are the same list, the
operand has grown as well. -/
def grownWith (operand left : Value) : Value :=
  match operand, left with
  | .list place _, .list leftPlace _ => if place = leftPlace then left else operand
  | _, _ => operand

end Value

/-- An operator of an expression. -/
inductive Operator where
  | add
  | subtract
  | multiply
  | divide
deriving DecidableEq, Repr

namespace Operator

/-- The sign of an operator. -/
def sign : Operator → String
  | .add => "+"
  | .subtract => "-"
  | .multiply => "*"
  | .divide => "/"

/-- The operator of a sign. -/
def ofSign? (s : String) : Option Operator :=
  [.add, .subtract, .multiply, .divide].find? (·.sign = s)

/-- An operator is found by its sign. -/
@[simp] theorem ofSign?_sign (o : Operator) : ofSign? o.sign = some o := by
  cases o <;> decide

/-- An operator on two numbers. -/
def onNumbers : Operator → Number → Number → Except Number.Error Number
  | .add => Number.add
  | .subtract => Number.sub
  | .multiply => Number.mul
  | .divide => Number.div

end Operator

/-- Why an operator has no result. -/
inductive OperatorError where
  | arithmetic (e : Number.Error)
  /-- The operator has no meaning for operands of these kinds. -/
  | undefined (operator : Operator) (left right : Kind)
  /-- What is added to a text is no text. -/
  | notAText (kind : Kind)
  /-- What is added to a list has no items. -/
  | noItems (kind : Kind)
  /-- What a text or a list is repeated by is no integer. -/
  | notACount (kind : Kind)
  /-- A text or a list is repeated more often than a position can count. -/
  | countTooLarge
  /-- A repeated text has more characters than a position can count. -/
  | textTooLong
  /-- A repeated text or list is larger than any memory. -/
  | outOfMemory
deriving DecidableEq, Repr

namespace OperatorError

/-- The wording of an error. -/
def message : OperatorError → String
  | .arithmetic e => e.message
  | .undefined operator left right =>
    "unsupported operand type(s) for " ++ operator.sign ++ "=: '" ++ left.name ++ "' and '" ++
      right.name ++ "'"
  | .notAText kind => "can only concatenate str (not \"" ++ kind.name ++ "\") to str"
  | .noItems kind => "'" ++ kind.name ++ "' object is not iterable"
  | .notACount kind => "can't multiply sequence by non-int of type '" ++ kind.name ++ "'"
  | .countTooLarge => "cannot fit 'int' into an index-sized integer"
  | .textTooLong => "repeated string is too long"
  | .outOfMemory => ""

/-- The name of the family an error belongs to. -/
def label : OperatorError → String
  | .arithmetic .divisionByZero | .arithmetic .floatDivisionByZero => "ZeroDivisionError"
  | .arithmetic .quotientTooLarge | .arithmetic .integerTooLarge => "OverflowError"
  | .undefined _ _ _ | .notAText _ | .noItems _ | .notACount _ => "TypeError"
  | .countTooLarge | .textTooLong => "OverflowError"
  | .outOfMemory => "MemoryError"

end OperatorError

/-! ### Repetition -/

/-- The largest position in a text or a list: positions are signed words of 64 bits. -/
def maxPosition : Nat := 0x7fffffffffffffff

/-- The largest size of a text or a list that is made. -/
def maxSize : Nat := 0xffffffffff

/-- How often a value asks to repeat something; a negative integer asks for nothing. -/
def Value.count : Value → Except OperatorError Nat
  | .number (.int n) =>
    if -(maxPosition : Int) - 1 ≤ n ∧ n ≤ maxPosition then .ok n.toNat else .error .countTooLarge
  | v => .error (.notACount v.kind)

/-- A list after itself, as often as the count says. -/
def repeated {α : Type} (count : Nat) (items : List α) : List α :=
  if items.isEmpty then [] else (List.replicate count items).flatten

/-- A repeated text. -/
def repeatText (s : String) (count : Nat) : Except OperatorError Value :=
  let size := s.length * count
  if maxPosition < size then .error .textTooLong
  else if maxSize < size then .error .outOfMemory
  else .ok (.text (String.ofList (repeated count s.toList)))

/-- A repeated list. -/
def repeatList (place : List Nat) (items : List Value) (count : Nat) : Except OperatorError Value :=
  if maxSize < items.length * count then .error .outOfMemory
  else .ok (.list place (repeated count items))

/-! ### Results -/

/-- The sum of operands that are not both numbers.  A text takes a text, and a list
takes the items of a list or the characters of a text. -/
def join : Value → Value → Except OperatorError Value
  | .text s, .text t => .ok (.text (s ++ t))
  | .text _, right => .error (.notAText right.kind)
  | .list place items, .list _ more => .ok (.list place (items ++ more))
  | .list place items, .text s =>
    .ok (.list place (items ++ s.toList.map fun c => .text (String.singleton c)))
  | .list _ _, right => .error (.noItems right.kind)
  | left, right => .error (.undefined .add left.kind right.kind)

/-- The product of operands that are not both numbers.  The left operand is repeated if
it can be, and otherwise the right one, which makes a new list. -/
def repeatBy : Value → Value → Except OperatorError Value
  | .text s, right => do repeatText s (← right.count)
  | .list place items, right => do repeatList place items (← right.count)
  | left, .text s => do repeatText s (← left.count)
  | left, .list _ items => do repeatList [] items (← left.count)
  | left, right => .error (.undefined .multiply left.kind right.kind)

/-- The result of an operator. -/
def Operator.apply (operator : Operator) (left right : Value) : Except OperatorError Value :=
  match left, right with
  | .number a, .number b => ((operator.onNumbers a b).map .number).mapError .arithmetic
  | _, _ =>
    match operator with
    | .add => join left right
    | .multiply => repeatBy left right
    | _ => .error (.undefined operator left.kind right.kind)

/-- On numbers an operator is the arithmetic one. -/
theorem Operator.apply_number (operator : Operator) (a b : Number) :
    operator.apply (.number a) (.number b) =
      ((operator.onNumbers a b).map .number).mapError .arithmetic :=
  rfl

end GrammarKit.Calculator
