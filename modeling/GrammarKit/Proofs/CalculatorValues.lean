import GrammarKit.Proofs.AliasRules
import GrammarKit.Proofs.CalculatorRuns
import GrammarKit.Proofs.Numerals

/-!
# Values of the calculator's trees

What the trees of the calculator's rules evaluate to, rule by rule.  Blanks among the
children have no effect, a rule without an evaluator passes on the value of its only
part, and a chain of operands folds its operators from the left.

## Main Definitions

* `Calculator.valueOf` — the value of a rule with the given children
* `Calculator.readInteger` — the number that the text of a literal spells
* `Calculator.Follows` — the operators and operands that follow the first one, with
  the values they are read as

## Main Statements

* `Calculator.valueOf_alias` — a rule that stands for another has its value
* `Calculator.valueOf_integer` — an integer literal is read from its text
* `Calculator.valueOf_parenthesised` — parentheses do not change a value
* `Calculator.valueOf_chain` — a chain applies its operators from left to right

## Design Notes

A literal may have too many digits to be read.  So the lemmas are equations between
outcomes, and say with the values also which part is the first to fail.
-/

namespace GrammarKit.Calculator

open GrammarKit.Parser

/-- The value of a rule with the given children. -/
def valueOf (rule : String) (children : List Tree) : Result Value :=
  language.evaluate ⟨rule, children, none⟩

/-- The children of a rule as evaluation sees them. -/
def parts (ts : List Tree) : List (Part Error Value) :=
  Evaluation.partsIn (some language.semantics) Token.blankTypes ts

/-- The values of the children of a rule, without blanks. -/
def contents (ts : List Tree) : Result (List (Item Value)) :=
  Part.contents (parts ts)

variable {name : String} {gap gap' : List Token} {ts us children : List Tree} {t : Token}

/-! ### Contents -/

theorem parts_blank (blank : t.isBlank Token.blankTypes = true) (ts : List Tree) :
    parts (.leaf t :: ts) = .blank :: parts ts := by
  rw [parts, Evaluation.partsIn, Evaluation.partOf, if_pos blank]
  rfl

theorem parts_word (solid : t.isBlank Token.blankTypes = false) (ts : List Tree) :
    parts (.leaf t :: ts) = .word t.text :: parts ts := by
  rw [parts, Evaluation.partsIn, Evaluation.partOf, if_neg (by simp [solid])]
  rfl

theorem parts_node (name : String) (children ts : List Tree) :
    parts (.node name children none :: ts) = .phrase (valueOf name children) :: parts ts := by
  rw [parts, Evaluation.partsIn, Evaluation.partOf]
  rfl

theorem contents_nil : contents [] = .ok [] := rfl

/-- Blanks have no value. -/
theorem contents_gap (blank : parser.Gap gap) (ts : List Tree) :
    contents (gap.map Tree.leaf ++ ts) = contents ts := by
  induction gap with
  | nil => rfl
  | cons t rest ih =>
      obtain ⟨here, others⟩ := List.forall_mem_cons.mp blank
      rw [List.map_cons, List.cons_append, contents, parts_blank here, Part.contents]
      exact ih others

theorem contents_leaf (solid : t.isBlank Token.blankTypes = false) (ts : List Tree) :
    contents (.leaf t :: ts) = (Item.text t.text :: ·) <$> contents ts := by
  rw [contents, parts_word solid, Part.contents]
  rfl

theorem contents_node (name : String) (children ts : List Tree) :
    contents (.node name children none :: ts) =
      valueOf name children >>= fun v => (Item.value v :: ·) <$> contents ts := by
  rw [contents, parts_node, Part.contents]
  rfl

/-! ### Rules -/

/-- A rule with an evaluator has the value that the evaluator gives. -/
theorem valueOf_eq {evaluator : Evaluator Error Value}
    (declared : grammar.declares name = true)
    (found : evaluators.lookup name = some evaluator) (children : List Tree) :
    valueOf name children =
      evaluator ⟨⟨name, children, none⟩, Token.blankTypes, parts children⟩ :=
  @Evaluation.evaluate_own _ _ language.semantics _ ⟨name, children, none⟩ _ rfl declared found

/-- **A rule that stands for another has its value**, whatever blanks are around
it. -/
theorem valueOf_alias {inner : String} (declared : grammar.declares name = true)
    (silent : evaluators.lookup name = none) (blank : parser.Gap gap) (blank' : parser.Gap gap') :
    valueOf name (gap.map Tree.leaf ++ .node inner ts none :: gap'.map Tree.leaf) =
      valueOf inner ts := by
  have only : (gap.map Tree.leaf ++ .node inner ts none :: gap'.map Tree.leaf).filter
      (Tree.isSolid parser.blankTypes) = [Term.toTree ⟨inner, ts, none⟩] := by
    rw [List.filter_append, Tree.filter_isSolid_leaves blank, List.nil_append,
      List.filter_cons_of_pos rfl, Tree.filter_isSolid_leaves blank']
    rfl
  exact @Evaluation.evaluate_through _ _ language.semantics _ ⟨name, _, none⟩ _ rfl declared silent
    only

/-- The values that an evaluator reads off the children. -/
theorem contentValues_eq (name : String) (children : List Tree) :
    contentValues ⟨⟨name, children, none⟩, Token.blankTypes, parts children⟩ =
      valuesFrom 0 <$> contents children := rfl

/-! ### Literals -/

/-- The text of a literal that has no blanks inside. -/
theorem strictText_eq {what : String} {s : Subject Error Value}
    (solid : ∀ c ∈ s.text.toList, Text.isSpacing c = false) :
    strictText what s = .ok s.text := by
  rw [strictText, if_neg]
  simpa using solid

/-- The number that the text of an integer literal spells, or the failure to read it. -/
def readInteger (text : String) : Result Number :=
  match Numeral.integer text with
  | .ok n => .ok (.int n)
  | .error e => fail (.integer e)

theorem evaluateInteger_eq {s : Subject Error Value}
    (solid : ∀ c ∈ s.text.toList, Text.isSpacing c = false) :
    evaluateInteger s = Value.number <$> readInteger s.text := by
  simp only [evaluateInteger, strictText_eq solid, bind, Except.bind, readInteger]
  cases Numeral.integer s.text with
  | ok n => rfl
  | error e => rfl

/-- **An integer literal is read from its text.** -/
theorem valueOf_integer
    (solid : ∀ c ∈ (Token.join (Tree.tokensIn ts)).toList, Text.isSpacing c = false) :
    valueOf "integer-constant" ts =
      Value.number <$> readInteger (Token.join (Tree.tokensIn ts)) := by
  rw [@valueOf_eq "integer-constant" evaluateInteger (by decide) rfl]
  exact evaluateInteger_eq solid

/-! ### Operands -/

variable {r : Result Number}

theorem valueOf_primary_of_literal (value : valueOf "literal" ts = Value.number <$> r) :
    valueOf "primary-expression" [.node "literal" ts none] = Value.number <$> r := by
  rw [@valueOf_eq "primary-expression" evaluatePrimary (by decide) rfl, evaluatePrimary,
    contentValues_eq, contents_node, value, contents_nil]
  cases r with
  | ok n => rfl
  | error e => rfl

/-- **Parentheses do not change a value.** -/
theorem valueOf_parenthesised {o c : Token} (opening : o.text = "(")
    (solid : o.isBlank Token.blankTypes = false) (solid' : c.isBlank Token.blankTypes = false)
    (blank : parser.Gap gap) (blank' : parser.Gap gap')
    (value : valueOf "expression" ts = Value.number <$> r) :
    valueOf "primary-expression" (.leaf o :: (gap.map Tree.leaf ++
      .node "expression" ts none :: (gap'.map Tree.leaf ++ [.leaf c]))) =
        Value.number <$> r := by
  rw [@valueOf_eq "primary-expression" evaluatePrimary (by decide) rfl, evaluatePrimary,
    contentValues_eq, contents_leaf solid, contents_gap blank, contents_node, value,
    contents_gap blank', contents_leaf solid', contents_nil, opening]
  cases r with
  | ok n => rfl
  | error e => rfl

/-! ### Chains -/

section Chains

variable {l : Level} {values : Result (List Value)}

theorem chain_evaluator (l : Level) : grammar.declares l.chainRule = true ∧
    evaluators.lookup l.chainRule = some evaluateChain := by
  cases l <;> exact ⟨by decide, rfl⟩

theorem round_evaluator (l : Level) : grammar.declares l.roundRule = true ∧
    evaluators.lookup l.roundRule = some evaluateRest := by
  cases l <;> exact ⟨by decide, rfl⟩

/-- An operator with its right operand is a list of the two. -/
theorem valueOf_round {o : Token} (solid : o.isBlank Token.blankTypes = false)
    (blank : parser.Gap gap) (value : valueOf l.operandRule ts = Value.number <$> r) :
    valueOf l.roundRule (.leaf o :: (gap.map Tree.leaf ++ [.node l.operandRule ts none])) =
      (fun n => .list [] [.text o.text, .number n]) <$> r := by
  obtain ⟨declared, found⟩ := round_evaluator l
  rw [valueOf_eq declared found, evaluateRest, contentValues_eq, contents_leaf solid,
    contents_gap blank, contents_node, value, contents_nil]
  cases r with
  | ok n => simp [valuesFrom, Value.ofItem, Functor.map, Except.map, bind, Except.bind]
  | error e => rfl

/-- Trees of operators and operands with the values they are read as, wherever they
stand among the children. -/
def Follows (ts : List Tree) (values : Result (List Value)) : Prop :=
  ∀ index, (fun items => flatten (valuesFrom index items)) <$> contents ts = values

theorem follows_nil : Follows [] (.ok []) :=
  fun _ => rfl

theorem Follows.cons {sign : String}
    (value : valueOf name children = (fun n => .list [] [.text sign, .number n]) <$> r)
    (blank : parser.Gap gap) (h : Follows ts values) :
    Follows (gap.map Tree.leaf ++ .node name children none :: ts)
      (r >>= fun n => (.text sign :: .number n :: ·) <$> values) := by
  intro index
  have rest := h (index + 1)
  rw [contents_gap blank, contents_node, value]
  cases r with
  | error e => rfl
  | ok n =>
      rw [← rest]
      cases contents ts with
      | error e => rfl
      | ok items =>
          simp [valuesFrom, Value.ofItem, Value.within, Value.allWithin, flatten, Functor.map,
            Except.map, bind, Except.bind]

/-- **A chain applies its operators from left to right**, beginning with its first
operand. -/
theorem valueOf_chain (value : valueOf l.operandRule ts = Value.number <$> r)
    (follows : Follows us values) :
    valueOf l.chainRule (.node l.operandRule ts none :: us) =
      r >>= fun n => values >>= fun vs => foldOperators (.number n) vs := by
  obtain ⟨declared, found⟩ := chain_evaluator l
  have rest := follows 1
  rw [valueOf_eq declared found, evaluateChain, contentValues_eq, contents_node, value]
  cases r with
  | error e => rfl
  | ok n =>
      rw [← rest]
      cases contents us with
      | error e => rfl
      | ok items =>
          have first : flatten (valuesFrom 0 (.value (.number n) :: items)) =
              .number n :: flatten (valuesFrom 1 items) := by
            simp [valuesFrom, Value.ofItem, flatten]
          show (item (flatten (valuesFrom 0 (.value (.number n) :: items))) 0 >>= fun first =>
            foldOperators first
              ((flatten (valuesFrom 0 (.value (.number n) :: items))).drop 1)) = _
          rw [first]
          rfl

/-- An operator is applied to what has been reached. -/
theorem foldOperators_number {operator : Operator} {a b c : Number} {values : List Value}
    (result : operator.onNumbers a b = .ok c) :
    foldOperators (.number a) (.text operator.sign :: .number b :: values) =
      foldOperators (.number c) values := by
  have applied : applyOperator (.number a) (.text operator.sign) (.number b) =
      .ok (.number c) := by
    simp only [applyOperator, Operator.ofSign?_sign, Value.grownWith, Operator.apply_number, result]
    rfl
  rw [foldOperators, applied]
  rfl

end Chains

end GrammarKit.Calculator
