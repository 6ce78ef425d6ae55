import GrammarKit.Proofs.CalculatorLiterals

/-!
# How the calculator fails

An accepted expression has a value unless its arithmetic has none, or unless one of
its literals cannot be read: it has blanks inside, or it is an integer with too many
digits.  Evaluation itself always finds what it looks for: a rule without an evaluator
has only one part, a chain has a first operand, and a parenthesis has something behind
it.

## Main Definitions

* `Calculator.LiteralIn` — a literal of some kind, among trees or below them
* `Calculator.Split`, `Calculator.Long` — one with blanks inside, and an integer with
  too many digits
* `Calculator.Judged` — an outcome that fails for arithmetic or for such a literal
  alone, and does fail if there is a split literal
* `Calculator.Sound` — a rule whose value is judged so

## Main Statements

* `Calculator.Judged.bind` — outcomes are judged one after the other
* `Calculator.sound_step` — each rule is sound if the nodes among its children are
* `Calculator.sound_of_makes` — so every node that has a value is sound
* `Calculator.evaluate_fails` — what evaluating an accepted expression may come to

## Design Notes

A split literal fails only when its turn comes, and arithmetic may have failed before.
So an outcome is judged by two things at once: for which reasons it may fail, and
whether it must.  Values are judged with it, since an operator is safe on numbers
alone.

An integer with too many digits need not fail: as an exponent it is part of a literal
that is read as a whole, and such a literal has no limit.
-/

namespace GrammarKit.Calculator

open GrammarKit.Parser

variable {α β : Type} {Good Good' : α → Prop} {Better : β → Prop}

/-! ### Literals that cannot be read -/

/-- **A literal of some kind**, among some trees or anywhere below them. -/
def LiteralIn (Kind : Term → Prop) (ts : List Tree) : Prop :=
  ∃ rule ∈ literalRules, ∃ node ∈ Tree.findAllIn rule ts, Kind node

instance (Kind : Term → Prop) [DecidablePred Kind] (ts : List Tree) :
    Decidable (LiteralIn Kind ts) :=
  inferInstanceAs (Decidable (∃ rule ∈ literalRules, ∃ node ∈ Tree.findAllIn rule ts, Kind node))

/-- **A literal with blanks inside**, among some trees or anywhere below them. -/
def Split (ts : List Tree) : Prop :=
  LiteralIn Spaced ts

instance (ts : List Tree) : Decidable (Split ts) :=
  inferInstanceAs (Decidable (LiteralIn Spaced ts))

/-- **An integer with too many digits**, among some trees or anywhere below them. -/
def Long (ts : List Tree) : Prop :=
  LiteralIn LongInteger ts

instance (ts : List Tree) : Decidable (Long ts) :=
  inferInstanceAs (Decidable (LiteralIn LongInteger ts))

section LiteralIn

variable {Kind : Term → Prop} {ts us : List Tree} {name : String} {children : List Tree}

theorem literalIn_append : LiteralIn Kind (ts ++ us) ↔ LiteralIn Kind ts ∨ LiteralIn Kind us := by
  simp only [LiteralIn, Tree.findAllIn_eq_flatMap, List.flatMap_append, List.mem_append,
    or_and_right, exists_or, and_or_left]

theorem literalIn_cons {t : Tree} :
    LiteralIn Kind (t :: ts) ↔ LiteralIn Kind [t] ∨ LiteralIn Kind ts :=
  @literalIn_append Kind [t] ts

@[simp] theorem not_literalIn_nil : ¬ LiteralIn Kind [] := by
  rintro ⟨rule, -, node, mem, -⟩
  rw [Tree.findAllIn] at mem
  cases mem

@[simp] theorem not_literalIn_leaf (t : Token) : ¬ LiteralIn Kind [.leaf t] := by
  rintro ⟨rule, -, node, mem, -⟩
  rw [Tree.findAllIn, Tree.findAll, Tree.findAllIn] at mem
  cases mem

@[simp] theorem not_literalIn_leaves (gap : List Token) :
    ¬ LiteralIn Kind (gap.map Tree.leaf) := by
  induction gap with
  | nil => exact not_literalIn_nil
  | cons t rest ih =>
      rw [List.map_cons, literalIn_cons]
      exact not_or.mpr ⟨not_literalIn_leaf t, ih⟩

/-- The literals of a node that is none itself are those among its children. -/
theorem literalIn_node (other : name ∉ literalRules) :
    LiteralIn Kind [.node name children none] ↔ LiteralIn Kind children := by
  have found : ∀ rule ∈ literalRules,
      Tree.findAllIn rule [.node name children none] = Tree.findAllIn rule children := by
    intro rule mem
    have different : name ≠ rule := fun same => other (same ▸ mem)
    rw [Tree.findAllIn, Tree.findAll, Tree.findAllIn, if_neg different, List.nil_append,
      List.append_nil]
  constructor
  · rintro ⟨rule, mem, node, inside, kind⟩
    exact ⟨rule, mem, node, found rule mem ▸ inside, kind⟩
  · rintro ⟨rule, mem, node, inside, kind⟩
    exact ⟨rule, mem, node, found rule mem ▸ inside, kind⟩

/-- A literal is found where it stands. -/
theorem literalIn_literal (isLiteral : name ∈ literalRules)
    (kind : Kind ⟨name, children, none⟩) : LiteralIn Kind [.node name children none] := by
  refine ⟨name, isLiteral, ⟨name, children, none⟩, ?_, kind⟩
  rw [Tree.findAllIn, Tree.findAll, if_pos rfl]
  exact List.mem_cons_self

/-- A literal is split where it has blanks inside, since all that is below it is part of
its text. -/
theorem split_literal (isLiteral : name ∈ literalRules) :
    Split [.node name children none] ↔ Spaced ⟨name, children, none⟩ := by
  refine ⟨?_, literalIn_literal isLiteral⟩
  rintro ⟨rule, -, node, mem, c, inside, spacing⟩
  obtain ⟨-, k, stands⟩ := Tree.exists_nodeAt_of_findAllIn mem 0
  refine ⟨c, ?_, spacing⟩
  rw [Term.text, Token.toList_join, List.mem_flatMap] at inside ⊢
  obtain ⟨t, below, here⟩ := inside
  have whole := stands.tokens_subset below
  rw [Tree.tokensIn, Tree.tokensIn, List.append_nil] at whole
  exact ⟨t, whole, here⟩

/-- Trees with the same literals, whatever these are like. -/
def SameLiterals (ts us : List Tree) : Prop :=
  ∀ Kind, LiteralIn Kind ts ↔ LiteralIn Kind us

end LiteralIn

/-! ### Judged outcomes -/

section Outcomes

variable {ts us : List Tree}

/-- **An outcome that fails for arithmetic or for a literal alone** that stands among
some trees or below them and cannot be read.  If one of these literals is split it does
fail, and if it does not the value is good. -/
def Judged (ts : List Tree) (Good : α → Prop) : Result α → Prop
  | .ok a => ¬ Split ts ∧ Good a
  | .error e => (∃ reason, e = .evaluator (.operator (.arithmetic reason))) ∨
      (Split ts ∧ ∃ what text, e = .evaluator (.splitLiteral what text)) ∨
      Long ts ∧ ∃ k, e = .evaluator (.integer (.tooManyDigits k))

theorem judged_ok {a : α} (good : Good a) : Judged [] Good (.ok a) :=
  ⟨not_literalIn_nil, good⟩

namespace Judged

theorem congr {x : Result α} (h : Judged ts Good x) (same : SameLiterals ts us) :
    Judged us Good x := by
  have split : Split ts ↔ Split us := same Spaced
  have long : Long ts ↔ Long us := same LongInteger
  cases x with
  | ok a => exact ⟨mt split.mpr h.1, h.2⟩
  | error e => exact h.imp_right fun h => h.imp (.imp_left split.mp) (.imp_left long.mp)

theorem imp {x : Result α} (h : Judged ts Good x) (better : ∀ a, Good a → Good' a) :
    Judged ts Good' x := by
  cases x with
  | ok a => exact ⟨h.1, better a h.2⟩
  | error e => exact h

/-- A failure remains one where there are more trees. -/
theorem mono {e : Evaluation.Error Error} (h : Judged ts Good (.error e))
    (more : ∀ Kind, LiteralIn Kind ts → LiteralIn Kind us) : Judged us Better (.error e) :=
  h.imp_right fun h => h.imp (.imp_left (more Spaced)) (.imp_left (more LongInteger))

/-- **Outcomes are judged one after the other.** -/
theorem bind {x : Result α} {f : α → Result β} (h : Judged ts Good x)
    (next : ∀ a, Good a → Judged us Better (f a)) : Judged (ts ++ us) Better (x >>= f) := by
  cases x with
  | error e => exact h.mono fun Kind here => literalIn_append.mpr (Or.inl here)
  | ok a =>
      have here := next a h.2
      show Judged (ts ++ us) Better (f a)
      cases same : f a with
      | ok b =>
          rw [same] at here
          exact ⟨fun split => (literalIn_append.mp split).elim h.1 here.1, here.2⟩
      | error e =>
          rw [same] at here
          exact here.mono fun Kind there => literalIn_append.mpr (Or.inr there)

/-- What is made of a good value. -/
theorem map {x : Result α} {f : α → β} (h : Judged ts Good x)
    (better : ∀ a, Good a → Better (f a)) : Judged ts Better (f <$> x) := by
  cases x with
  | ok a => exact ⟨h.1, better a h.2⟩
  | error e => exact h

end Judged

end Outcomes

/-! ### Contents -/

section Contents

variable {ts children : List Tree} {gap : List Token} {t : Token} {name : String}
variable {Fit : List (Item Value) → Prop} {Fair : Value → Prop}

theorem judged_nil : Judged [] (· = []) (contents []) :=
  judged_ok rfl

theorem judged_gap (blank : parser.Gap gap) (h : Judged ts Fit (contents ts)) :
    Judged (gap.map Tree.leaf ++ ts) Fit (contents (gap.map Tree.leaf ++ ts)) := by
  rw [contents_gap blank]
  exact h.congr fun Kind => by simp [literalIn_append]

theorem judged_leaf (solid : t.isBlank Token.blankTypes = false)
    (h : Judged ts Fit (contents ts)) :
    Judged (.leaf t :: ts) (fun items => ∃ rest, items = .text t.text :: rest ∧ Fit rest)
      (contents (.leaf t :: ts)) := by
  rw [contents_leaf solid]
  refine (h.map fun rest fit => ⟨rest, rfl, fit⟩).congr fun Kind => ?_
  simp [@literalIn_cons Kind ts]

theorem judged_node (value : Judged [.node name children none] Fair (valueOf name children))
    (h : Judged ts Fit (contents ts)) :
    Judged (.node name children none :: ts)
      (fun items => ∃ v rest, items = .value v :: rest ∧ Fair v ∧ Fit rest)
      (contents (.node name children none :: ts)) := by
  rw [contents_node]
  exact value.bind fun v fair => h.map fun rest fit => ⟨v, rest, rfl, fair, fit⟩

end Contents

/-! ### Rules -/

/-- A number. -/
def IsNumber (v : Value) : Prop :=
  ∃ n, v = .number n

/-- An operator with a number for its right operand. -/
def IsPair (v : Value) : Prop :=
  ∃ (operator : Operator) (n : Number), v = .list [] [.text operator.sign, .number n]

/-- The rules that are evaluated, and what their values are.  The real part of a literal
and its sign are never asked for a value, because a literal is read from its text. -/
def valued : List (String × (Value → Prop)) :=
  [("calc", IsNumber), ("expression", IsNumber), ("additive-expression", IsNumber),
   ("additive-expression-rest", IsPair), ("multiplicative-expression", IsNumber),
   ("multiplicative-expression-rest", IsPair), ("unary-expression", IsNumber),
   ("primary-expression", IsNumber), ("literal", IsNumber), ("floating-constant", IsNumber),
   ("integer-constant", IsNumber)]

/-- The value of a rule with the given children is judged. -/
def JudgedAt (Fair : Value → Prop) (name : String) (children : List Tree) : Prop :=
  Judged [.node name children none] Fair (valueOf name children)

/-- **A rule whose value is judged**, if it is asked for one. -/
def Sound (name : String) (children : List Tree) : Prop :=
  ∀ Fair, valued.lookup name = some Fair → JudgedAt Fair name children

section Rules

variable {name inner : String} {tokens gap gap' : List Token} {ts children : List Tree}
variable {l : Level} {o c : Token} {Fair : Value → Prop}

/-- A rule that stands for another is judged with it. -/
theorem judged_alias (declared : grammar.declares name = true)
    (silent : evaluators.lookup name = none) (other : name ∉ literalRules)
    (blank : parser.Gap gap) (blank' : parser.Gap gap')
    (h : JudgedAt Fair inner ts) :
    JudgedAt Fair name (gap.map Tree.leaf ++ .node inner ts none :: gap'.map Tree.leaf) := by
  rw [JudgedAt, valueOf_alias declared silent blank blank']
  refine h.congr fun Kind => ?_
  rw [literalIn_node other, literalIn_append, @literalIn_cons Kind (gap'.map Tree.leaf)]
  simp

/-! #### Literals -/

theorem strictText_spaced {what : String} {s : Subject Error Value} (spaced : Spaced s.term) :
    strictText what s = fail (.splitLiteral what s.text) := by
  rw [strictText, if_pos]
  exact List.any_eq_true.mpr spaced

/-- A literal with blanks inside has no value. -/
theorem valueOf_spaced (isLiteral : name ∈ literalRules) (spaced : Spaced ⟨name, children, none⟩) :
    ∃ what text, valueOf name children = fail (.splitLiteral what text) := by
  have failed : ∀ what, strictText what
      ⟨⟨name, children, none⟩, Token.blankTypes, parts children⟩ = _ :=
    fun what => strictText_spaced spaced
  simp only [literalRules, List.mem_cons, List.not_mem_nil, or_false] at isLiteral
  rcases isLiteral with rfl | rfl
  · rw [@valueOf_eq "floating-constant" evaluateFloat (by decide) rfl, evaluateFloat, failed]
    exact ⟨_, _, rfl⟩
  · rw [@valueOf_eq "integer-constant" evaluateInteger (by decide) rfl, evaluateInteger, failed]
    exact ⟨_, _, rfl⟩

/-- **A literal with blanks inside fails**, and any other is a number or an integer with
too many digits. -/
theorem judged_literal (fits : ∀ t ∈ tokens, Profile.canonical.Fits t)
    (made : parser.Makes tokens name children) (isLiteral : name ∈ literalRules) :
    JudgedAt IsNumber name children := by
  by_cases spaced : Spaced ⟨name, children, none⟩
  · obtain ⟨what, text, failed⟩ := valueOf_spaced isLiteral spaced
    rw [JudgedAt, failed]
    exact Or.inr (Or.inl ⟨literalIn_literal isLiteral spaced, what, text, rfl⟩)
  · rcases exists_valueOf_literal fits made isLiteral spaced with ⟨n, value⟩ | ⟨long, k, failed⟩
    · rw [JudgedAt, value]
      exact ⟨mt (split_literal isLiteral).mp spaced, n, rfl⟩
    · rw [JudgedAt, failed]
      exact Or.inr (Or.inr ⟨literalIn_literal isLiteral long, k, rfl⟩)

/-! #### Operands -/

/-- A rule whose evaluator goes by its contents is judged with them. -/
theorem judged_evaluated {evaluator : Evaluator Error Value} {f : List Value → Result Value}
    {Fit : List (Item Value) → Prop} (declared : grammar.declares name = true)
    (found : evaluators.lookup name = some evaluator) (other : name ∉ literalRules)
    (reads : ∀ s, evaluator s = contentValues s >>= f)
    (items : Judged children Fit (contents children))
    (next : ∀ items, Fit items → Judged [] Fair (f (valuesFrom 0 items))) :
    JudgedAt Fair name children := by
  have values : Judged children (fun values => Judged [] Fair (f values))
      (contentValues ⟨⟨name, children, none⟩, Token.blankTypes, parts children⟩) :=
    items.map next
  rw [JudgedAt, valueOf_eq declared found, reads]
  refine (values.bind fun _ judged => judged).congr fun Kind => ?_
  rw [literalIn_node other, List.append_nil]

/-- A literal, or something between parentheses, is an operand. -/
theorem judged_primary {Fit : List (Item Value) → Prop}
    (items : Judged children Fit (contents children))
    (shapes : ∀ items, Fit items → (∃ n, items = [.value (.number n)]) ∨
      ∃ n closing, items = [.text "(", .value (.number n), closing]) :
    JudgedAt IsNumber "primary-expression" children := by
  refine @judged_evaluated "primary-expression" children IsNumber evaluatePrimary _ Fit (by decide)
    rfl (by decide) (fun s => rfl) items fun items fit => ?_
  rcases shapes items fit with ⟨n, rfl⟩ | ⟨n, closing, rfl⟩
  · exact judged_ok ⟨n, by simp [Value.ofItem]⟩
  · exact judged_ok ⟨n, by simp [Value.ofItem]⟩

/-! #### Chains -/

/-- What stands for an operator is the sign of one. -/
theorem exists_sign {s : Symbol} (mem : s ∈ l.operators) (accepted : s.terminal.accepts o = true) :
    ∃ operator : Operator, o.text = operator.sign := by
  have written : ∀ s ∈ l.operators, ∃ operator ∈ [Operator.add, .subtract, .multiply, .divide],
      ∃ d ∈ s.chars, s.chars = [d] ∧ String.singleton d = operator.sign := by
    cases l <;> decide
  obtain ⟨operator, -, d, isSign, only, sign⟩ := written s mem
  obtain ⟨c, isChar, text⟩ := (Symbol.accepts_iff_of_mem_chars isSign).mp accepted
  rw [only] at isChar
  exact ⟨operator, by rw [text, List.mem_singleton.mp isChar, sign]⟩

/-- An operator and its right operand as an item. -/
def pairItem (pair : Operator × Number) : Item Value :=
  .value (.list [] [.text pair.1.sign, .number pair.2])

/-- Items that are operators with their right operands. -/
def ArePairs (items : List (Item Value)) : Prop :=
  ∃ pairs : List (Operator × Number), items = pairs.map pairItem

/-- Operators with their right operands as they are folded. -/
def pairValues (pairs : List (Operator × Number)) : List Value :=
  pairs.flatMap fun pair => [.text pair.1.sign, .number pair.2]

theorem flatten_pairs (pairs : List (Operator × Number)) :
    ∀ index, flatten (valuesFrom index (pairs.map pairItem)) = pairValues pairs := by
  induction pairs with
  | nil => exact fun _ => rfl
  | cons pair rest ih =>
      intro index
      have others := ih (index + 1)
      simp only [flatten, pairValues] at others
      simp [valuesFrom, pairItem, Value.ofItem, Value.within, Value.allWithin, flatten, pairValues,
        others]

/-- **Only arithmetic may fail** where operators stand between numbers. -/
theorem judged_foldOperators (pairs : List (Operator × Number)) (n : Number) :
    Judged [] IsNumber (foldOperators (.number n) (pairValues pairs)) := by
  induction pairs generalizing n with
  | nil => exact judged_ok ⟨n, rfl⟩
  | cons pair rest ih =>
      obtain ⟨operator, m⟩ := pair
      show Judged [] IsNumber
        (foldOperators (.number n) (.text operator.sign :: .number m :: pairValues rest))
      cases result : operator.onNumbers n m with
      | ok k =>
          rw [foldOperators_number result]
          exact ih k
      | error reason =>
          have failed : applyOperator (.number n) (.text operator.sign) (.number m) =
              fail (.operator (.arithmetic reason)) := by
            simp only [applyOperator, Operator.ofSign?_sign, Value.grownWith,
              Operator.apply_number, result]
            rfl
          rw [foldOperators, failed]
          exact Or.inl ⟨reason, rfl⟩

/-- An operator with its right operand is a pair of the two. -/
theorem judged_round {operator : Operator} (sign : o.text = operator.sign)
    (solid : o.isBlank Token.blankTypes = false) (blank : parser.Gap gap)
    (blank' : parser.Gap gap')
    (h : JudgedAt IsNumber inner ts) :
    JudgedAt IsPair l.roundRule
      (gap.map Tree.leaf ++ .leaf o :: (gap'.map Tree.leaf ++ [.node inner ts none])) := by
  obtain ⟨declared, found⟩ := round_evaluator l
  have other : l.roundRule ∉ literalRules := by cases l <;> decide
  have reads : ∀ s, evaluateRest s = contentValues s >>= fun values => .ok (.list [] values) := by
    intro s
    rw [evaluateRest]
    cases contentValues s <;> rfl
  refine judged_evaluated declared found other reads
    (judged_gap blank (judged_leaf solid (judged_gap blank' (judged_node h judged_nil)))) ?_
  rintro _ ⟨_, rfl, _, _, rfl, ⟨n, rfl⟩, rfl⟩
  exact judged_ok ⟨operator, n, by simp [valuesFrom, Value.ofItem, sign]⟩

/-- Operators with their right operands, one after the other. -/
theorem judged_rounds {rounds : List (List Tree)}
    (each : ∀ round ∈ rounds, parser.Round l.roundRule round)
    (sound : ∀ us, .node l.roundRule us none ∈ rounds.flatten → JudgedAt IsPair l.roundRule us) :
    Judged rounds.flatten ArePairs (contents rounds.flatten) := by
  induction rounds with
  | nil => exact judged_nil.imp fun items none => ⟨[], none⟩
  | cons round others ih =>
      rw [List.forall_mem_cons] at each
      obtain ⟨⟨gap, us, leads, rfl⟩, rest⟩ := each
      have here := sound us (by simp)
      have more := ih rest fun vs mem => sound vs (by simp [List.mem_flatten.mp mem])
      rw [List.flatten_cons, List.append_assoc, List.singleton_append]
      refine (judged_gap leads.blank (judged_node here more)).imp ?_
      rintro _ ⟨_, _, rfl, ⟨operator, n, rfl⟩, pairs, rfl⟩
      exact ⟨(operator, n) :: pairs, rfl⟩

/-- **A chain of operands fails for its arithmetic alone**, once its operands have
values. -/
theorem judged_chain {us : List Tree} (blank : parser.Gap gap)
    (h : JudgedAt IsNumber inner ts) (rounds : Judged us ArePairs (contents us)) :
    JudgedAt IsNumber l.chainRule (gap.map Tree.leaf ++ .node inner ts none :: us) := by
  obtain ⟨declared, found⟩ := chain_evaluator l
  have other : l.chainRule ∉ literalRules := by cases l <;> decide
  refine judged_evaluated declared found other (fun s => rfl)
    (judged_gap blank (judged_node h rounds)) ?_
  rintro _ ⟨_, _, rfl, ⟨n, rfl⟩, pairs, rfl⟩
  have flat : flatten (valuesFrom 0 (.value (.number n) :: pairs.map pairItem)) =
      .number n :: pairValues pairs := by
    rw [← flatten_pairs pairs 1]
    simp [valuesFrom, Value.ofItem, flatten]
  show Judged [] IsNumber
    (item (flatten (valuesFrom 0 (.value (.number n) :: pairs.map pairItem))) 0 >>= fun first =>
      foldOperators first
        ((flatten (valuesFrom 0 (.value (.number n) :: pairs.map pairItem))).drop 1))
  rw [flat]
  exact judged_foldOperators pairs n

/-! #### All rules

Each rule takes the children that it makes apart, and judges them given that the nodes
among them are sound. -/

/-- An alias has one part, which is judged, and blanks before it. -/
theorem exists_part {productions : List Production} (has : Has name productions)
    (aliases : ∀ production ∈ productions, ∃ inner,
      production = [.rule inner] ∧ valued.lookup inner = some IsNumber)
    (made : parser.Makes tokens name children)
    (below : ∀ inner ts, .node inner ts none ∈ children → Sound inner ts) :
    ∃ gap inner ts, parser.Gap gap ∧ children = gap.map Tree.leaf ++ [.node inner ts none] ∧
      JudgedAt IsNumber inner ts := by
  obtain ⟨production, mem, i, splits⟩ := made.splits has
  obtain ⟨inner, rfl, isNumber⟩ := aliases production mem
  obtain ⟨gap, ts, rest, leads, rfl, j, others⟩ := splits.of_reference
  obtain rfl := others.of_nil
  exact ⟨gap, inner, ts, leads.blank, rfl, below inner ts (by simp) IsNumber isNumber⟩

theorem sound_alias {productions : List Production} (has : Has name productions)
    (aliases : ∀ production ∈ productions, ∃ inner,
      production = [.rule inner] ∧ valued.lookup inner = some IsNumber)
    (declared : grammar.declares name = true) (silent : evaluators.lookup name = none)
    (other : name ∉ literalRules) (made : parser.Makes tokens name children)
    (below : ∀ inner ts, .node inner ts none ∈ children → Sound inner ts) :
    JudgedAt IsNumber name children := by
  obtain ⟨gap, inner, ts, blank, rfl, part⟩ := exists_part has aliases made below
  exact judged_alias declared silent other blank gap_nil part

theorem sound_chain (made : parser.Makes tokens l.chainRule children)
    (below : ∀ inner ts, .node inner ts none ∈ children → Sound inner ts) :
    JudgedAt IsNumber l.chainRule children := by
  obtain ⟨production, mem, i, splits⟩ := made.splits l.has_chain
  obtain rfl := List.mem_singleton.mp mem
  obtain ⟨gap, ts, us, leads, rfl, j, others⟩ := splits.of_reference
  obtain ⟨rounds, rfl, each⟩ := others.of_many
  have operand : JudgedAt IsNumber l.operandRule ts :=
    below _ _ (by simp) IsNumber (by cases l <;> rfl)
  refine judged_chain leads.blank operand (judged_rounds each fun vs mem => ?_)
  refine below _ _ ?_ IsPair (by cases l <;> rfl)
  exact List.mem_append_right _ (List.mem_cons_of_mem _ mem)

theorem sound_round (made : parser.Makes tokens l.roundRule children)
    (below : ∀ inner ts, .node inner ts none ∈ children → Sound inner ts) :
    JudgedAt IsPair l.roundRule children := by
  obtain ⟨production, mem, i, splits⟩ := made.splits l.has_round
  obtain ⟨s, isOperator, rfl⟩ := List.mem_map.mp mem
  obtain ⟨gap, o, us, leads, rfl, accepted, solid, j, others⟩ :=
    splits.of_terminal skips s.terminal_direct
  obtain ⟨gap', ts, rest, leads', rfl, k, last⟩ := others.of_reference
  obtain rfl := last.of_nil
  obtain ⟨operator, sign⟩ := exists_sign isOperator accepted
  refine judged_round sign solid leads.blank leads'.blank ?_
  exact below _ _ (by simp) IsNumber (by cases l <;> rfl)

theorem sound_primary (made : parser.Makes tokens "primary-expression" children)
    (below : ∀ inner ts, .node inner ts none ∈ children → Sound inner ts) :
    JudgedAt IsNumber "primary-expression" children := by
  obtain ⟨production, mem, i, splits⟩ := made.splits has_primary
  simp only [List.mem_cons, List.not_mem_nil, or_false] at mem
  rcases mem with rfl | rfl
  · obtain ⟨gap, ts, rest, leads, rfl, j, last⟩ := splits.of_reference
    obtain rfl := last.of_nil
    have literal := below "literal" ts (by simp) IsNumber rfl
    refine judged_primary (judged_gap leads.blank (judged_node literal judged_nil)) ?_
    rintro _ ⟨_, _, rfl, ⟨n, rfl⟩, rfl⟩
    exact Or.inl ⟨n, rfl⟩
  · obtain ⟨gap, o, us, leads, rfl, accepted, solid, j, others⟩ :=
      splits.of_terminal skips Symbol.opening.terminal_direct
    obtain ⟨gap', ts, vs, leads', rfl, k, more⟩ := others.of_reference
    obtain ⟨gap'', c, rest, leads'', rfl, -, solid', m, last⟩ :=
      more.of_terminal skips Symbol.closing.terminal_direct
    obtain rfl := last.of_nil
    have inner := below "expression" ts (by simp) IsNumber rfl
    have opening : o.text = "(" := by
      obtain ⟨d, isOpening, text⟩ :=
        (@Symbol.accepts_iff_of_mem_chars .opening o '(' (by decide)).mp accepted
      rw [text, List.mem_singleton.mp isOpening]
      rfl
    refine judged_primary (judged_gap leads.blank (judged_leaf solid (judged_gap leads'.blank
      (judged_node inner (judged_gap leads''.blank (judged_leaf solid' judged_nil)))))) ?_
    rintro _ ⟨_, rfl, _, _, rfl, ⟨n, rfl⟩, _, rfl, rfl⟩
    exact Or.inr ⟨n, .text c.text, by rw [opening]⟩

/-- **Each rule is sound if the nodes among its children are.** -/
theorem sound_step (fits : ∀ t ∈ tokens, Profile.canonical.Fits t)
    (made : parser.Makes tokens name children)
    (below : ∀ inner ts, .node inner ts none ∈ children → Sound inner ts) :
    Sound name children := by
  obtain ⟨r, isRule⟩ := made.exists_rule
  have known := known_of_rule isRule
  intro Fair found
  simp only [List.mem_cons, List.not_mem_nil, or_false] at known
  rcases known with rfl | rfl | rfl | rfl | rfl | rfl | rfl | rfl | rfl | rfl | rfl | rfl | rfl
  all_goals cases found
  · exact sound_alias rfl (List.forall_mem_singleton.mpr ⟨"expression", rfl, rfl⟩) (by decide) rfl
      (by decide) made below
  · exact sound_alias rfl (List.forall_mem_singleton.mpr ⟨"additive-expression", rfl, rfl⟩)
      (by decide) rfl (by decide) made below
  · exact @sound_chain tokens children .sum made below
  · exact @sound_round tokens children .sum made below
  · exact @sound_chain tokens children .product made below
  · exact @sound_round tokens children .product made below
  · exact sound_alias rfl (List.forall_mem_singleton.mpr ⟨"primary-expression", rfl, rfl⟩)
      (by decide) rfl (by decide) made below
  · exact sound_primary made below
  · refine sound_alias has_literal ?_ (by decide) rfl (by decide) made below
    exact List.forall_mem_cons.mpr ⟨⟨"floating-constant", rfl, rfl⟩,
      List.forall_mem_singleton.mpr ⟨"integer-constant", rfl, rfl⟩⟩
  · exact judged_literal fits made (by decide)
  · exact judged_literal fits made (by decide)

/-- **Every node of an accepted expression is sound.** -/
theorem sound_of_makes (fits : ∀ t ∈ tokens, Profile.canonical.Fits t)
    (made : parser.Makes tokens name children) : Sound name children :=
  Makes.induct (fun _ _ made below => sound_step fits made below) made

end Rules

/-! ### Accepted expressions -/

/-- The value of an accepted expression is judged, and its literals are numbers unless
they cannot be read. -/
theorem judged_of_parse {source : String} {term : Term}
    (parsed : (language.parse source).outcome = .ok term) (isOk : term.ok = true) :
    Judged term.children IsNumber (language.evaluate term) ∧
      ∀ rule ∈ literalRules, ∀ node ∈ term.findAll rule, ¬ Spaced node → ¬ LongInteger node →
        ∃ n, language.evaluate node = .ok (.number n) := by
  rw [Language.outcome_parse rfl] at parsed
  have fits : ∀ t ∈ Profile.canonical.tokens source, Profile.canonical.Fits t :=
    fun t => Profile.fits_of_mem_tokens
  obtain ⟨body, trailing, made, leads, rfl, nodes⟩ :=
    makes_of_parse (Language.outcome_parseTokens_eq_ok.mp parsed) isOk
  constructor
  · -- blanks may stand behind the root as well, and nowhere else behind a part
    obtain ⟨gap, inner, ts, blank, rfl, part⟩ := @exists_part "calc" _ body _ rfl
      (List.forall_mem_singleton.mpr ⟨"expression", rfl, rfl⟩) made
      fun inner ts mem => sound_of_makes fits (made.of_mem mem).2
    have whole := @judged_alias "calc" inner gap trailing ts IsNumber (by decide) rfl (by decide)
      blank leads.blank part
    rw [List.append_assoc]
    exact whole.congr fun Kind => literalIn_node (by decide)
  · rintro rule isLiteral ⟨name, children, failure⟩ mem solid short
    obtain ⟨rfl, -⟩ := Tree.exists_nodeAt_of_findAllIn mem 0
    obtain ⟨rfl, made'⟩ := nodes _ fun i => (Tree.exists_nodeAt_of_findAllIn mem i).2
    refine (exists_valueOf_literal fits made' isLiteral solid).resolve_right ?_
    exact fun long => short long.1

/-- **An accepted expression fails for arithmetic or for a literal alone.**  Evaluating
it never fails for a lack of evaluators, of declarations or of parts.  If no literal in
it has blanks inside and no integer too many digits, it fails with a division by zero or
an overflow if at all, and if some literal has blanks inside, it does fail.  Every other
literal that is no integer with too many digits is a number. -/
theorem evaluate_fails {source : String} {term : Term}
    (parsed : (language.parse source).outcome = .ok term) (isOk : term.ok = true) :
    (∀ e, language.evaluate term = .error e →
      e.label Error.label ∉ ["EvaluationError", "GrammarError", "IndexError"]) ∧
    (¬ Split term.children → ¬ Long term.children → ∀ e, language.evaluate term = .error e →
      e.label Error.label ∈ ["ZeroDivisionError", "OverflowError"]) ∧
    (Split term.children → ∃ e, language.evaluate term = .error e) ∧
    ∀ rule ∈ literalRules, ∀ node ∈ term.findAll rule, ¬ Spaced node → ¬ LongInteger node →
      ∃ n, language.evaluate node = .ok (.number n) := by
  obtain ⟨judged, literals⟩ := judged_of_parse parsed isOk
  refine ⟨fun e failed => ?_, fun whole short e failed => ?_, fun split => ?_, literals⟩
  · rw [failed] at judged
    rcases judged with ⟨reason, rfl⟩ | ⟨-, what, text, rfl⟩ | ⟨-, k, rfl⟩
    · cases reason <;> decide
    · simp [Evaluation.Error.label, Error.label]
    · simp [Evaluation.Error.label, Error.label]
  · rw [failed] at judged
    rcases judged with ⟨reason, rfl⟩ | ⟨split, -⟩ | ⟨long, -⟩
    · cases reason <;> decide
    · exact (whole split).elim
    · exact (short long).elim
  · cases value : language.evaluate term with
    | ok v =>
        rw [value] at judged
        exact (judged.1 split).elim
    | error e => exact ⟨e, rfl⟩

/-- A blank before the point of a literal, and a quotient of literals without blanks
whose divisor is zero. -/
theorem evaluate_fails_quotient :
    (∃ term, (language.parse "1 .5 * 2").outcome = .ok term ∧ Split term.children ∧
      ∃ e, language.evaluate term = .error e) ∧
    ∃ term e, (language.parse "7 / (1 - 1)").outcome = .ok term ∧ ¬ Split term.children ∧
      ¬ Long term.children ∧ language.evaluate term = .error e ∧
      e.label Error.label ∈ ["ZeroDivisionError", "OverflowError"] := by
  constructor
  · have computed : (language.parse "1 .5 * 2").outcome.toOption.map
        (fun term => (term.ok, decide (Split term.children))) = some (true, true) := by
      decide +kernel
    cases parsed : (language.parse "1 .5 * 2").outcome with
    | error e => simp [parsed, Except.toOption] at computed
    | ok term =>
        obtain ⟨isOk, split⟩ : term.ok = true ∧ Split term.children := by
          simpa [parsed, Except.toOption] using computed
        exact ⟨term, rfl, split, (evaluate_fails parsed isOk).2.2.1 split⟩
  · have computed : (language.parse "7 / (1 - 1)").outcome.toOption.map
        (fun term => (term.ok, decide (Split term.children), decide (Long term.children),
          (language.evaluate term).toOption.isNone)) = some (true, false, false, true) := by
      decide +kernel
    cases parsed : (language.parse "7 / (1 - 1)").outcome with
    | error e => simp [parsed, Except.toOption] at computed
    | ok term =>
        obtain ⟨isOk, whole, short, fails⟩ : term.ok = true ∧ ¬ Split term.children ∧
            ¬ Long term.children ∧ (language.evaluate term).toOption = none := by
          simpa [parsed, Except.toOption] using computed
        cases failed : language.evaluate term with
        | ok v => simp [failed, Except.toOption] at fails
        | error e =>
            exact ⟨term, e, rfl, whole, short, failed,
              (evaluate_fails parsed isOk).2.1 whole short e failed⟩

end GrammarKit.Calculator
