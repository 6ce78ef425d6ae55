import GrammarKit.Proofs.CalculatorSymbols
import GrammarKit.Proofs.TokensAhead
import Mathlib.Data.List.Forall2

/-!
# Runs of the calculator's rules

What each rule of the calculator takes, and in view of which symbols it ends.
The alternatives of the grammar overlap: an integer begins like a number with a
point, a number with a point may go on with an exponent, and a sign may belong to
a literal or be an operator.  A rule takes a phrase whole where the symbol that
comes next is none of those that would go on with it.

## Main Definitions

* `Calculator.Stops` — none of some symbols comes next
* `Calculator.Signed` — an optional sign with its tree
* `Calculator.Level` — sums and products, with their rules and operators

## Main Statements

* `Calculator.takes_integer`, `Calculator.takes_decimal`, … — what the rules of
  literals take
* `Calculator.takes_parenthesised` — a parenthesised expression is an operand
* `Calculator.takes_round`, `Calculator.takes_chain` — operands with operators
  between them

## Design Notes

Trees are explicit and blanks may stand wherever the grammar leaves room for them,
except inside a literal: a literal with blanks has no value, and where values do not
matter blanks are taken out beforehand.
-/

namespace GrammarKit.Calculator

open GrammarKit.Parser

/-- The parser of the calculator. -/
abbrev parser : Parser := language.parser

theorem skips : parser.skipBlanks = true := rfl

variable {s : Symbol} {t : Token} {w behind ahead gap : List Token} {bound : Nat}

/-! ### What comes next -/

/-- None of the symbols comes next. -/
def Stops (stops : List Symbol) (ahead : List Token) : Prop :=
  ∀ found, parser.upcoming ahead = some found → ∀ s ∈ stops, s.terminal.accepts found = false

theorem stops_nil (stops : List Symbol) : Stops stops [] :=
  fun _ none => by cases none

theorem stops_cons {stops : List Symbol} (h : s.Stands t) (other : s ∉ stops)
    (rest : List Token) : Stops stops (t :: rest) := by
  intro found next s' mem
  rw [upcoming_cons h.solid] at next
  cases next
  exact h.refused fun same => other (same ▸ mem)

theorem stops_gap {stops : List Symbol} (blank : parser.Gap gap) (h : Stops stops ahead) :
    Stops stops (gap ++ ahead) := by
  rwa [Stops, upcoming_gap blank]

theorem Stops.subset {stops fewer : List Symbol} (h : Stops stops ahead) (sub : fewer ⊆ stops) :
    Stops fewer ahead :=
  fun found next s mem => h found next s (sub mem)

theorem Symbol.Stands.begins (h : s.Stands t) (rest : List Token) : parser.Begins (t :: rest) :=
  ⟨t, rest, rfl, h.solid⟩

/-! ### Symbols one after the other -/

section Symbols

variable {rest : Production} {more : List Token} {others : List Tree}

theorem takes_symbol_gap (blank : parser.Gap gap) (h : s.Stands t)
    (next : parser.Takes bound (.sequence rest) more behind others) :
    parser.Takes bound (.sequence (s.element :: rest)) (gap ++ t :: more) behind
      (gap.map Tree.leaf ++ .leaf t :: others) :=
  takes_token_cons skips s.terminal_direct blank h.solid h.accepted next

theorem takes_symbol (h : s.Stands t)
    (next : parser.Takes bound (.sequence rest) more behind others) :
    parser.Takes bound (.sequence (s.element :: rest)) (t :: more) behind (.leaf t :: others) :=
  @takes_symbol_gap s t behind [] bound rest more others gap_nil h next

theorem refuses_symbol (h : Stops [s] ahead) :
    parser.Refuses bound (.sequence (s.element :: rest)) ahead :=
  Refuses.stuck (refuses_token skips s.terminal_direct fun found next =>
    h found next s List.mem_cons_self)

theorem refuses_after_symbol (h : s.Stands t)
    (next : parser.Refuses bound (.sequence rest) ahead) :
    parser.Refuses bound (.sequence (s.element :: rest)) (t :: ahead) :=
  @Takes.refuses parser bound [t] ahead _ s.element rest
    (@takes_token parser bound ahead [] skips s.terminal t s.terminal_direct gap_nil h.solid
      h.accepted) next

end Symbols

/-- Symbols without blanks between them. -/
theorem takes_symbols {symbols : List Symbol} (h : List.Forall₂ Symbol.Stands symbols w) :
    parser.Takes bound (.sequence (symbols.map Symbol.element)) w behind (w.map Tree.leaf) := by
  induction h with
  | nil => exact takes_nil
  | cons stands _ ih => exact takes_symbol stands ih

/-- Symbols are refused at the first that does not come next. -/
theorem refuses_symbols {symbols rest : List Symbol} (h : List.Forall₂ Symbol.Stands symbols w)
    (stops : Stops [s] ahead) :
    parser.Refuses bound (.sequence ((symbols ++ s :: rest).map Symbol.element))
      (w ++ ahead) := by
  induction h with
  | nil => exact refuses_symbol stops
  | cons stands _ ih => exact refuses_after_symbol stands ih

/-! ### Signs and literals -/

section Rules

/-- The alternatives of a rule of the calculator. -/
abbrev Has (name : String) (productions : List Production) : Prop :=
  (parser.grammar.rule? name).map Rule.alternatives = some productions

/-- The names of the calculator's rules. -/
theorem known_of_rule {name : String} {r : Rule} (found : parser.grammar.rule? name = some r) :
    name ∈ ["calc", "expression", "additive-expression", "additive-expression-rest",
      "multiplicative-expression", "multiplicative-expression-rest", "unary-expression",
      "primary-expression", "literal", "floating-constant", "floating-real-part",
      "integer-constant", "sign"] :=
  parser.grammar.mem_names_iff.mpr ⟨r, found⟩

theorem has_sign : Has "sign" [[Symbol.plus.element], [Symbol.minus.element]] := rfl

theorem has_integer : Has "integer-constant"
    [.optionalRule "sign" :: [.number].map Symbol.element] := rfl

theorem has_real : Has "floating-real-part"
    [.optionalRule "sign" :: [.number, .point, .number].map Symbol.element,
     .optionalRule "sign" :: [.number, .point].map Symbol.element,
     .optionalRule "sign" :: [.point, .number].map Symbol.element] := rfl

theorem has_float : Has "floating-constant"
    [[.rule "floating-real-part", Symbol.mark.element, .rule "integer-constant"],
     [.rule "floating-real-part"]] := rfl

theorem has_literal : Has "literal"
    [[.rule "floating-constant"], [.rule "integer-constant"]] := rfl

theorem has_primary : Has "primary-expression"
    [[.rule "literal"],
     [Symbol.opening.element, .rule "expression", Symbol.closing.element]] := rfl

end Rules

/-- An optional sign with its tree. -/
inductive Signed : List Token → List Tree → Prop where
  | unsigned : Signed [] []
  | signed {s : Symbol} {t : Token} : s ∈ [Symbol.plus, .minus] → s.Stands t →
      Signed [t] [.node "sign" [.leaf t] none]

theorem takes_sign (mem : s ∈ [Symbol.plus, .minus]) (h : s.Stands t) :
    parser.Takes 1 (.rule "sign") [t] behind [.leaf t] := by
  have one := @takes_symbol s t behind 0 [] [] [] h takes_nil
  refine Takes.rule has_sign ?_
  simp only [List.mem_cons, List.not_mem_nil, or_false] at mem
  rcases mem with rfl | rfl
  · exact Takes.here one
  · exact Takes.later (refuses_symbol (stops_cons h (by decide) behind)) (Takes.here one)

theorem refuses_sign (stops : Stops [.plus, .minus] ahead) :
    parser.Refuses 1 (.rule "sign") ahead := by
  refine @Refuses.rule _ 0 _ _ _ has_sign fun production mem => ?_
  simp only [List.mem_cons, List.not_mem_nil, or_false] at mem
  rcases mem with rfl | rfl
  · exact refuses_symbol (stops.subset (by decide))
  · exact refuses_symbol (stops.subset (by decide))

variable {u v : List Token} {ts us : List Tree} {a b c d e o : Token}

/-- An optional sign is taken, or left out where none comes next. -/
theorem takes_optionalSign (sign : Signed u ts) (stops : Stops [.plus, .minus] ahead) :
    parser.Takes 1 (.element (.optionalRule "sign")) u ahead ts := by
  cases sign with
  | unsigned =>
      refine Refuses.optional (Refuses.once skips (refuses_sign ?_))
      rwa [Stops, upcoming_dropWhile]
  | signed mem stands =>
      exact Takes.optional (Takes.once skips gap_nil (stands.begins []) (takes_sign mem stands))

/-- Symbols behind an optional sign. -/
theorem takes_signed {symbols : List Symbol} (sign : Signed u ts)
    (h : List.Forall₂ Symbol.Stands symbols w) (stops : Stops [.plus, .minus] (w ++ behind)) :
    parser.Takes 1 (.sequence (.optionalRule "sign" :: symbols.map Symbol.element)) (u ++ w)
      behind (ts ++ w.map Tree.leaf) :=
  Takes.cons (takes_optionalSign sign stops) (takes_symbols h)

theorem refuses_signed (symbols : List Symbol) (s : Symbol) (rest : List Symbol)
    (sign : Signed u ts) (h : List.Forall₂ Symbol.Stands symbols w)
    (stops : Stops [.plus, .minus] (w ++ ahead)) (next : Stops [s] ahead) :
    parser.Refuses 1
      (.sequence (.optionalRule "sign" :: (symbols ++ s :: rest).map Symbol.element))
      (u ++ (w ++ ahead)) :=
  Takes.refuses (takes_optionalSign sign stops) (refuses_symbols h next)

/-- The first symbol behind the sign does not come next. -/
theorem refuses_signed_first (s : Symbol) (rest : List Symbol) (sign : Signed u ts)
    (stops : Stops [.plus, .minus] ahead) (next : Stops [s] ahead) :
    parser.Refuses 1 (.sequence (.optionalRule "sign" :: (s :: rest).map Symbol.element))
      (u ++ ahead) :=
  @refuses_signed [] ahead u ts [] s rest sign .nil stops next

/-- Neither a sign comes next nor the first symbol. -/
theorem refuses_unsigned (s : Symbol) (rest : List Symbol)
    (stops : Stops [.plus, .minus, s] ahead) :
    parser.Refuses 1 (.sequence (.optionalRule "sign" :: (s :: rest).map Symbol.element)) ahead :=
  @refuses_signed_first ahead [] [] s rest .unsigned
    (stops.subset (by simp [List.subset_def])) (stops.subset (by simp [List.subset_def]))

/-- An integer is taken whatever comes next. -/
theorem takes_integer (sign : Signed u ts) (digits : Symbol.number.Stands a) :
    parser.Takes 2 (.rule "integer-constant") (u ++ [a]) behind (ts ++ [.leaf a]) :=
  Takes.rule has_integer (Takes.here
    (takes_signed sign (.cons digits .nil) (stops_cons digits (by decide) behind)))

theorem refuses_integer (stops : Stops [.plus, .minus, .number] ahead) :
    parser.Refuses 2 (.rule "integer-constant") ahead := by
  refine @Refuses.rule _ 1 _ _ _ has_integer fun production mem => ?_
  rw [List.mem_singleton.mp mem]
  exact refuses_unsigned .number [] stops

/-- Digits, a point and digits. -/
theorem takes_decimal (sign : Signed u ts) (whole : Symbol.number.Stands a)
    (point : Symbol.point.Stands d) (fraction : Symbol.number.Stands b) :
    parser.Takes 2 (.rule "floating-real-part") (u ++ [a, d, b]) behind
      (ts ++ [.leaf a, .leaf d, .leaf b]) :=
  Takes.rule has_real (Takes.here (takes_signed sign
    (.cons whole (.cons point (.cons fraction .nil))) (stops_cons whole (by decide) _)))

/-- Digits and a point, with no digits behind it. -/
theorem takes_whole (sign : Signed u ts) (whole : Symbol.number.Stands a)
    (point : Symbol.point.Stands d) (stops : Stops [.number] behind) :
    parser.Takes 2 (.rule "floating-real-part") (u ++ [a, d]) behind
      (ts ++ [.leaf a, .leaf d]) := by
  have both : List.Forall₂ Symbol.Stands [.number, .point] [a, d] :=
    .cons whole (.cons point .nil)
  have noSign : Stops [.plus, .minus] ([a, d] ++ behind) := stops_cons whole (by decide) _
  refine Takes.rule has_real (Takes.later ?_ (Takes.here (takes_signed sign both noSign)))
  rw [List.append_assoc]
  exact refuses_signed [.number, .point] .number [] sign both noSign stops

/-- A point and digits. -/
theorem takes_fraction (sign : Signed u ts) (point : Symbol.point.Stands d)
    (fraction : Symbol.number.Stands b) :
    parser.Takes 2 (.rule "floating-real-part") (u ++ [d, b]) behind
      (ts ++ [.leaf d, .leaf b]) := by
  have noSign : Stops [.plus, .minus] ([d, b] ++ behind) := stops_cons point (by decide) _
  have noDigits : ∀ rest : List Symbol, parser.Refuses 1
      (.sequence (.optionalRule "sign" :: (Symbol.number :: rest).map Symbol.element))
      (u ++ [d, b] ++ behind) := by
    intro rest
    rw [List.append_assoc]
    exact refuses_signed_first .number rest sign noSign (stops_cons point (by decide) _)
  refine Takes.rule has_real (Takes.later (noDigits _) (Takes.later (noDigits _) (Takes.here ?_)))
  exact takes_signed sign (.cons point (.cons fraction .nil)) noSign

/-- An integer is not taken for a number with a point, unless a point comes next. -/
theorem refuses_real_of_integer (sign : Signed u ts) (digits : Symbol.number.Stands a)
    (stops : Stops [.point] behind) :
    parser.Refuses 2 (.rule "floating-real-part") (u ++ ([a] ++ behind)) := by
  have noSign : Stops [.plus, .minus] ([a] ++ behind) := stops_cons digits (by decide) behind
  have one : List.Forall₂ Symbol.Stands [.number] [a] := .cons digits .nil
  refine @Refuses.rule _ 1 _ _ _ has_real fun production mem => ?_
  simp only [List.mem_cons, List.not_mem_nil, or_false] at mem
  rcases mem with rfl | rfl | rfl
  · exact refuses_signed [.number] .point [.number] sign one noSign stops
  · exact refuses_signed [.number] .point [] sign one noSign stops
  · exact refuses_signed_first .point [.number] sign noSign (stops_cons digits (by decide) behind)

theorem refuses_real (stops : Stops [.plus, .minus, .number, .point] ahead) :
    parser.Refuses 2 (.rule "floating-real-part") ahead := by
  refine @Refuses.rule _ 1 _ _ _ has_real fun production mem => ?_
  simp only [List.mem_cons, List.not_mem_nil, or_false] at mem
  rcases mem with rfl | rfl | rfl
  · exact refuses_unsigned .number [.point, .number] (stops.subset (by decide))
  · exact refuses_unsigned .number [.point] (stops.subset (by decide))
  · exact refuses_unsigned .point [.number] (stops.subset (by decide))

/-- A number with a point, where no exponent comes next. -/
theorem takes_float (begins : parser.Begins w)
    (real : parser.Takes bound (.rule "floating-real-part") w behind ts)
    (stops : Stops [.mark] behind) :
    parser.Takes (bound + 1) (.rule "floating-constant") w behind
      [.node "floating-real-part" ts none] := by
  refine Takes.rule has_float (Takes.later ?_ (Takes.here (real.alone skips begins)))
  have first := @Takes.once parser bound w behind ts _ [] skips gap_nil begins real
  exact Takes.refuses first.plain (refuses_symbol stops)

/-- A number with a point and an exponent. -/
theorem takes_scientific (begins : parser.Begins u) (begins' : parser.Begins v)
    (real : parser.Takes bound (.rule "floating-real-part") u (e :: (v ++ behind)) ts)
    (mark : Symbol.mark.Stands e)
    (exponent : parser.Takes bound (.rule "integer-constant") v behind us) :
    parser.Takes (bound + 1) (.rule "floating-constant") (u ++ e :: v) behind
      [.node "floating-real-part" ts none, .leaf e, .node "integer-constant" us none] :=
  Takes.rule has_float (Takes.here (real.first skips begins
    (takes_symbol mark (exponent.alone skips begins'))))

/-- Without a number with a point there is no float. -/
theorem refuses_float (begins : parser.Begins ahead)
    (real : parser.Refuses 2 (.rule "floating-real-part") ahead) :
    parser.Refuses 3 (.rule "floating-constant") ahead := by
  refine @Refuses.rule _ 2 _ _ _ has_float fun production mem => ?_
  simp only [List.mem_cons, List.not_mem_nil, or_false] at mem
  rcases mem with rfl | rfl
  · exact real.reference skips begins
  · exact real.reference skips begins

theorem takes_literal_of_float (begins : parser.Begins w)
    (float : parser.Takes bound (.rule "floating-constant") w behind ts) :
    parser.Takes (bound + 1) (.rule "literal") w behind [.node "floating-constant" ts none] :=
  Takes.rule has_literal (Takes.here (float.alone skips begins))

theorem Signed.begins (sign : Signed u ts) (digits : s.Stands a) (rest : List Token) :
    parser.Begins (u ++ a :: rest) := by
  cases sign with
  | unsigned => exact digits.begins rest
  | signed _ stands => exact stands.begins (a :: rest)

/-- An integer is a literal where no point comes next. -/
theorem takes_literal_of_integer (sign : Signed u ts) (digits : Symbol.number.Stands a)
    (stops : Stops [.point] behind) :
    parser.Takes 4 (.rule "literal") (u ++ [a]) behind
      [.node "integer-constant" (ts ++ [.leaf a]) none] := by
  have begins := sign.begins digits behind
  have noFloat := refuses_float begins (refuses_real_of_integer sign digits stops)
  refine Takes.rule has_literal (Takes.later ?_ (Takes.here ?_))
  · rw [List.append_assoc]
    exact noFloat.reference skips begins
  · exact ((takes_integer sign digits).mono (by omega)).alone skips
      (sign.begins digits [])

/-- A literal begins with a sign, a digit or a point. -/
theorem refuses_literal (begins : parser.Begins ahead)
    (stops : Stops [.plus, .minus, .number, .point] ahead) :
    parser.Refuses 4 (.rule "literal") ahead := by
  have noFloat := refuses_float begins (refuses_real stops)
  refine @Refuses.rule _ 3 _ _ _ has_literal fun production mem => ?_
  simp only [List.mem_cons, List.not_mem_nil, or_false] at mem
  rcases mem with rfl | rfl
  · exact noFloat.reference skips begins
  · exact ((refuses_integer (stops.subset (by decide))).mono (by omega)).reference skips begins

/-! ### Operands -/

/-- A rule that only stands for another one. -/
theorem takes_alias {outer inner : String} (has : Has outer [[.rule inner]])
    (blank : parser.Gap gap) (begins : parser.Begins w)
    (h : parser.Takes bound (.rule inner) w behind ts) :
    parser.Takes (bound + 1) (.rule outer) (gap ++ w) behind
      (gap.map Tree.leaf ++ [.node inner ts none]) :=
  Takes.rule has (Takes.here (h.only skips blank begins))

theorem takes_primary_of_literal (begins : parser.Begins w)
    (h : parser.Takes bound (.rule "literal") w behind ts) :
    parser.Takes (bound + 1) (.rule "primary-expression") w behind [.node "literal" ts none] :=
  Takes.rule has_primary (Takes.here (h.alone skips begins))

/-- A parenthesised expression, with blanks inside the parentheses. -/
theorem takes_parenthesised {gap' : List Token} (opening : Symbol.opening.Stands o)
    (closing : Symbol.closing.Stands c) (blank : parser.Gap gap) (blank' : parser.Gap gap')
    (begins : parser.Begins w) (room : 4 ≤ bound)
    (h : parser.Takes bound (.rule "expression") w (gap' ++ c :: behind) ts) :
    parser.Takes (bound + 1) (.rule "primary-expression")
      (o :: (gap ++ (w ++ (gap' ++ [c])))) behind
      (.leaf o :: (gap.map Tree.leaf ++
        .node "expression" ts none :: (gap'.map Tree.leaf ++ [.leaf c]))) := by
  have noLiteral := (@refuses_literal (o :: (gap ++ (w ++ (gap' ++ [c]))) ++ behind)
    (opening.begins _) (stops_cons opening (by decide) _)).mono room
  refine Takes.rule has_primary (Takes.later ?_ (Takes.here ?_))
  · exact noLiteral.reference skips (opening.begins _)
  · refine takes_symbol opening (Takes.reference skips blank begins ?_
      (takes_symbol_gap blank' closing takes_nil))
    simpa using h

/-! ### Operands with operators between them -/

/-- The levels at which operators bind. -/
inductive Level where
  | sum
  | product
deriving DecidableEq, Repr

namespace Level

/-- The operators of a level. -/
def operators : Level → List Symbol
  | .sum => [.plus, .minus]
  | .product => [.star, .slash]

/-- The rule of operands with operators between them. -/
def chainRule : Level → String
  | .sum => "additive-expression"
  | .product => "multiplicative-expression"

/-- The rule of an operator with its right operand. -/
def roundRule : Level → String
  | .sum => "additive-expression-rest"
  | .product => "multiplicative-expression-rest"

/-- The rule of an operand. -/
def operandRule : Level → String
  | .sum => "multiplicative-expression"
  | .product => "unary-expression"

/-- The symbols that would go on with an operand. -/
def operandStops : Level → List Symbol
  | .sum => [.star, .slash, .point, .mark, .number]
  | .product => [.point, .mark, .number]

/-- The symbols that would go on with a chain of operands. -/
def chainStops (l : Level) : List Symbol :=
  l.operators ++ l.operandStops

theorem has_chain (l : Level) : Has l.chainRule [[.rule l.operandRule, .many l.roundRule]] := by
  cases l <;> rfl

theorem has_round (l : Level) : Has l.roundRule
    (l.operators.map fun s => [s.element, .rule l.operandRule]) := by
  cases l <;> rfl

/-- An operator never goes on with an operand. -/
theorem not_mem_operandStops {l : Level} (mem : s ∈ l.operators) : s ∉ l.operandStops := by
  have apart : ∀ s ∈ l.operators, s ∉ l.operandStops := by
    cases l <;> decide
  exact apart s mem

end Level

variable {l : Level}

/-- An operator with its right operand. -/
theorem takes_round (mem : s ∈ l.operators) (operator : s.Stands o) (blank : parser.Gap gap)
    (begins : parser.Begins w) (h : parser.Takes bound (.rule l.operandRule) w behind ts) :
    parser.Takes (bound + 1) (.rule l.roundRule) (o :: (gap ++ w)) behind
      (.leaf o :: (gap.map Tree.leaf ++ [.node l.operandRule ts none])) := by
  refine Takes.rule l.has_round ?_
  have operand := h.only skips blank begins
  -- the operators before the one that comes next are refused
  generalize l.operators = operators at mem
  induction operators with
  | nil => cases mem
  | cons first others ih =>
      by_cases same : s = first
      · rw [← same]
        exact Takes.here (takes_symbol operator operand)
      · refine Takes.later (refuses_symbol (stops_cons operator ?_ _)) (ih ?_)
        · simpa using same
        · exact (List.mem_cons.mp mem).resolve_left same

theorem refuses_round (stops : Stops l.operators ahead) :
    parser.Refuses 1 (.rule l.roundRule) ahead := by
  refine @Refuses.rule _ 0 _ _ _ l.has_round fun production mem => ?_
  obtain ⟨s, isOperator, rfl⟩ := List.mem_map.mp mem
  exact refuses_symbol (stops.subset (by simpa using isOperator))

/-- No more operands follow where no operator comes next. -/
theorem takes_no_rounds (room : 1 ≤ bound) (stops : Stops l.operators behind) :
    parser.Takes bound (.many l.roundRule) [] behind [] := by
  refine Refuses.ended (Refuses.once skips ((refuses_round ?_).mono room))
  rwa [Stops, upcoming_dropWhile]

/-- An operand with the operators and operands that follow it. -/
theorem takes_chain (begins : parser.Begins u)
    (operand : parser.Takes bound (.rule l.operandRule) u (v ++ behind) ts)
    (rounds : parser.Takes bound (.many l.roundRule) v behind us) :
    parser.Takes (bound + 1) (.rule l.chainRule) (u ++ v) behind
      (.node l.operandRule ts none :: us) := by
  have all := @Takes.first parser bound u behind (v ++ []) ts (us ++ []) l.operandRule skips
    [.many l.roundRule] begins (by simpa using operand) (Takes.cons rounds.repeatable takes_nil)
  simp only [List.append_nil] at all
  exact Takes.rule l.has_chain (Takes.here all)

end GrammarKit.Calculator
