import GrammarKit.Proofs.CalculatorRuns
import GrammarKit.Proofs.Conservation
import GrammarKit.Proofs.ParseTrees
import GrammarKit.Proofs.Recognition

/-!
# The language of the calculator

The calculator's parser commits to the first alternative that matches and repeats
as often as it can.  Read without order, its grammar is an ordinary context-free
one, and the parser accepts **all** of that language: no earlier choice ever bars
the way to a sentence.

## Main Definitions

* `Calculator.Category` — expressions, terms, factors and the kinds of literals
* `Calculator.Sentence` — the words of each category, by a context-free grammar

## Main Statements

* `Calculator.closed_words` — the rules of the calculator stay within the grammar
* `Calculator.Sentence.takes` — the rule of a category takes each of its words
* `Calculator.parse_ok_iff_sentence` — a source within the limit on nesting is
  accepted exactly if its tokens are a sentence

## Design Notes

Sentences are words of tokens, given which tokens are which symbol.  That is a
parameter: the parser accepts a token by a terminal, a reader of the grammar goes by
its text, and a run needs that it is taken for nothing else.
-/

namespace GrammarKit.Calculator

open GrammarKit.Parser

/-! ### Sentences -/

/-- The categories of the calculator's language. -/
inductive Category where
  /-- Operands with operators between them: an expression or a term. -/
  | chain (l : Level)
  /-- An operator with its right operand. -/
  | round (l : Level)
  | primary
  | literal
  | float
  | real
  | integer
deriving DecidableEq, Repr

/-- The operands of an expression are terms, those of a term are primary. -/
def Level.operand : Level → Category
  | .sum => .chain .product
  | .product => .primary

/-- Words of one token that is a plus or a minus. -/
def IsSign (is : Symbol → Token → Prop) (w : List Token) : Prop :=
  ∃ s ∈ [Symbol.plus, .minus], ∃ t, w = [t] ∧ is s t

/-- **The sentences of the calculator**, by a context-free grammar without order. -/
inductive Sentence (is : Symbol → Token → Prop) : Category → List Token → Prop where
  | chain {l : Level} {u : List Token} {rounds : List (List Token)} :
      Sentence is l.operand u → (∀ v ∈ rounds, Sentence is (.round l) v) →
      Sentence is (.chain l) (u ++ rounds.flatten)
  | round {l : Level} {s : Symbol} {o : Token} {u : List Token} :
      s ∈ l.operators → is s o → Sentence is l.operand u → Sentence is (.round l) (o :: u)
  | literal {w : List Token} : Sentence is .literal w → Sentence is .primary w
  | parenthesised {o c : Token} {w : List Token} :
      is .opening o → Sentence is (.chain .sum) w → is .closing c →
      Sentence is .primary (o :: (w ++ [c]))
  | float {w : List Token} : Sentence is .float w → Sentence is .literal w
  | integer {w : List Token} : Sentence is .integer w → Sentence is .literal w
  | fixed {w : List Token} : Sentence is .real w → Sentence is .float w
  | scientific {u v : List Token} {e : Token} :
      Sentence is .real u → is .mark e → Sentence is .integer v →
      Sentence is .float (u ++ e :: v)
  | decimal {sign : List Token} {a d b : Token} :
      IsSign is sign ∨ sign = [] → is .number a → is .point d → is .number b →
      Sentence is .real (sign ++ [a, d, b])
  | whole {sign : List Token} {a d : Token} :
      IsSign is sign ∨ sign = [] → is .number a → is .point d →
      Sentence is .real (sign ++ [a, d])
  | fraction {sign : List Token} {d b : Token} :
      IsSign is sign ∨ sign = [] → is .point d → is .number b →
      Sentence is .real (sign ++ [d, b])
  | digits {sign : List Token} {a : Token} :
      IsSign is sign ∨ sign = [] → is .number a → Sentence is .integer (sign ++ [a])

variable {is is' : Symbol → Token → Prop} {category : Category} {l : Level} {w : List Token}

theorem IsSign.imp (h : IsSign is w) (all : ∀ t ∈ w, ∀ s, is s t → is' s t) : IsSign is' w := by
  obtain ⟨s, mem, t, rfl, isSymbol⟩ := h
  exact ⟨s, mem, t, rfl, all t List.mem_cons_self s isSymbol⟩

/-- Sentences depend on what their own tokens are. -/
theorem Sentence.imp (h : Sentence is category w) (all : ∀ t ∈ w, ∀ s, is s t → is' s t) :
    Sentence is' category w := by
  have sign : ∀ {u : List Token}, (∀ t ∈ u, ∀ s, is s t → is' s t) → IsSign is u ∨ u = [] →
      IsSign is' u ∨ u = [] :=
    fun within => Or.imp_left fun signed => signed.imp within
  induction h with
  | chain _ _ ihOperand ihRounds =>
      rw [List.forall_mem_append] at all
      refine .chain (ihOperand all.1) fun v mem => ihRounds v mem fun t inside => ?_
      exact all.2 t (List.mem_flatten.mpr ⟨v, mem, inside⟩)
  | round mem isOperator _ ih =>
      rw [List.forall_mem_cons] at all
      exact .round mem (all.1 _ isOperator) (ih all.2)
  | literal _ ih => exact .literal (ih all)
  | parenthesised opening _ closing ih =>
      rw [List.forall_mem_cons, List.forall_mem_append, List.forall_mem_singleton] at all
      exact .parenthesised (all.1 _ opening) (ih all.2.1) (all.2.2 _ closing)
  | float _ ih => exact .float (ih all)
  | integer _ ih => exact .integer (ih all)
  | fixed _ ih => exact .fixed (ih all)
  | scientific _ mark _ ihReal ihInteger =>
      rw [List.forall_mem_append, List.forall_mem_cons] at all
      exact .scientific (ihReal all.1) (all.2.1 _ mark) (ihInteger all.2.2)
  | decimal signed digits point digits' =>
      simp only [List.forall_mem_append, List.forall_mem_cons] at all
      exact .decimal (sign all.1 signed) (all.2.1 _ digits) (all.2.2.1 _ point)
        (all.2.2.2.1 _ digits')
  | whole signed digits point =>
      simp only [List.forall_mem_append, List.forall_mem_cons] at all
      exact .whole (sign all.1 signed) (all.2.1 _ digits) (all.2.2.1 _ point)
  | fraction signed point digits =>
      simp only [List.forall_mem_append, List.forall_mem_cons] at all
      exact .fraction (sign all.1 signed) (all.2.1 _ point) (all.2.2.1 _ digits)
  | digits signed digits =>
      simp only [List.forall_mem_append, List.forall_mem_cons] at all
      exact .digits (sign all.1 signed) (all.2.1 _ digits)

/-! ### What is accepted is a sentence -/

/-- The category of each rule but that of signs. -/
def categories : List (String × Category) :=
  [("calc", .chain .sum), ("expression", .chain .sum),
   ("additive-expression", .chain .sum), ("additive-expression-rest", .round .sum),
   ("multiplicative-expression", .chain .product),
   ("multiplicative-expression-rest", .round .product),
   ("unary-expression", .primary), ("primary-expression", .primary), ("literal", .literal),
   ("floating-constant", .float), ("floating-real-part", .real),
   ("integer-constant", .integer)]

/-- A token is accepted as a symbol. -/
def Accepted (s : Symbol) (t : Token) : Prop :=
  s.terminal.accepts t = true

/-- The words of a rule: the sentences of its category, or signs. -/
def words (name : String) (w : List Token) : Prop :=
  (∀ category, categories.lookup name = some category → Sentence Accepted category w) ∧
    (name = "sign" → IsSign Accepted w)

theorem words_of_sentence {name : String} (found : categories.lookup name = some category)
    (other : name ≠ "sign") (h : Sentence Accepted category w) : words name w := by
  refine ⟨fun category' found' => ?_, fun same => (other same).elim⟩
  rw [found] at found'
  cases found'
  exact h

theorem Element.spells_symbol {s : Symbol} :
    s.element.Spells words w ↔ ∃ t, w = [t] ∧ Accepted s t :=
  Element.spells_one

/-- Symbols of a production. -/
theorem spells_symbols {symbols : List Symbol}
    (h : Production.Spells words (symbols.map Symbol.element) w) :
    List.Forall₂ Accepted symbols w := by
  induction symbols generalizing w with
  | nil =>
      cases h
      exact .nil
  | cons s rest ih =>
      obtain ⟨u, v, rfl, first, others⟩ := h
      obtain ⟨t, rfl, accepted⟩ := Element.spells_symbol.mp first
      exact .cons accepted (ih others)

/-- An optional sign and symbols. -/
theorem spells_signed {symbols : List Symbol}
    (h : Production.Spells words (.optionalRule "sign" :: symbols.map Symbol.element) w) :
    ∃ sign v, w = sign ++ v ∧ (IsSign Accepted sign ∨ sign = []) ∧
      List.Forall₂ Accepted symbols v := by
  obtain ⟨sign, v, rfl, optional, others⟩ := h
  refine ⟨sign, v, rfl, ?_, spells_symbols others⟩
  exact (Element.spells_optionalRule.mp optional).imp_left fun word => word.2 rfl

/-- One reference and nothing else. -/
theorem spells_reference {name : String} (h : Production.Spells words [.rule name] w) :
    words name w := by
  obtain ⟨u, v, rfl, first, rfl⟩ := h
  rw [List.append_nil]
  exact Element.spells_rule.mp first

theorem sentence_of_chain
    (h : Production.Spells words [.rule l.operandRule, .many l.roundRule] w) :
    Sentence Accepted (.chain l) w := by
  obtain ⟨u, v, rfl, first, v, _, rfl, ⟨rounds, rfl, each⟩, rfl⟩ := h
  rw [List.append_nil]
  have operand := Element.spells_rule.mp first
  cases l with
  | sum => exact .chain (operand.1 _ rfl) fun v mem => (each v mem).1 _ rfl
  | product => exact .chain (operand.1 _ rfl) fun v mem => (each v mem).1 _ rfl

theorem sentence_of_round {s : Symbol} (mem : s ∈ l.operators)
    (h : Production.Spells words [s.element, .rule l.operandRule] w) :
    Sentence Accepted (.round l) w := by
  obtain ⟨u, v, rfl, first, others⟩ := h
  obtain ⟨o, rfl, accepted⟩ := Element.spells_symbol.mp first
  have operand := spells_reference others
  cases l with
  | sum => exact .round mem accepted (operand.1 _ rfl)
  | product => exact .round mem accepted (operand.1 _ rfl)

theorem sentence_of_primary {production : Production}
    (mem : production ∈ [[.rule "literal"],
      [Symbol.opening.element, .rule "expression", Symbol.closing.element]])
    (h : production.Spells words w) : Sentence Accepted .primary w := by
  simp only [List.mem_cons, List.not_mem_nil, or_false] at mem
  rcases mem with rfl | rfl
  · exact .literal ((spells_reference h).1 _ rfl)
  · obtain ⟨u, _, rfl, first, v, _, rfl, second, x, _, rfl, third, rfl⟩ := h
    obtain ⟨o, rfl, opening⟩ := Element.spells_symbol.mp first
    obtain ⟨c, rfl, closing⟩ := Element.spells_symbol.mp third
    have inner := Element.spells_rule.mp second
    exact .parenthesised opening (inner.1 _ rfl) closing

theorem sentence_of_literal {production : Production}
    (mem : production ∈ [[.rule "floating-constant"], [.rule "integer-constant"]])
    (h : production.Spells words w) : Sentence Accepted .literal w := by
  simp only [List.mem_cons, List.not_mem_nil, or_false] at mem
  rcases mem with rfl | rfl
  · exact .float ((spells_reference h).1 _ rfl)
  · exact .integer ((spells_reference h).1 _ rfl)

theorem sentence_of_float {production : Production}
    (mem : production ∈ [[.rule "floating-real-part", Symbol.mark.element,
      .rule "integer-constant"], [.rule "floating-real-part"]])
    (h : production.Spells words w) : Sentence Accepted .float w := by
  simp only [List.mem_cons, List.not_mem_nil, or_false] at mem
  rcases mem with rfl | rfl
  · obtain ⟨u, _, rfl, first, v, _, rfl, second, others⟩ := h
    obtain ⟨e, rfl, mark⟩ := Element.spells_symbol.mp second
    have real := Element.spells_rule.mp first
    exact .scientific (real.1 _ rfl) mark ((spells_reference others).1 _ rfl)
  · exact .fixed ((spells_reference h).1 _ rfl)

theorem sentence_of_real {production : Production}
    (mem : production ∈ [.optionalRule "sign" :: [.number, .point, .number].map Symbol.element,
      .optionalRule "sign" :: [.number, .point].map Symbol.element,
      .optionalRule "sign" :: [.point, .number].map Symbol.element])
    (h : production.Spells words w) : Sentence Accepted .real w := by
  rcases List.mem_cons.mp mem with rfl | mem
  · obtain ⟨sign, v, rfl, signed, symbols⟩ := spells_signed h
    obtain _ | ⟨whole, _ | ⟨point, _ | ⟨fraction, _ | _⟩⟩⟩ := symbols
    exact .decimal signed whole point fraction
  rcases List.mem_cons.mp mem with rfl | mem
  · obtain ⟨sign, v, rfl, signed, symbols⟩ := spells_signed h
    obtain _ | ⟨whole, _ | ⟨point, _ | _⟩⟩ := symbols
    exact .whole signed whole point
  · rw [List.mem_singleton.mp mem] at h
    obtain ⟨sign, v, rfl, signed, symbols⟩ := spells_signed h
    obtain _ | ⟨point, _ | ⟨fraction, _ | _⟩⟩ := symbols
    exact .fraction signed point fraction

theorem sentence_of_integer
    (h : Production.Spells words (.optionalRule "sign" :: [.number].map Symbol.element) w) :
    Sentence Accepted .integer w := by
  obtain ⟨sign, v, rfl, signed, symbols⟩ := spells_signed h
  obtain _ | ⟨digits, _ | _⟩ := symbols
  exact .digits signed digits

theorem isSign_of_symbol {s : Symbol} (mem : s ∈ [Symbol.plus, .minus])
    (h : Production.Spells words [s.element] w) : IsSign Accepted w := by
  obtain ⟨u, _, rfl, first, rfl⟩ := h
  obtain ⟨t, rfl, accepted⟩ := Element.spells_symbol.mp first
  exact ⟨s, mem, t, rfl, accepted⟩

/-- **The rules of the calculator stay within the grammar.** -/
theorem closed_words : parser.grammar.Closed words := by
  intro name productions declared production mem w h
  obtain ⟨r, isRule, -⟩ := Option.map_eq_some_iff.mp declared
  have known := known_of_rule isRule
  -- the alternatives of a rule are those that are declared
  have alternatives : ∀ {others : List Production}, Has name others → production ∈ others := by
    intro others has
    rw [Has, declared] at has
    cases has
    exact mem
  have reference : ∀ {inner : String}, Has name [[.rule inner]] → words inner w := by
    intro inner has
    rw [List.mem_singleton.mp (alternatives has)] at h
    exact spells_reference h
  have chain : ∀ l : Level, name = l.chainRule → Sentence Accepted (.chain l) w := by
    rintro l rfl
    rw [List.mem_singleton.mp (alternatives l.has_chain)] at h
    exact sentence_of_chain h
  have round : ∀ l : Level, name = l.roundRule → Sentence Accepted (.round l) w := by
    rintro l rfl
    obtain ⟨s, isOperator, rfl⟩ := List.mem_map.mp (alternatives l.has_round)
    exact sentence_of_round isOperator h
  simp only [List.mem_cons, List.not_mem_nil, or_false] at known
  rcases known with rfl | rfl | rfl | rfl | rfl | rfl | rfl | rfl | rfl | rfl | rfl | rfl | rfl
  · exact words_of_sentence rfl (by decide) ((@reference "expression" rfl).1 _ rfl)
  · exact words_of_sentence rfl (by decide) ((@reference "additive-expression" rfl).1 _ rfl)
  · exact words_of_sentence rfl (by decide) (chain .sum rfl)
  · exact words_of_sentence rfl (by decide) (round .sum rfl)
  · exact words_of_sentence rfl (by decide) (chain .product rfl)
  · exact words_of_sentence rfl (by decide) (round .product rfl)
  · exact words_of_sentence rfl (by decide) ((@reference "primary-expression" rfl).1 _ rfl)
  · exact words_of_sentence rfl (by decide) (sentence_of_primary (alternatives has_primary) h)
  · exact words_of_sentence rfl (by decide) (sentence_of_literal (alternatives has_literal) h)
  · exact words_of_sentence rfl (by decide) (sentence_of_float (alternatives has_float) h)
  · exact words_of_sentence rfl (by decide) (sentence_of_real (alternatives has_real) h)
  · rw [List.mem_singleton.mp (alternatives has_integer)] at h
    exact words_of_sentence rfl (by decide) (sentence_of_integer h)
  · refine ⟨nofun, fun _ => ?_⟩
    have isSign := alternatives has_sign
    simp only [List.mem_cons, List.not_mem_nil, or_false] at isSign
    rcases isSign with rfl | rfl
    · exact isSign_of_symbol (by decide) h
    · exact isSign_of_symbol (by decide) h

/-! ### Each sentence is accepted -/

/-- The rule of a category. -/
def Category.rule : Category → String
  | .chain l => l.chainRule
  | .round l => l.roundRule
  | .primary => "unary-expression"
  | .literal => "literal"
  | .float => "floating-constant"
  | .real => "floating-real-part"
  | .integer => "integer-constant"

/-- The symbols that would go on with a word of a category. -/
def Category.stops : Category → List Symbol
  | .chain l => l.chainStops
  | .round l => l.operandStops
  | .primary => [.point, .mark, .number]
  | .literal => [.point, .mark, .number]
  | .float => [.mark, .number]
  | .real => [.number]
  | .integer => []

theorem Level.rule_operand (l : Level) : l.operand.rule = l.operandRule := by
  cases l <;> rfl

theorem Level.stops_operand (l : Level) : l.operand.stops = l.operandStops := by
  cases l <;> rfl

theorem exists_signed (h : IsSign Symbol.Stands w ∨ w = []) : ∃ ts, Signed w ts := by
  rcases h with ⟨s, mem, t, rfl, stands⟩ | rfl
  · exact ⟨_, .signed mem stands⟩
  · exact ⟨_, .unsigned⟩

namespace Sentence

/-- A sentence begins with a symbol. -/
theorem begins (h : Sentence Symbol.Stands category w) : parser.Begins w := by
  induction h with
  | chain _ _ ih _ => exact ih.append _
  | round _ operator _ _ => exact operator.begins _
  | literal _ ih => exact ih
  | parenthesised opening _ _ _ => exact opening.begins _
  | float _ ih => exact ih
  | integer _ ih => exact ih
  | fixed _ ih => exact ih
  | scientific _ _ _ ih _ => exact ih.append _
  | decimal signed digits _ _ =>
      obtain ⟨ts, sign⟩ := exists_signed signed
      exact sign.begins digits _
  | whole signed digits _ =>
      obtain ⟨ts, sign⟩ := exists_signed signed
      exact sign.begins digits _
  | fraction signed point _ =>
      obtain ⟨ts, sign⟩ := exists_signed signed
      exact sign.begins point _
  | digits signed digits =>
      obtain ⟨ts, sign⟩ := exists_signed signed
      exact sign.begins digits _

end Sentence

/-- **The rule of a category takes a word**, whatever comes next that does not go on
with it, and the trees it makes of it. -/
def Category.Reads (category : Category) (w : List Token) : Prop :=
  ∃ bound, ∀ behind, Stops category.stops behind →
    ∃ children, parser.Takes bound (.rule category.rule) w behind children

/-- Where operators and operands follow, nothing goes on with the operand before
them. -/
theorem stops_rounds {rounds : List (List Token)} {behind : List Token}
    (each : ∀ v ∈ rounds, Sentence Symbol.Stands (.round l) v) (stops : Stops l.chainStops behind) :
    Stops l.operandStops (rounds.flatten ++ behind) := by
  cases rounds with
  | nil => exact stops.subset (List.subset_append_right _ _)
  | cons v others =>
      cases each v List.mem_cons_self with
      | round mem operator _ =>
          exact stops_cons operator (Level.not_mem_operandStops mem) _

/-- Operators and operands are taken one after the other. -/
theorem reads_rounds {rounds : List (List Token)}
    (each : ∀ v ∈ rounds, Sentence Symbol.Stands (.round l) v)
    (reads : ∀ v ∈ rounds, (Category.round l).Reads v) :
    ∃ bound, ∀ behind, Stops l.chainStops behind →
      ∃ children, parser.Takes bound (.many l.roundRule) rounds.flatten behind children := by
  induction rounds with
  | nil =>
      refine ⟨1, fun behind stops => ⟨[], takes_no_rounds (Nat.le_refl 1) ?_⟩⟩
      exact stops.subset (List.subset_append_left _ _)
  | cons v others ih =>
      rw [List.forall_mem_cons] at each reads
      obtain ⟨bound, first⟩ := reads.1
      obtain ⟨bound', more⟩ := ih each.2 reads.2
      refine ⟨max bound bound', fun behind stops => ?_⟩
      obtain ⟨ts, round⟩ := first _ (stops_rounds each.2 stops)
      obtain ⟨us, next⟩ := more behind stops
      exact ⟨_, @Takes.again parser _ v behind others.flatten ts us _ [] skips gap_nil each.1.begins
        (round.mono (Nat.le_max_left _ _)) (next.mono (Nat.le_max_right _ _))⟩

/-- **The rule of a category takes each of its words.** -/
theorem Sentence.takes (h : Sentence Symbol.Stands category w) : category.Reads w := by
  induction h with
  | @chain l u rounds operand each ihOperand ihRounds =>
      obtain ⟨bound, first⟩ := ihOperand
      obtain ⟨bound', more⟩ := reads_rounds each ihRounds
      rw [l.rule_operand, l.stops_operand] at first
      refine ⟨max bound bound' + 1, fun behind stops => ?_⟩
      obtain ⟨ts, taken⟩ := first _ (stops_rounds each stops)
      obtain ⟨us, next⟩ := more behind stops
      exact ⟨_, takes_chain operand.begins (taken.mono (Nat.le_max_left _ _))
        (next.mono (Nat.le_max_right _ _))⟩
  | @round l s o u mem operator operand ih =>
      obtain ⟨bound, reads⟩ := ih
      rw [l.rule_operand, l.stops_operand] at reads
      refine ⟨bound + 1, fun behind stops => ?_⟩
      obtain ⟨ts, taken⟩ := reads behind stops
      exact ⟨_, @takes_round s u behind [] bound ts o l mem operator gap_nil operand.begins taken⟩
  | @literal w inner ih =>
      obtain ⟨bound, reads⟩ := ih
      refine ⟨bound + 2, fun behind stops => ?_⟩
      obtain ⟨ts, taken⟩ := reads behind stops
      exact ⟨_, @takes_alias w behind [] _ _ "unary-expression" _ rfl gap_nil inner.begins
        (takes_primary_of_literal inner.begins taken)⟩
  | @parenthesised o c w opening inner closing ih =>
      obtain ⟨bound, reads⟩ := ih
      refine ⟨max bound 3 + 3, fun behind stops => ?_⟩
      obtain ⟨ts, taken⟩ := reads (c :: behind) (stops_cons closing (by decide) behind)
      have expression := @takes_alias w _ [] _ ts "expression" _ rfl gap_nil inner.begins
        (taken.mono (Nat.le_max_left bound 3))
      have primary := @takes_parenthesised w behind [] _ _ c o [] opening closing gap_nil gap_nil
        inner.begins (by omega) expression
      exact ⟨_, @takes_alias _ behind [] _ _ "unary-expression" _ rfl gap_nil (opening.begins _)
        primary⟩
  | float inner ih =>
      obtain ⟨bound, reads⟩ := ih
      refine ⟨bound + 1, fun behind stops => ?_⟩
      obtain ⟨ts, taken⟩ := reads behind (stops.subset (by decide))
      exact ⟨_, takes_literal_of_float inner.begins taken⟩
  | integer inner ih =>
      refine ⟨4, fun behind stops => ?_⟩
      cases inner with
      | digits signed digits =>
          obtain ⟨ts, sign⟩ := exists_signed signed
          exact ⟨_, takes_literal_of_integer sign digits (stops.subset (by decide))⟩
  | fixed inner ih =>
      obtain ⟨bound, reads⟩ := ih
      refine ⟨bound + 1, fun behind stops => ?_⟩
      obtain ⟨ts, taken⟩ := reads behind (stops.subset (by decide))
      exact ⟨_, takes_float inner.begins taken (stops.subset (by decide))⟩
  | @scientific u v e real mark exponent ihReal ihExponent =>
      obtain ⟨bound, reads⟩ := ihReal
      obtain ⟨bound', reads'⟩ := ihExponent
      refine ⟨max bound bound' + 1, fun behind stops => ?_⟩
      obtain ⟨ts, taken⟩ := reads (e :: (v ++ behind)) (stops_cons mark (by decide) _)
      obtain ⟨us, taken'⟩ := reads' behind (stops.subset (by decide))
      exact ⟨_, takes_scientific real.begins exponent.begins (taken.mono (Nat.le_max_left _ _))
        mark (taken'.mono (Nat.le_max_right _ _))⟩
  | decimal signed whole point fraction =>
      obtain ⟨ts, sign⟩ := exists_signed signed
      exact ⟨2, fun behind _ => ⟨_, takes_decimal sign whole point fraction⟩⟩
  | whole signed whole point =>
      obtain ⟨ts, sign⟩ := exists_signed signed
      exact ⟨2, fun behind stops => ⟨_, takes_whole sign whole point stops⟩⟩
  | fraction signed point fraction =>
      obtain ⟨ts, sign⟩ := exists_signed signed
      exact ⟨2, fun behind _ => ⟨_, takes_fraction sign point fraction⟩⟩
  | digits signed digits =>
      obtain ⟨ts, sign⟩ := exists_signed signed
      exact ⟨2, fun behind _ => ⟨_, takes_integer sign digits⟩⟩

/-! ### Whole sources -/

theorem untilFree : parser.grammar.UntilFree := by
  decide

/-- Tokens without blanks are accepted exactly if they are a sentence. -/
theorem ok_iff_of_solid {tokens : List Token} {term : Term}
    (fits : ∀ t ∈ tokens, Profile.canonical.Fits t)
    (solid : ∀ t ∈ tokens, t.isBlank Token.blankTypes = false)
    (h : (parser.parse tokens).outcome = .ok term) :
    term.ok = true ↔ Sentence Symbol.Is (.chain .sum) tokens := by
  constructor
  · intro isOk
    obtain ⟨children, rfl, built⟩ := builds_of_parse solid untilFree h isOk
    have leaves : Tree.tokensIn children = tokens := ((spans_of_parse h).1 isOk).tokens_eq
    have word := (built.word_of_closed closed_words).1 (.chain .sum) rfl
    rw [leaves] at word
    exact word.imp fun t mem s => (Symbol.accepts_iff (fits t mem) s).mp
  · intro sentence
    have stands := sentence.imp fun t mem s => Symbol.stands_of_is (fits t mem) (solid t mem)
    obtain ⟨bound, reads⟩ := stands.takes
    obtain ⟨ts, taken⟩ := reads [] (stops_nil _)
    have expression := @takes_alias tokens [] [] bound ts "expression" _ rfl gap_nil stands.begins
      taken
    have root := @takes_alias tokens [] [] _ _ "calc" _ rfl gap_nil stands.begins expression
    have derived := root.derives
    rw [List.nil_append, List.append_nil] at derived
    exact (ok_iff_of_parse h).mpr ⟨_, _, derived, le_afterBlanks _ _ _⟩

/-- A parse without the blanks is ok exactly if the parse with them is. -/
theorem ok_solid {tokens : List Token} {term : Term}
    (h : (parser.parse tokens).outcome = .ok term) :
    ∃ term', (parser.parse (Token.solid Token.blankTypes tokens)).outcome = .ok term' ∧
      term'.ok = term.ok := by
  rcases (parser.solidLockstep tokens skips untilFree).parse with
    ⟨f, faulty, -⟩ | ⟨other, term', ok, ok', terms⟩
  · rw [h] at faulty
    cases faulty
  · rw [h] at ok
    cases ok
    refine ⟨term', ok', ?_⟩
    cases terms with
    | matched _ => rfl
    | failed _ => rfl

/-- **The calculator accepts exactly its language.**  A source whose rules do not nest
beyond the limit gets a term, and the term is ok exactly if the tokens of the source
that are not blank are a sentence of the unordered grammar. -/
theorem parse_ok_iff_sentence (source : String)
    (within : ∀ limit rule,
      (language.parse source).outcome ≠ .error (.fault (.tooDeep limit rule))) :
    ∃ term, (language.parse source).outcome = .ok term ∧
      (term.ok = true ↔ Sentence Symbol.Is (.chain .sum)
        (Token.solid Token.blankTypes (Profile.canonical.tokens source))) := by
  have parsed : (language.parse source).outcome =
      (language.parseTokens (Profile.canonical.tokens source)).outcome :=
    Language.outcome_parse rfl source
  have fits : ∀ t ∈ Token.solid Token.blankTypes (Profile.canonical.tokens source),
      Profile.canonical.Fits t :=
    fun t mem => Profile.fits_of_mem_tokens (List.mem_of_mem_filter mem)
  rcases parser.parse_cases (Profile.canonical.tokens source) with
    ⟨f, failed, faulty⟩ | ⟨term, -, ok, -, -⟩
  · -- a declared root has no fault but that of nesting too deeply
    obtain ⟨rule, rfl⟩ :=
      applyRule_faultsIn_tooDeep _ _ _ _ parser.grammar.root_mem_names f faulty
    refine (within parser.maxDepth rule ?_).elim
    rw [parsed, Language.parseTokens, Traced.outcome_mapError, failed]
    rfl
  · obtain ⟨term', ok', same⟩ := ok_solid ok
    refine ⟨term, parsed.trans (Language.outcome_parseTokens_eq_ok.mpr ok), ?_⟩
    rw [← same]
    exact ok_iff_of_solid fits (noBlank_solid _ _) ok'

/-- A difference of a signed literal with an exponent and a parenthesised fraction:
there is room for all its tokens, and it is accepted because it is a sentence. -/
theorem parse_ok_iff_sentence_difference :
    (∀ limit rule, (language.parse "-1.e2 - (.5)").outcome ≠
      .error (.fault (.tooDeep limit rule))) ∧
    ∃ term, (language.parse "-1.e2 - (.5)").outcome = .ok term ∧ term.ok = true := by
  have lexed : Profile.canonical.tokens "-1.e2 - (.5)" =
      [⟨"PUNCT", "-", 1, 1⟩, ⟨"NUMLIT", "1", 1, 2⟩, ⟨"PUNCT", ".", 1, 3⟩, ⟨"IDENT", "e", 1, 4⟩,
       ⟨"NUMLIT", "2", 1, 5⟩, ⟨"WS", " ", 1, 6⟩, ⟨"PUNCT", "-", 1, 7⟩, ⟨"WS", " ", 1, 8⟩,
       ⟨"PUNCT", "(", 1, 9⟩, ⟨"PUNCT", ".", 1, 10⟩, ⟨"NUMLIT", "5", 1, 11⟩,
       ⟨"PUNCT", ")", 1, 12⟩] := by
    decide +kernel
  have within : ∀ limit rule, (language.parse "-1.e2 - (.5)").outcome ≠
      .error (.fault (.tooDeep limit rule)) := by
    intro limit rule deep
    rw [Language.outcome_parse rfl, Language.parseTokens, Traced.outcome_mapError] at deep
    rcases parser.parse_cases (Profile.canonical.tokens "-1.e2 - (.5)") with
      ⟨f, -, faulty⟩ | ⟨term, -, ok, -, -⟩
    · refine attempt_faultless parser.grammar.root_mem_names 0 ?_ f faulty
      rw [lexed]
      decide
    · rw [show language.profile = Profile.canonical from rfl, ok] at deep
      cases deep
  have minus : Sentence Symbol.Is (.chain .product)
      [⟨"PUNCT", "-", 1, 1⟩, ⟨"NUMLIT", "1", 1, 2⟩, ⟨"PUNCT", ".", 1, 3⟩, ⟨"IDENT", "e", 1, 4⟩,
       ⟨"NUMLIT", "2", 1, 5⟩] := by
    have real := @Sentence.whole Symbol.Is [⟨"PUNCT", "-", 1, 1⟩] ⟨"NUMLIT", "1", 1, 2⟩
      ⟨"PUNCT", ".", 1, 3⟩ (.inl ⟨.minus, by decide, _, rfl, '-', by decide, by decide⟩) rfl
      ⟨'.', by decide, by decide⟩
    have exponent := @Sentence.digits Symbol.Is [] ⟨"NUMLIT", "2", 1, 5⟩ (.inr rfl) rfl
    exact @Sentence.chain _ .product _ []
      (.literal (.float (@Sentence.scientific _ _ _ ⟨"IDENT", "e", 1, 4⟩ real
        ⟨'e', by decide, by decide⟩ exponent))) (List.forall_mem_nil _)
  have inner : Sentence Symbol.Is (.chain .sum)
      [⟨"PUNCT", ".", 1, 10⟩, ⟨"NUMLIT", "5", 1, 11⟩] := by
    have real := @Sentence.fraction Symbol.Is [] ⟨"PUNCT", ".", 1, 10⟩ ⟨"NUMLIT", "5", 1, 11⟩
      (.inr rfl) ⟨'.', by decide, by decide⟩ rfl
    have operand := @Sentence.chain _ .product _ [] (.literal (.float (.fixed real)))
      (List.forall_mem_nil _)
    exact @Sentence.chain _ .sum _ [] operand (List.forall_mem_nil _)
  obtain ⟨term, ok, accepted⟩ := parse_ok_iff_sentence "-1.e2 - (.5)" within
  refine ⟨within, term, ok, accepted.mpr ?_⟩
  rw [lexed]
  have operand := @Sentence.chain _ .product _ [] (@Sentence.parenthesised _ ⟨"PUNCT", "(", 1, 9⟩
    ⟨"PUNCT", ")", 1, 12⟩ _ ⟨'(', by decide, by decide⟩ inner ⟨')', by decide, by decide⟩)
      (List.forall_mem_nil _)
  have round := @Sentence.round _ .sum .minus ⟨"PUNCT", "-", 1, 7⟩ _ (by decide)
    ⟨'-', by decide, by decide⟩ operand
  exact @Sentence.chain _ .sum _ [_] minus (List.forall_mem_singleton.mpr round)

end GrammarKit.Calculator
