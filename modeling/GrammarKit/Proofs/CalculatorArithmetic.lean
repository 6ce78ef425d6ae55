import GrammarKit.Proofs.CalculatorValues
import GrammarKit.Proofs.Conservation

/-!
# The calculator computes

An expression over integers is written with parentheses at least where precedence
or the association of operators to the left calls for them, with blanks wherever
the writer likes, and the calculator gives its exact value, unless a literal has more
digits than are read as an integer.

## Main Definitions

* `Calculator.Expr` — expressions over integers with sum, difference and product
* `Calculator.Spells` — the written forms of an integer
* `Calculator.Written` — the written forms of an expression, with a bound on how
  deeply parentheses nest and with the numbers of digits of the literals
* `Calculator.limited` — an integer, unless one of these numbers is too large
* `Calculator.Computes` — a rule takes some tokens and gives them a value
* `Calculator.Chain` — operands with operators between them, from left to right

## Main Statements

* `Calculator.Chain.computes` — a repetition of operators and operands has the value
  of their association to the left
* `Calculator.Written.lexes` — the tokens of a written form have the value of the
  expression
* `Calculator.evaluate_written` — the calculator parses every written form within its
  limit on nesting, and gives the value of the expression or refuses the first literal
  with too many digits

## Design Notes

A written form grows to the left, as its operators associate; the grammar has a first
operand and repeats the rest.  The two meet in an induction over the form with the
rest of the repetition as a parameter.

A parenthesis takes at most seven levels of the limit: an expression, two chains, a
round of each, and the two rules of an operand.  So the limit of 256 leaves room for
parentheses that nest 35 deep, wherever they stand.

All operands of a chain are read before its operators are applied, and these are exact
on integers.  So the first failure is that of the first literal that fails, and the
numbers of digits in the order of writing determine it.
-/

namespace GrammarKit.Calculator

open GrammarKit.Parser

/-! ### Expressions and their written forms -/

/-- The operations whose results on integers are integers. -/
inductive Operation where
  | add
  | subtract
  | multiply
deriving DecidableEq, Repr

namespace Operation

/-- The result of an operation. -/
def apply : Operation → Int → Int → Int
  | .add, a, b => a + b
  | .subtract, a, b => a - b
  | .multiply, a, b => a * b

/-- The character of an operation. -/
def char : Operation → Char
  | .add => '+'
  | .subtract => '-'
  | .multiply => '*'

/-- The symbol of an operation. -/
def symbol : Operation → Symbol
  | .add => .plus
  | .subtract => .minus
  | .multiply => .star

/-- The calculator's operator for an operation. -/
def operator : Operation → Operator
  | .add => .add
  | .subtract => .subtract
  | .multiply => .multiply

/-- The level at which an operation binds. -/
def level : Operation → Level
  | .add => .sum
  | .subtract => .sum
  | .multiply => .product

/-- How strongly an operation binds. -/
def strength : Operation → Nat
  | .add => 0
  | .subtract => 0
  | .multiply => 1

theorem symbol_mem_operators (operation : Operation) :
    operation.symbol ∈ operation.level.operators := by
  cases operation <;> decide

theorem sign_operator (operation : Operation) :
    operation.operator.sign = String.singleton operation.char := by
  cases operation <;> decide

/-- The calculator's operators are exact on integers. -/
theorem onNumbers_operator (operation : Operation) (a b : Int) :
    operation.operator.onNumbers (.int a) (.int b) = .ok (.int (operation.apply a b)) := by
  cases operation <;> rfl

end Operation

/-- An expression over integers. -/
inductive Expr where
  | literal (n : Int)
  | binary (operation : Operation) (left right : Expr)
deriving DecidableEq, Repr

/-- The value of an expression. -/
def Expr.value : Expr → Int
  | .literal n => n
  | .binary operation left right => operation.apply left.value right.value

/-- Characters that divide words. -/
def Blanks (cs : List Char) : Prop :=
  ∀ c ∈ cs, Text.isBlank c = true

/-- One or more decimal digits. -/
def Digits (cs : List Char) : Prop :=
  cs ≠ [] ∧ ∀ c ∈ cs, c.isDigit = true

/-- **The written forms of an integer**: digits, possibly with a sign before them. -/
inductive Spells : List Char → Int → Prop where
  | unsigned {cs : List Char} : Digits cs → Spells cs (Nat.ofDigitChars 10 cs 0)
  | positive {cs : List Char} : Digits cs → Spells ('+' :: cs) (Nat.ofDigitChars 10 cs 0)
  | negative {cs : List Char} : Digits cs → Spells ('-' :: cs) (-Nat.ofDigitChars 10 cs 0)

/-- How many digits are among some characters. -/
def digitCount (cs : List Char) : Nat :=
  cs.countP Char.isDigit

/-- **The written forms of an expression** where only operations of at least a given
strength may stand without parentheses, and parentheses nest at most so deeply.  The
left operand of an operation may be an operation that binds as strongly, the right one
has to bind more strongly.  Blanks may stand anywhere but inside an integer.  The
numbers of digits of the literals come with a form, in the order of writing. -/
inductive Written : (nesting strength : Nat) → Expr → (lengths : List Nat) → List Char → Prop
    where
  | literal {nesting strength : Nat} {n : Int} {cs : List Char} :
      Spells cs n → Written nesting strength (.literal n) [digitCount cs] cs
  | binary {nesting strength : Nat} {operation : Operation} {left right : Expr}
      {ks ls : List Nat} {cs ds before after : List Char} :
      strength ≤ operation.strength → Written nesting operation.strength left ks cs →
      Written nesting (operation.strength + 1) right ls ds → Blanks before → Blanks after →
      Written nesting strength (.binary operation left right) (ks ++ ls)
        (cs ++ (before ++ operation.char :: (after ++ ds)))
  | parenthesised {nesting strength : Nat} {e : Expr} {ks : List Nat}
      {cs before after : List Char} :
      Written nesting 0 e ks cs → Blanks before → Blanks after →
      Written (nesting + 1) strength e ks ('(' :: (before ++ (cs ++ (after ++ [')']))))

/-! ### Written integers -/

namespace Digits

variable {cs : List Char}

theorem digitChars (h : Digits cs) : ∀ c ∈ cs, c ∈ Numeral.digitChars :=
  fun c mem => Numeral.mem_digitChars (h.2 c mem)

theorem noSpacing (h : Digits cs) : ∀ c ∈ cs, Text.isSpacing c = false := by
  have each : ∀ c ∈ Numeral.digitChars, Text.isSpacing c = false := by
    decide
  exact fun c mem => each c (h.digitChars c mem)

/-- Digits make up a number for the lexer. -/
theorem runChars (h : Digits cs) : Profile.canonical.RunChars .number cs := by
  have opens : ∀ c ∈ Numeral.digitChars, Profile.canonical.opens? c = some .number := by
    decide
  obtain ⟨c, rest, rfl⟩ := List.exists_cons_of_ne_nil h.1
  refine ⟨c, rest, rfl, opens c (h.digitChars c List.mem_cons_self), fun d mem => ?_⟩
  exact h.2 d (List.mem_cons_of_mem c mem)

theorem digitCount_eq (h : Digits cs) : digitCount cs = cs.length :=
  List.countP_eq_length.mpr h.2

end Digits

namespace Spells

variable {cs : List Char} {n : Int}

/-- No character of an integer is a blank of any kind. -/
theorem noSpacing (h : Spells cs n) : ∀ c ∈ cs, Text.isSpacing c = false := by
  cases h with
  | unsigned digits => exact digits.noSpacing
  | positive digits => exact List.forall_mem_cons.mpr ⟨by decide, digits.noSpacing⟩
  | negative digits => exact List.forall_mem_cons.mpr ⟨by decide, digits.noSpacing⟩

theorem noBlank (h : Spells cs n) : ∀ c ∈ cs, Text.isBlank c = false := by
  intro c mem
  have noSpacing := h.noSpacing c mem
  rw [Text.isSpacing, Bool.or_eq_false_iff] at noSpacing
  exact noSpacing.1

/-- **A written integer is read as the integer**, if it has not too many digits. -/
theorem integer_eq (h : Spells cs n) : Numeral.integer (String.ofList cs) =
    if Numeral.maxDigits < digitCount cs then .error (.tooManyDigits (digitCount cs))
    else .ok n := by
  have noBlank := h.noBlank
  rw [← @String.toList_ofList cs] at noBlank
  cases h with
  | unsigned digits =>
      have unsigned : Numeral.splitSign (String.ofList cs).toList = (false, cs) := by
        rw [String.toList_ofList]
        exact Numeral.splitSign_of_digitChars digits.digitChars
      rw [digits.digitCount_eq]
      exact Numeral.integer_of_digitChars noBlank unsigned digits.1 digits.digitChars
  | @positive ds digits =>
      have signed : Numeral.splitSign (String.ofList ('+' :: ds)).toList = (false, ds) := by
        rw [String.toList_ofList]
        rfl
      rw [show digitCount ('+' :: ds) = digitCount ds from rfl, digits.digitCount_eq]
      exact Numeral.integer_of_digitChars noBlank signed digits.1 digits.digitChars
  | @negative ds digits =>
      have signed : Numeral.splitSign (String.ofList ('-' :: ds)).toList = (true, ds) := by
        rw [String.toList_ofList]
        rfl
      rw [show digitCount ('-' :: ds) = digitCount ds from rfl, digits.digitCount_eq]
      exact Numeral.integer_of_digitChars noBlank signed digits.1 digits.digitChars

end Spells

/-! ### Literals with too many digits -/

/-- **An integer that is computed from literals** with the given numbers of digits.  The
first number that is too large is reported in its place. -/
def limited (lengths : List Nat) (n : Int) : Result Number :=
  match lengths.find? (Numeral.maxDigits < ·) with
  | none => .ok (.int n)
  | some k => fail (.integer (.tooManyDigits k))

theorem limited_of_few {lengths : List Nat} (few : ∀ k ∈ lengths, k ≤ Numeral.maxDigits)
    (n : Int) : limited lengths n = .ok (.int n) := by
  have none : lengths.find? (Numeral.maxDigits < ·) = none := by
    simpa [List.find?_eq_none] using few
  rw [limited, none]

theorem limited_of_many {lengths : List Nat} {k : Nat}
    (first : lengths.find? (Numeral.maxDigits < ·) = some k) (n : Int) :
    limited lengths n = fail (.integer (.tooManyDigits k)) := by
  rw [limited, first]

/-- A written integer is given as it is, if it has not too many digits. -/
theorem Spells.readInteger_eq {cs : List Char} {n : Int} (h : Spells cs n) :
    readInteger (String.ofList cs) = limited [digitCount cs] n := by
  rw [readInteger, h.integer_eq]
  by_cases many : Numeral.maxDigits < digitCount cs
  · rw [if_pos many, limited_of_many (List.find?_cons_of_pos (decide_eq_true many))]
  · rw [if_neg many, limited_of_few (List.forall_mem_singleton.mpr (Nat.le_of_not_lt many))]

/-- **An operator between two computed integers** gives the computed result, whatever is
done with it. -/
theorem foldOperators_limited (operation : Operation) (ks ls : List Nat) (a b : Int)
    (values : Result (List Value)) :
    (limited ks a >>= fun n => (limited ls b >>= fun m =>
        (.text operation.operator.sign :: .number m :: ·) <$> values) >>= fun vs =>
          foldOperators (.number n) vs) =
      limited (ks ++ ls) (operation.apply a b) >>= fun n => values >>= fun vs =>
        foldOperators (.number n) vs := by
  rw [limited, limited, limited, List.find?_append]
  cases ks.find? (Numeral.maxDigits < ·) with
  | some k => rfl
  | none =>
      cases ls.find? (Numeral.maxDigits < ·) with
      | some k => rfl
      | none =>
          cases values with
          | error e => rfl
          | ok vs => exact foldOperators_number (operation.onNumbers_operator a b)

/-! ### Values of tokens -/

/-- **A rule takes some tokens and gives them a value**, where none of some symbols
comes next: an integer that is computed from literals with the given numbers of
digits. -/
def Computes (bound : Nat) (rule : String) (stops : List Symbol) (w : List Token)
    (lengths : List Nat) (n : Int) : Prop :=
  parser.Begins w ∧ ∀ behind, Stops stops behind → ∃ children,
    parser.Takes bound (.rule rule) w behind children ∧
      valueOf rule children = Value.number <$> limited lengths n

section Tokens

variable {bound higher : Nat} {rule : String} {stops : List Symbol} {n a b : Int}
variable {ks ls : List Nat}
variable {u w gap gap' : List Token} {ts : List Tree} {c d o : Token} {cs : List Char} {l : Level}

theorem Computes.mono (h : Computes bound rule stops w ks n) (le : bound ≤ higher) :
    Computes higher rule stops w ks n := by
  refine ⟨h.1, fun behind ends => ?_⟩
  obtain ⟨children, takes, value⟩ := h.2 behind ends
  exact ⟨children, takes.mono le, value⟩

/-- A rule that stands for another computes the same. -/
theorem Computes.under (rule outer : String) (has : Has outer [[.rule rule]])
    (declared : grammar.declares outer = true) (silent : evaluators.lookup outer = none)
    (h : Computes bound rule stops w ks n) : Computes (bound + 1) outer stops w ks n := by
  refine ⟨h.1, fun behind ends => ?_⟩
  obtain ⟨children, takes, value⟩ := h.2 behind ends
  refine ⟨_, @takes_alias w behind [] bound children outer rule has gap_nil h.1 takes, ?_⟩
  exact (@valueOf_alias outer [] [] children rule declared silent gap_nil gap_nil).trans value

theorem Signed.tokensIn_eq (sign : Signed u ts) : Tree.tokensIn ts = u := by
  cases sign with
  | unsigned => rfl
  | signed _ _ => rfl

/-- **An integer is an operand.** -/
theorem computes_integer (sign : Signed u ts) (digits : Symbol.number.Stands d)
    (spelled : Spells cs n) (text : Token.join (u ++ [d]) = String.ofList cs) :
    Computes 6 "unary-expression" [.point, .mark, .number] (u ++ [d]) [digitCount cs] n := by
  have leaves : Tree.tokensIn (ts ++ [.leaf d]) = u ++ [d] := by
    rw [Tree.tokensIn_append, sign.tokensIn_eq]
    rfl
  have noSpacing : ∀ c ∈ (Token.join (Tree.tokensIn (ts ++ [.leaf d]))).toList,
      Text.isSpacing c = false := by
    rw [leaves, text, String.toList_ofList]
    exact spelled.noSpacing
  have integer : valueOf "integer-constant" (ts ++ [.leaf d]) =
      Value.number <$> limited [digitCount cs] n := by
    rw [valueOf_integer noSpacing, leaves, text, spelled.readInteger_eq]
  have literal : valueOf "literal" [.node "integer-constant" (ts ++ [.leaf d]) none] =
      Value.number <$> limited [digitCount cs] n :=
    (@valueOf_alias "literal" [] [] _ _ (by decide) rfl gap_nil gap_nil).trans integer
  have begins := sign.begins digits []
  refine Computes.under "primary-expression" "unary-expression" rfl (by decide) rfl
    ⟨begins, fun behind ends => ?_⟩
  exact ⟨_, takes_primary_of_literal begins
    (takes_literal_of_integer sign digits (ends.subset (by decide))),
    valueOf_primary_of_literal literal⟩

/-- **A parenthesised expression is an operand.** -/
theorem computes_parenthesised (opening : Symbol.opening.Stands o) (text : o.text = "(")
    (closing : Symbol.closing.Stands c) (blank : parser.Gap gap) (blank' : parser.Gap gap')
    (room : 3 ≤ bound)
    (h : Computes bound "additive-expression" Level.sum.chainStops w ks n) :
    Computes (bound + 3) "unary-expression" [.point, .mark, .number]
      (o :: (gap ++ (w ++ (gap' ++ [c])))) ks n := by
  have expression := Computes.under "additive-expression" "expression" rfl (by decide) rfl h
  refine Computes.under "primary-expression" "unary-expression" rfl (by decide) rfl
    ⟨opening.begins _, fun behind _ => ?_⟩
  have ends : Stops Level.sum.chainStops (gap' ++ c :: behind) :=
    stops_gap blank' (stops_cons closing (by decide) behind)
  obtain ⟨children, takes, value⟩ := expression.2 _ ends
  exact ⟨_, takes_parenthesised opening closing blank blank' h.1 (by omega) takes,
    valueOf_parenthesised text opening.solid closing.solid blank blank' value⟩

/-- **Operands with operators between them**, from left to right, and the value of
their association to the left. -/
inductive Chain (l : Level) (bound : Nat) : List Token → List Nat → Int → Prop where
  | operand {w : List Token} {ks : List Nat} {n : Int} :
      Computes bound l.operandRule l.operandStops w ks n → Chain l bound w ks n
  | operation {operation : Operation} {u w gap gap' : List Token} {o : Token}
      {ks ls : List Nat} {a b : Int} :
      Chain l bound u ks a → operation.level = l → operation.symbol.Stands o →
      o.text = String.singleton operation.char → parser.Gap gap → parser.Gap gap' →
      Computes bound l.operandRule l.operandStops w ls b →
      Chain l bound (u ++ (gap ++ o :: (gap' ++ w))) (ks ++ ls) (operation.apply a b)

theorem Chain.begins (h : Chain l bound w ks n) : parser.Begins w := by
  induction h with
  | operand computes => exact computes.1
  | operation _ _ _ _ _ _ _ ih => exact ih.append _

/-- **The rule of a chain takes it together with what follows**, and goes on with the
value that has been reached.  What follows is a repetition that has been taken
already; the last operation of a chain is put in front of it, and the induction goes
on with the operands to the left. -/
theorem Chain.takes (h : Chain l bound w ks n) :
    ∀ {more behind : List Token} {us : List Tree} {values : Result (List Value)},
      parser.Takes (bound + 1) (.many l.roundRule) more behind us → Follows us values →
      Stops l.operandStops (more ++ behind) →
      ∃ children, parser.Takes (bound + 2) (.rule l.chainRule) (w ++ more) behind children ∧
        valueOf l.chainRule children =
          limited ks n >>= fun n => values >>= fun vs => foldOperators (.number n) vs := by
  induction h with
  | operand computes =>
      intro more behind us values rounds follows ends
      obtain ⟨children, takes, value⟩ := computes.2 _ ends
      exact ⟨_, takes_chain computes.1 (takes.mono (Nat.le_succ bound)) rounds,
        valueOf_chain value follows⟩
  | @operation operation u w gap gap' o ks ls a b _ level stands text blank blank' computes ih =>
      intro more behind us values rounds follows ends
      obtain ⟨children, takes, value⟩ := computes.2 _ ends
      have mem : operation.symbol ∈ l.operators := level ▸ operation.symbol_mem_operators
      have begins := stands.begins (gap' ++ w)
      have round := takes_round mem stands blank' computes.1 takes
      have pair := valueOf_round stands.solid blank' value
      have here := Takes.again skips blank begins round rounds
      have first : Stops l.operandStops (gap ++ ((o :: (gap' ++ w)) ++ more) ++ behind) := by
        rw [List.append_assoc]
        exact stops_gap blank (stops_cons stands (Level.not_mem_operandStops mem) _)
      obtain ⟨children', takes', value'⟩ := ih here (follows.cons pair blank) first
      refine ⟨children', by simpa using takes', ?_⟩
      rw [value', text, ← operation.sign_operator]
      exact foldOperators_limited operation ks ls a b values

/-- **A chain computes the value of its association to the left.** -/
theorem Chain.computes (h : Chain l bound w ks n) :
    Computes (bound + 2) l.chainRule l.chainStops w ks n := by
  refine ⟨h.begins, fun behind ends => ?_⟩
  have none := @takes_no_rounds behind (bound + 1) l (by omega)
    (ends.subset (List.subset_append_left _ _))
  obtain ⟨children, takes, value⟩ :=
    h.takes none follows_nil (ends.subset (List.subset_append_right _ _))
  rw [List.append_nil] at takes
  refine ⟨children, takes, ?_⟩
  rw [value]
  cases limited ks n <;> rfl

end Tokens

/-! ### Tokens of characters -/

/-- No digit comes next. -/
def NoDigit (rest : List Char) : Prop :=
  ∀ c, rest.head? = some c → c.isDigit = false

/-- No blank comes next. -/
def NoBlank (rest : List Char) : Prop :=
  ∀ c, rest.head? = some c → Text.isBlank c = false

/-- **Characters have tokens with a property**, wherever they stand before something
that does not go on with them. -/
def Lexes (cs : List Char) (Ends : List Char → Prop) (Good : List Token → Prop) : Prop :=
  ∀ rest position, Ends rest → ∃ w position', Good w ∧
    Profile.canonical.tokensFrom position (cs ++ rest) =
      w ++ Profile.canonical.tokensFrom position' rest

section Lexing

variable {cs ds : List Char} {Ends Ends' : List Char → Prop} {Good Good' : List Token → Prop}

theorem Lexes.imp (h : Lexes cs Ends Good) (imp : ∀ w, Good w → Good' w) : Lexes cs Ends Good' := by
  intro rest position ends
  obtain ⟨w, position', good, tokens⟩ := h rest position ends
  exact ⟨w, position', imp w good, tokens⟩

/-- Characters one after the other have tokens one after the other. -/
theorem Lexes.append (first : Lexes cs Ends Good) (second : Lexes ds Ends' Good')
    (ends : ∀ rest, Ends' rest → Ends (ds ++ rest)) :
    Lexes (cs ++ ds) Ends' fun w => ∃ u v, w = u ++ v ∧ Good u ∧ Good' v := by
  intro rest position behind
  obtain ⟨u, between, good, tokens⟩ := first (ds ++ rest) position (ends rest behind)
  obtain ⟨v, position', good', tokens'⟩ := second rest between behind
  refine ⟨u ++ v, position', ⟨u, v, rfl, good, good'⟩, ?_⟩
  rw [List.append_assoc, tokens, tokens', List.append_assoc]

/-- Blanks are one token, or none at all. -/
theorem Blanks.lexes (h : Blanks cs) : Lexes cs NoBlank parser.Gap := by
  intro rest position ends
  cases cs with
  | nil => exact ⟨[], position, gap_nil, rfl⟩
  | cons c more =>
      obtain ⟨first, others⟩ := List.forall_mem_cons.mp h
      have run : Profile.canonical.RunChars .blank (c :: more) := by
        refine ⟨c, more, rfl, ?_, others⟩
        rw [Profile.opens?, if_pos first]
      refine ⟨[_], _, ?_, Profile.tokensFrom_run run ends position⟩
      exact List.forall_mem_singleton.mpr rfl

/-- A punctuation character is one token, the symbol that is written with it. -/
theorem lexes_symbol (s : Symbol) {c : Char} (mem : c ∈ s.chars)
    (closed : Profile.canonical.opens? c = none) :
    Lexes [c] (fun _ => True) fun w => ∃ o, w = [o] ∧ s.Stands o ∧ o.text = String.singleton c := by
  intro rest position _
  refine ⟨_, _, ⟨_, rfl, ?_, rfl⟩, Profile.tokensFrom_punctuation closed rfl position rest⟩
  exact Symbol.stands_of_is (.punctuation c rfl rfl closed rfl) rfl
    (Symbol.is_of_mem_chars mem rfl)

/-- Digits are one token, a number. -/
theorem Digits.lexes (h : Digits cs) : Lexes cs NoDigit fun w =>
    ∃ d, w = [d] ∧ Symbol.number.Stands d ∧ d.text = String.ofList cs := by
  intro rest position ends
  refine ⟨_, _, ⟨_, rfl, ?_, rfl⟩, Profile.tokensFrom_run h.runChars ends position⟩
  refine Symbol.stands_of_is (.run .number rfl ?_) rfl rfl
  show Profile.canonical.RunChars .number (String.ofList cs).toList
  rw [String.toList_ofList]
  exact h.runChars

/-- **The tokens of a written integer are an operand with its value.** -/
theorem Spells.lexes {n : Int} (h : Spells cs n) : Lexes cs NoDigit
    (Computes 6 "unary-expression" [.point, .mark, .number] · [digitCount cs] n) := by
  have signed : ∀ (s : Symbol) {c : Char} {digits : List Char}, s ∈ [Symbol.plus, .minus] →
      c ∈ s.chars → Profile.canonical.opens? c = none → Digits digits →
      Spells (c :: digits) n → Lexes ([c] ++ digits) NoDigit
        (Computes 6 "unary-expression" [.point, .mark, .number] · [digitCount (c :: digits)] n)
      := by
    intro s c digits sign written closed isDigits spelled
    refine ((lexes_symbol s written closed).append isDigits.lexes fun _ _ => trivial).imp ?_
    rintro w ⟨u, v, rfl, ⟨o, rfl, stands, text⟩, d, rfl, number, text'⟩
    refine computes_integer (.signed sign stands) number spelled (String.toList_inj.mp ?_)
    simp [Token.join, text, text']
  cases h with
  | unsigned digits =>
      refine digits.lexes.imp ?_
      rintro w ⟨d, rfl, number, text⟩
      refine computes_integer .unsigned number (.unsigned digits) (String.toList_inj.mp ?_)
      simp [Token.join, text]
  | positive digits =>
      exact signed .plus (by decide) (by decide) (by decide) digits (.positive digits)
  | negative digits =>
      exact signed .minus (by decide) (by decide) (by decide) digits (.negative digits)

end Lexing

/-! ### Values of written forms -/

/-- The levels of nesting that an operand needs. -/
def Level.operandBound (nesting : Nat) : Level → Nat
  | .sum => 8 + 7 * nesting
  | .product => 6 + 7 * nesting

/-- **The tokens of a written form have a value.**  Where only operations of some
strength may stand without parentheses they are a sum, a product or an operand. -/
def Reads (nesting : Nat) : (strength : Nat) → List Token → (lengths : List Nat) → Int → Prop
  | 0 => Chain .sum (Level.sum.operandBound nesting)
  | 1 => Chain .product (Level.product.operandBound nesting)
  | _ => Computes (Level.product.operandBound nesting) Level.product.operandRule
      Level.product.operandStops

section Forms

variable {nesting strength : Nat} {w : List Token} {n : Int} {e : Expr} {cs rest : List Char}
variable {ks ls : List Nat}

/-- Operations of one strength are a chain of their level. -/
theorem reads_strength (operation : Operation) : Reads nesting operation.strength =
    Chain operation.level (operation.level.operandBound nesting) := by
  cases operation <;> rfl

/-- What binds more strongly than an operation is an operand of it. -/
theorem operand_of_reads (operation : Operation)
    (h : Reads nesting (operation.strength + 1) w ks n) :
    Computes (operation.level.operandBound nesting) operation.level.operandRule
      operation.level.operandStops w ks n := by
  have sum : Reads nesting 1 w ks n → Computes (Level.sum.operandBound nesting)
      Level.sum.operandRule Level.sum.operandStops w ks n :=
    fun chain => (Chain.computes chain).mono (by simp only [Level.operandBound]; omega)
  cases operation with
  | add => exact sum h
  | subtract => exact sum h
  | multiply => exact h

theorem reads_sum_of_product (h : Reads nesting 1 w ks n) : Reads nesting 0 w ks n :=
  Chain.operand (operand_of_reads .add h)

/-- An operand may stand anywhere. -/
theorem reads_of_operand (h : Computes (Level.product.operandBound nesting)
    Level.product.operandRule Level.product.operandStops w ks n) :
    ∀ strength, Reads nesting strength w ks n
  | 0 => reads_sum_of_product (Chain.operand h)
  | 1 => Chain.operand h
  | _ + 2 => h

/-- An operation may stand where a weaker one may. -/
theorem reads_of_le {operation : Operation} (le : strength ≤ operation.strength)
    (h : Reads nesting operation.strength w ks n) : Reads nesting strength w ks n := by
  rcases Nat.eq_or_lt_of_le le with rfl | lt
  · exact h
  · cases operation with
    | add => cases lt
    | subtract => cases lt
    | multiply =>
        obtain rfl : strength = 0 := Nat.lt_one_iff.mp lt
        exact reads_sum_of_product h

/-- A written form begins with a character that is not blank. -/
theorem Written.exists_cons (h : Written nesting strength e ks cs) :
    ∃ c more, cs = c :: more ∧ Text.isBlank c = false := by
  induction h with
  | literal spelled =>
      cases spelled with
      | unsigned digits =>
          obtain ⟨c, more, rfl⟩ := List.exists_cons_of_ne_nil digits.1
          exact ⟨c, more, rfl, (Spells.unsigned digits).noBlank c List.mem_cons_self⟩
      | positive digits => exact ⟨_, _, rfl, by decide⟩
      | negative digits => exact ⟨_, _, rfl, by decide⟩
  | binary _ _ _ _ _ ih _ =>
      obtain ⟨c, more, rfl, solid⟩ := ih
      exact ⟨c, _, rfl, solid⟩
  | parenthesised _ _ _ _ => exact ⟨_, _, rfl, by decide⟩

theorem Written.noBlank (h : Written nesting strength e ks cs) (rest : List Char) :
    NoBlank (cs ++ rest) := by
  obtain ⟨first, others, rfl, solid⟩ := h.exists_cons
  rintro c ⟨⟩
  exact solid

/-- Blanks do not go on with a number. -/
theorem Blanks.noDigit (blank : Blanks cs) (ends : NoDigit rest) : NoDigit (cs ++ rest) := by
  intro d head
  cases cs with
  | nil => exact ends d head
  | cons c more =>
      cases head
      have isBlank := blank d List.mem_cons_self
      refine Bool.eq_false_iff.mpr fun digit => ?_
      rw [(Numeral.digitChars_spec d (Numeral.mem_digitChars digit)).1] at isBlank
      cases isBlank

/-- An operation of tokens with values. -/
theorem reads_operation {operation : Operation} {u gap gap' : List Token} {o : Token} {a b : Int}
    (left : Reads nesting operation.strength u ks a)
    (right : Reads nesting (operation.strength + 1) w ls b) (stands : operation.symbol.Stands o)
    (text : o.text = String.singleton operation.char) (blank : parser.Gap gap)
    (blank' : parser.Gap gap') :
    Reads nesting operation.strength (u ++ (gap ++ o :: (gap' ++ w))) (ks ++ ls)
      (operation.apply a b) := by
  rw [reads_strength] at left ⊢
  exact .operation left rfl stands text blank blank' (operand_of_reads operation right)

/-- Parenthesised tokens with a value. -/
theorem reads_parenthesised {gap gap' : List Token} {o c : Token}
    (opening : Symbol.opening.Stands o) (text : o.text = "(") (closing : Symbol.closing.Stands c)
    (blank : parser.Gap gap) (blank' : parser.Gap gap') (h : Reads nesting 0 w ks n) :
    Reads (nesting + 1) strength (o :: (gap ++ (w ++ (gap' ++ [c])))) ks n := by
  have sum : Computes (Level.sum.operandBound nesting + 2) "additive-expression"
      Level.sum.chainStops w ks n := Chain.computes h
  have operand := computes_parenthesised opening text closing blank blank'
    (by simp only [Level.operandBound]; omega) sum
  exact reads_of_operand (operand.mono (by simp only [Level.operandBound]; omega)) strength

/-- The character of an operation is a symbol of its own. -/
theorem Operation.char_spec (operation : Operation) :
    operation.char ∈ operation.symbol.chars ∧ Profile.canonical.opens? operation.char = none ∧
      operation.char.isDigit = false ∧ Text.isBlank operation.char = false := by
  cases operation <;> decide

/-- **The tokens of a written form have the value of the expression.** -/
theorem Written.lexes (h : Written nesting strength e ks cs) :
    Lexes cs NoDigit (Reads nesting strength · ks e.value) := by
  induction h with
  | literal spelled =>
      exact spelled.lexes.imp fun w operand =>
        reads_of_operand (operand.mono (Nat.le_add_right 6 _)) _
  | @binary nesting strength operation left right ks ls cs ds before after le _ written blank blank'
      ihLeft ihRight =>
      obtain ⟨mem, closed, notDigit, notBlank⟩ := operation.char_spec
      have operand := blank'.lexes.append ihRight fun rest _ => written.noBlank rest
      have round := (lexes_symbol operation.symbol mem closed).append operand fun _ _ => trivial
      have rounds := blank.lexes.append round fun _ _ => by rintro c ⟨⟩; exact notBlank
      have all := ihLeft.append rounds fun rest _ => by
        rw [List.append_assoc]
        exact blank.noDigit (by rintro c ⟨⟩; exact notDigit)
      refine all.imp ?_
      rintro w ⟨u, _, rfl, readsLeft, gap, _, rfl, isGap, _, _, rfl, ⟨o, rfl, stands, text⟩,
        gap', v, rfl, isGap', readsRight⟩
      have reads := reads_operation readsLeft readsRight stands text isGap isGap'
      exact reads_of_le le reads
  | @parenthesised nesting strength e ks cs before after written blank blank' ih =>
      have closing := lexes_symbol .closing (show ')' ∈ _ by decide) (by decide)
      have opening := lexes_symbol .opening (show '(' ∈ _ by decide) (by decide)
      have ending := blank'.lexes.append closing fun _ _ => by rintro c ⟨⟩; decide
      have inner := ih.append ending fun rest _ => by
        rw [List.append_assoc]
        exact blank'.noDigit (by rintro c ⟨⟩; decide)
      have inside := blank.lexes.append inner fun rest _ => by
        rw [List.append_assoc]
        exact written.noBlank _
      have all := opening.append inside fun _ _ => trivial
      intro rest position _
      obtain ⟨w, position', ⟨_, _, rfl, ⟨o, rfl, stands, text⟩, gap, _, rfl, isGap, v, _, rfl,
        reads, gap', _, rfl, isGap', c, rfl, stands', -⟩, tokens⟩ := all rest position trivial
      exact ⟨_, position', reads_parenthesised stands text stands' isGap isGap' reads, tokens⟩

end Forms

/-- **Every written form is parsed** if its parentheses nest at most 35 deep, with blanks
around it, and its value is computed from its literals. -/
theorem Written.evaluate {e : Expr} {lengths : List Nat} {cs before after : List Char}
    (h : Written 35 0 e lengths cs) (blank : Blanks before) (blank' : Blanks after) :
    ∃ term, (language.parse (String.ofList (before ++ (cs ++ after)))).outcome = .ok term ∧
      term.ok = true ∧ language.evaluate term = Value.number <$> limited lengths e.value := by
  have last : Lexes after (· = []) parser.Gap := by
    rintro rest position rfl
    exact blank'.lexes [] position nofun
  have form := h.lexes.append last fun rest isEnd => blank'.noDigit (by rw [isEnd]; nofun)
  have all := blank.lexes.append form fun rest _ => by
    rw [List.append_assoc]
    exact h.noBlank _
  obtain ⟨_, _, ⟨gap, _, rfl, isGap, w, gap', rfl, reads, isGap'⟩, tokens⟩ := all [] .start rfl
  have lexed : Profile.canonical.tokens (String.ofList (before ++ (cs ++ after))) =
      (gap ++ w) ++ gap' := by
    show Profile.canonical.tokensFrom .start (String.ofList _).toList = _
    rw [String.toList_ofList, List.append_assoc]
    simpa using tokens
  -- the sum of the whole form is an expression, and the expression is the root
  have sum : Computes 255 "additive-expression" Level.sum.chainStops w lengths e.value :=
    Chain.computes reads
  obtain ⟨begins, computes⟩ :=
    Computes.under "additive-expression" "expression" rfl (by decide) rfl sum
  have ends : Stops Level.sum.chainStops gap' := by
    have atEnd := stops_gap isGap' (stops_nil Level.sum.chainStops)
    rwa [List.append_nil] at atEnd
  obtain ⟨children, takes, value⟩ := computes gap' ends
  have root := @takes_alias w gap' gap 256 children "calc" "expression" rfl isGap begins takes
  have parsed := root.parse skips (by decide) isGap'
  rw [← lexed, List.append_assoc] at parsed
  refine ⟨_, (Language.outcome_parse rfl _).trans
    (Language.outcome_parseTokens_eq_ok.mpr parsed), rfl, ?_⟩
  exact (valueOf_alias (by decide) rfl isGap isGap').trans value

/-- **The calculator computes.**  Every written form of an expression over integers
whose parentheses nest at most 35 deep, with blanks around it, is parsed.  If no literal
has more digits than are read as an integer, its value is the value of the expression,
and otherwise it has none, because of the first literal that has more. -/
theorem evaluate_written {e : Expr} {lengths : List Nat} {cs before after : List Char}
    (h : Written 35 0 e lengths cs) (blank : Blanks before) (blank' : Blanks after) :
    ∃ term, (language.parse (String.ofList (before ++ (cs ++ after)))).outcome = .ok term ∧
      term.ok = true ∧
      ((∀ k ∈ lengths, k ≤ Numeral.maxDigits) →
        language.evaluate term = .ok (.number (.int e.value))) ∧
      ∀ k, lengths.find? (Numeral.maxDigits < ·) = some k →
        language.evaluate term = fail (.integer (.tooManyDigits k)) := by
  obtain ⟨term, parsed, isOk, value⟩ := h.evaluate blank blank'
  refine ⟨term, parsed, isOk, fun few => ?_, fun k first => ?_⟩
  · rw [value, limited_of_few few]
    rfl
  · rw [value, limited_of_many first]
    rfl

/-- There are literals of any length. -/
theorem exists_written (length : Nat) (filled : 0 < length) :
    ∃ (n : Int) (cs : List Char), Written 35 0 (.literal n) [length] cs := by
  obtain ⟨k, rfl⟩ := Nat.exists_eq_add_one.mpr filled
  have nines : Digits (List.replicate (k + 1) '9') := by
    refine ⟨List.ne_nil_of_length_eq_add_one List.length_replicate, fun c mem => ?_⟩
    rw [List.eq_of_mem_replicate mem]
    rfl
  have form : Written 35 0 _ _ _ := .literal (.unsigned nines)
  rw [nines.digitCount_eq, List.length_replicate] at form
  exact ⟨_, _, form⟩

/-- A difference with a signed literal, a parenthesised factor and blanks, and a literal
with one digit too many. -/
theorem evaluate_written_difference :
    (Written 35 0 (.binary .subtract (.binary .multiply (.binary .subtract (.literal 1)
        (.literal (-2))) (.literal 7)) (.literal 3)) [1, 1, 2, 1] "( 1--2)*+07 - 3".toList ∧
      ∃ term, (language.parse " ( 1--2)*+07 - 3\n").outcome = .ok term ∧ term.ok = true ∧
        language.evaluate term = .ok (.number (.int 18))) ∧
    ∃ n cs term, Written 35 0 (.literal n) [4301] cs ∧
      (language.parse (String.ofList cs)).outcome = .ok term ∧ term.ok = true ∧
      language.evaluate term = fail (.integer (.tooManyDigits 4301)) := by
  have digits : Digits ['1'] ∧ Digits ['2'] ∧ Digits ['0', '7'] ∧ Digits ['3'] := by
    simp only [Digits]
    decide
  obtain ⟨one, two, seven, three⟩ := digits
  have none : Blanks [] := nofun
  have blank : Blanks [' '] := List.forall_mem_singleton.mpr (by decide)
  have inner := @Written.binary 34 0 .subtract (.literal 1) (.literal (-2)) _ _ ['1'] ['-', '2']
    [] [] (by decide) (.literal (.unsigned one)) (.literal (.negative two)) none none
  have factor := @Written.parenthesised 34 1 _ _ _ [' '] [] inner blank none
  have term := @Written.binary 35 0 .multiply _ (.literal 7) _ _ _ ['+', '0', '7'] [] []
    (by decide) factor (.literal (.positive seven)) none none
  have form := @Written.binary 35 0 .subtract _ (.literal 3) _ _ _ ['3'] [' '] [' '] (by decide)
    term (.literal (.unsigned three)) blank blank
  obtain ⟨tree, parsed, isOk, value, -⟩ := @evaluate_written _ _ _ [' '] ['\n'] form blank
    (List.forall_mem_singleton.mpr (by decide))
  obtain ⟨n, cs, long⟩ := exists_written 4301 (by decide)
  obtain ⟨tree', parsed', isOk', -, refused⟩ := @evaluate_written _ _ _ [] [] long none none
  rw [List.nil_append, List.append_nil] at parsed'
  exact ⟨⟨form, tree, parsed, isOk, value (by decide)⟩, n, cs, tree', long, parsed', isOk',
    refused 4301 (by decide)⟩

/-- **A literal of 4301 digits has no value**, so not every written form has the value of
its expression. -/
theorem not_forall_evaluate_written :
    ¬ ∀ (e : Expr) (lengths : List Nat) (cs before after : List Char),
      Written 35 0 e lengths cs → Blanks before → Blanks after →
        ∃ term, (language.parse (String.ofList (before ++ (cs ++ after)))).outcome = .ok term ∧
          term.ok = true ∧ language.evaluate term = .ok (.number (.int e.value)) := by
  intro all
  obtain ⟨n, cs, form⟩ := exists_written 4301 (by decide)
  have none : Blanks [] := nofun
  obtain ⟨term, parsed, -, refused⟩ := form.evaluate none none
  obtain ⟨term', parsed', -, value⟩ := all _ _ _ _ _ form none none
  obtain rfl : term = term' := Except.ok.inj (parsed.symm.trans parsed')
  have many : [4301].find? (Numeral.maxDigits < ·) = some 4301 := by decide
  rw [value, limited_of_many many] at refused
  cases refused

end GrammarKit.Calculator
