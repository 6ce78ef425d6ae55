import GrammarKit.Proofs.CalculatorArithmetic
import GrammarKit.Proofs.CalculatorSentences
import GrammarKit.Proofs.RuleSuccesses

/-!
# Literals of the calculator have values

The grammar puts literals together from tokens, and their text is then read as a
number.  Whatever the grammar accepts as a literal can be read, as long as no blanks
stand inside and an integer has not too many digits: its text is digits with a point
before, behind or between them, or digits alone, with a sign before them if there is
one, and an exponent behind them.

## Main Definitions

* `Calculator.Pointed` — digits with a point before, behind or between them
* `Calculator.SpellsFloat` — the written forms of a number with a point
* `Calculator.Spaced` — a term with blanks in its text
* `Calculator.LongInteger` — an integer literal with too many digits

## Main Statements

* `Calculator.SpellsFloat.exists_float?` — each of these forms is read as a number
* `Calculator.Sentence.spellsFloat`, `Calculator.Sentence.spells` — the sentences of
  literals are written in these forms
* `Calculator.exists_valueOf_literal` — a literal without blanks has a number for its
  value, or is an integer with too many digits

## Design Notes

Reading a number also knows infinity and what is not a number by their names.  No
literal of the grammar begins with a letter, so these do not come up.
-/

namespace GrammarKit

namespace Numeral

variable {cs whole fraction : List Char}

/-- Digits that may be missing give their values. -/
theorem digits?_of_digitChars (h : ∀ c ∈ cs, c ∈ digitChars) :
    digits? cs = some (cs.map fun c => c.toNat - '0'.toNat) := by
  cases cs with
  | nil => rfl
  | cons c rest => exact digitRun?_of_digitChars (List.cons_ne_nil c rest) h

/-- Digits around a point are divided there. -/
theorem mantissa?_of_digitChars (before : ∀ c ∈ whole, c ∈ digitChars)
    (behind : ∀ c ∈ fraction, c ∈ digitChars) (filled : whole ++ fraction ≠ []) :
    ∃ digits, mantissa? (whole ++ '.' :: fraction) = some digits := by
  have noPoint : ∀ c ∈ digitChars, (!(c == '.')) = true := by decide
  have plain : ∀ c ∈ whole, (!(c == '.')) = true := fun c mem => noPoint c (before c mem)
  have taken : (whole ++ '.' :: fraction).takeWhile (fun c => !(c == '.')) = whole := by
    rw [List.takeWhile_append_of_pos plain, List.takeWhile_cons_of_neg (by decide),
      List.append_nil]
  have dropped : (whole ++ '.' :: fraction).dropWhile (fun c => !(c == '.')) = '.' :: fraction := by
    rw [List.dropWhile_append_of_pos plain, List.dropWhile_cons_of_neg (by decide)]
  simp only [mantissa?, taken, dropped, List.drop_one, List.tail_cons,
    digits?_of_digitChars before, digits?_of_digitChars behind, bind, Option.bind]
  rw [if_neg]
  · exact ⟨_, rfl⟩
  · simpa using filled

/-- What is written with a digit or a point first is no name of a number. -/
theorem toLower_ne_name {c : Char} (head : cs.head? = some c) (first : c ∈ '.' :: digitChars)
    (name : String) (named : name ∈ ["inf", "infinity", "nan"]) :
    String.ofList (cs.map Char.toLower) ≠ name := by
  have other : ∀ d ∈ '.' :: digitChars, d.toLower ≠ 'i' ∧ d.toLower ≠ 'n' := by decide
  obtain ⟨rest, rfl⟩ := List.head?_eq_some_iff.mp head
  intro same
  have chars := congrArg String.toList same
  rw [String.toList_ofList, List.map_cons] at chars
  simp only [List.mem_cons, List.not_mem_nil, or_false] at named
  rcases named with rfl | rfl | rfl
  · exact (other c first).1 (List.cons.inj chars).1
  · exact (other c first).1 (List.cons.inj chars).1
  · exact (other c first).2 (List.cons.inj chars).1

end Numeral

/-- The characters of tokens are those of their texts. -/
theorem Token.toList_join (w : List Token) :
    (Token.join w).toList = w.flatMap fun t => t.text.toList := by
  rw [Token.join, String.toList_join, List.flatMap_map]

namespace Calculator

open GrammarKit.Parser

/-! ### Written forms -/

/-- **Digits with a point** before, behind or between them. -/
def Pointed (cs : List Char) : Prop :=
  ∃ whole fraction, cs = whole ++ '.' :: fraction ∧ whole ++ fraction ≠ [] ∧
    ∀ c ∈ whole ++ fraction, c.isDigit = true

/-- The signs that a number may have, and none. -/
def signs : List (List Char) := [[], ['+'], ['-']]

/-- **The written forms of a number with a point**: possibly a sign, digits with a point,
and possibly an exponent. -/
inductive SpellsFloat : List Char → Prop where
  | fixed {sign cs : List Char} : sign ∈ signs → Pointed cs → SpellsFloat (sign ++ cs)
  | scientific {sign cs ds : List Char} {mark : Char} {n : Int} :
      sign ∈ signs → Pointed cs → mark ∈ Symbol.mark.chars → Spells ds n →
      SpellsFloat (sign ++ (cs ++ mark :: ds))

namespace Pointed

variable {cs : List Char}

theorem mem_digitChars (h : Pointed cs) : ∀ c ∈ cs, c ∈ '.' :: Numeral.digitChars := by
  obtain ⟨whole, fraction, rfl, -, digits⟩ := h
  intro c mem
  rcases List.mem_append.mp mem with before | here
  · exact List.mem_cons_of_mem _
      (Numeral.mem_digitChars (digits c (List.mem_append_left _ before)))
  · rcases List.mem_cons.mp here with rfl | behind
    · exact List.mem_cons_self
    · exact List.mem_cons_of_mem _
        (Numeral.mem_digitChars (digits c (List.mem_append_right _ behind)))

theorem noSpacing (h : Pointed cs) : ∀ c ∈ cs, Text.isSpacing c = false := by
  have each : ∀ c ∈ '.' :: Numeral.digitChars, Text.isSpacing c = false := by decide
  exact fun c mem => each c (h.mem_digitChars c mem)

/-- A digit or the point comes first, whatever follows. -/
theorem exists_head (h : Pointed cs) (ds : List Char) :
    ∃ c ∈ '.' :: Numeral.digitChars, (cs ++ ds).head? = some c := by
  have member := h.mem_digitChars
  obtain ⟨whole, fraction, rfl, -, -⟩ := h
  obtain ⟨c, rest, same⟩ := List.exists_cons_of_ne_nil
    (show whole ++ '.' :: fraction ≠ [] by simp)
  rw [same] at member ⊢
  exact ⟨c, member c List.mem_cons_self, rfl⟩

theorem exists_mantissa? (h : Pointed cs) : ∃ digits, Numeral.mantissa? cs = some digits := by
  obtain ⟨whole, fraction, rfl, filled, digits⟩ := h
  rw [List.forall_mem_append] at digits
  exact Numeral.mantissa?_of_digitChars (fun c mem => Numeral.mem_digitChars (digits.1 c mem))
    (fun c mem => Numeral.mem_digitChars (digits.2 c mem)) filled

/-- Digits with a point, before something that an exponent can be read from, are read as
a number. -/
theorem exists_magnitude? (h : Pointed cs) {ds : List Char}
    (marked : ∀ c, ds.head? = some c → (c == 'e' || c == 'E') = true)
    (readable : ∃ n, Numeral.exponent? ds = some n) :
    ∃ x, Numeral.magnitude? (cs ++ ds) = some x := by
  have noMark : ∀ c ∈ '.' :: Numeral.digitChars, (!(c == 'e' || c == 'E')) = true := by decide
  have plain : ∀ c ∈ cs, (!(c == 'e' || c == 'E')) = true :=
    fun c mem => noMark c (h.mem_digitChars c mem)
  have stops : ds.takeWhile (fun c => !(c == 'e' || c == 'E')) = [] ∧
      ds.dropWhile (fun c => !(c == 'e' || c == 'E')) = ds := by
    cases ds with
    | nil => exact ⟨rfl, rfl⟩
    | cons c rest =>
        have here : ¬ (!(c == 'e' || c == 'E')) = true := by rw [marked c rfl]; decide
        exact ⟨List.takeWhile_cons_of_neg here, List.dropWhile_cons_of_neg here⟩
  have taken : (cs ++ ds).takeWhile (fun c => !(c == 'e' || c == 'E')) = cs := by
    rw [List.takeWhile_append_of_pos plain, stops.1, List.append_nil]
  have dropped : (cs ++ ds).dropWhile (fun c => !(c == 'e' || c == 'E')) = ds := by
    rw [List.dropWhile_append_of_pos plain, stops.2]
  obtain ⟨digits, mantissa⟩ := h.exists_mantissa?
  obtain ⟨n, exponent⟩ := readable
  obtain ⟨c, first, head⟩ := h.exists_head ds
  have unnamed := Numeral.toLower_ne_name head first
  have finite : ¬ (decide (String.ofList ((cs ++ ds).map Char.toLower) = "inf") ||
      decide (String.ofList ((cs ++ ds).map Char.toLower) = "infinity")) = true := by
    rw [decide_eq_false (unnamed "inf" (by decide)),
      decide_eq_false (unnamed "infinity" (by decide))]
    decide
  simp only [Numeral.magnitude?, taken, dropped, mantissa, exponent]
  rw [if_neg finite, if_neg (unnamed "nan" (by decide))]
  exact ⟨_, rfl⟩

end Pointed

/-- An exponent is read behind its mark. -/
theorem Spells.exists_exponent? {cs : List Char} {n : Int} (h : Spells cs n) (mark : Char) :
    ∃ m, Numeral.exponent? (mark :: cs) = some m := by
  cases h with
  | unsigned digits =>
      have run := Numeral.digitRun?_of_digitChars digits.1 digits.digitChars
      simp [Numeral.exponent?, Numeral.splitSign_of_digitChars digits.digitChars, run]
  | positive digits =>
      have run := Numeral.digitRun?_of_digitChars digits.1 digits.digitChars
      simp [Numeral.exponent?, Numeral.splitSign, run]
  | negative digits =>
      have run := Numeral.digitRun?_of_digitChars digits.1 digits.digitChars
      simp [Numeral.exponent?, Numeral.splitSign, run]

/-- A sign is split off, and what has none is left as it is. -/
theorem splitSign_signed {sign cs : List Char} (signed : sign ∈ signs)
    (plain : ∀ c, cs.head? = some c → c ≠ '-' ∧ c ≠ '+') :
    ∃ negative, Numeral.splitSign (sign ++ cs) = (negative, cs) := by
  simp only [signs, List.mem_cons, List.not_mem_nil, or_false] at signed
  rcases signed with rfl | rfl | rfl
  · refine ⟨false, ?_⟩
    cases cs with
    | nil => rfl
    | cons c rest =>
        obtain ⟨minus, plus⟩ := plain c rfl
        simp [Numeral.splitSign, minus, plus]
  · exact ⟨false, rfl⟩
  · exact ⟨true, rfl⟩

/-- What a sign and a magnitude are read as. -/
theorem exists_float?_of_magnitude? {sign cs : List Char} {x : Float} (signed : sign ∈ signs)
    (plain : ∀ c, cs.head? = some c → c ≠ '-' ∧ c ≠ '+')
    (noSpacing : ∀ c ∈ cs, Text.isSpacing c = false) (read : Numeral.magnitude? cs = some x) :
    ∃ y, Numeral.float? (String.ofList (sign ++ cs)) = some y := by
  have noBlank : ∀ c ∈ sign ++ cs, Text.isBlank c = false := by
    have inSign : ∀ sign ∈ signs, ∀ c ∈ sign, Text.isBlank c = false := by decide
    refine List.forall_mem_append.mpr ⟨inSign sign signed, fun c mem => ?_⟩
    have none := noSpacing c mem
    rw [Text.isSpacing, Bool.or_eq_false_iff] at none
    exact none.1
  obtain ⟨negative, split⟩ := splitSign_signed signed plain
  refine ⟨if negative then -x else x, ?_⟩
  simp only [Numeral.float?, String.toList_ofList, Numeral.trim_of_noBlank noBlank, split, read,
    Option.map_some]

/-- **Every written form of a number with a point is read as a number.** -/
theorem SpellsFloat.exists_float? {cs : List Char} (h : SpellsFloat cs) :
    ∃ x, Numeral.float? (String.ofList cs) = some x := by
  have unsigned : ∀ {cs ds : List Char}, Pointed cs →
      ∀ c, (cs ++ ds).head? = some c → c ≠ '-' ∧ c ≠ '+' := by
    have each : ∀ c ∈ '.' :: Numeral.digitChars, c ≠ '-' ∧ c ≠ '+' := by decide
    intro cs ds pointed c head
    obtain ⟨d, first, same⟩ := pointed.exists_head ds
    obtain rfl : d = c := Option.some.inj (same.symm.trans head)
    exact each d first
  cases h with
  | @fixed sign cs signed pointed =>
      obtain ⟨x, read⟩ := @Pointed.exists_magnitude? cs pointed [] nofun ⟨0, rfl⟩
      have plain := @unsigned cs [] pointed
      rw [List.append_nil] at read plain
      exact exists_float?_of_magnitude? signed plain pointed.noSpacing read
  | @scientific sign cs ds mark n signed pointed isMark exponent =>
      have marks : ∀ c ∈ Symbol.mark.chars,
          (c == 'e' || c == 'E') = true ∧ Text.isSpacing c = false := by decide
      obtain ⟨x, read⟩ := @Pointed.exists_magnitude? cs pointed (mark :: ds)
        (fun c head => Option.some.inj head ▸ (marks mark isMark).1)
        (exponent.exists_exponent? mark)
      refine exists_float?_of_magnitude? signed (unsigned pointed) ?_ read
      exact List.forall_mem_append.mpr ⟨pointed.noSpacing,
        List.forall_mem_cons.mpr ⟨(marks mark isMark).2, exponent.noSpacing⟩⟩

/-! ### Texts of literals -/

variable {t : Token} {w tokens : List Token} {name : String} {children : List Tree}

/-- The text of a number is digits. -/
theorem digits_of_number (fits : Profile.canonical.Fits t) (is : Symbol.number.Is t) :
    Digits t.text.toList := by
  have type : t.type = Token.numberType := is
  cases fits with
  | run kind ofKind chars =>
      obtain ⟨c, rest, same, opens, continues⟩ := chars
      have isNumber : kind = .number := by
        rw [ofKind] at type
        cases kind with
        | number => rfl
        | blank => exact absurd type (by decide)
        | word => exact absurd type (by decide)
      subst isNumber
      rw [same]
      exact ⟨List.cons_ne_nil c rest,
        List.forall_mem_cons.mpr ⟨Profile.starts_of_opens? opens, continues⟩⟩
  | punctuation _ ofKind _ _ _ =>
      rw [ofKind] at type
      exact absurd type (by decide)

/-- The text of an optional sign. -/
theorem mem_signs_of_isSign (h : IsSign Symbol.Is w ∨ w = []) :
    (Token.join w).toList ∈ signs := by
  rcases h with ⟨s, mem, t, rfl, is⟩ | rfl
  · rw [Token.toList_join, List.flatMap_singleton]
    simp only [List.mem_cons, List.not_mem_nil, or_false] at mem
    rcases mem with rfl | rfl
    · obtain ⟨c, isPlus, text⟩ := is
      rw [text, List.mem_singleton.mp isPlus]
      decide
    · obtain ⟨c, isMinus, text⟩ := is
      rw [text, List.mem_singleton.mp isMinus]
      decide
  · decide

namespace Sentence

/-- **The text of an integer literal spells an integer.** -/
theorem spells (h : Sentence Symbol.Is .integer w)
    (fits : ∀ t ∈ w, Profile.canonical.Fits t) : ∃ n, Spells (Token.join w).toList n := by
  cases h with
  | @digits sign a signed number =>
      have digits := digits_of_number (fits a (by simp)) number
      have isSign := mem_signs_of_isSign signed
      rw [Token.toList_join] at isSign ⊢
      rw [List.flatMap_append, List.flatMap_singleton]
      simp only [signs, List.mem_cons, List.not_mem_nil, or_false] at isSign
      rcases isSign with none | plus | minus
      · rw [none]
        exact ⟨_, .unsigned digits⟩
      · rw [plus]
        exact ⟨_, .positive digits⟩
      · rw [minus]
        exact ⟨_, .negative digits⟩

/-- The text of a literal with a point is a sign, if there is one, and digits with a
point. -/
theorem pointed (h : Sentence Symbol.Is .real w) (fits : ∀ t ∈ w, Profile.canonical.Fits t) :
    ∃ sign cs, sign ∈ signs ∧ Pointed cs ∧ (Token.join w).toList = sign ++ cs := by
  have point : ∀ {d : Token}, Symbol.point.Is d → d.text.toList = ['.'] := by
    rintro d ⟨c, isPoint, text⟩
    rw [text, List.mem_singleton.mp isPoint]
    rfl
  cases h with
  | @decimal sign a d b signed whole isPoint fraction =>
      have before := digits_of_number (fits a (by simp)) whole
      have behind := digits_of_number (fits b (by simp)) fraction
      refine ⟨_, a.text.toList ++ '.' :: b.text.toList, mem_signs_of_isSign signed,
        ⟨_, _, rfl, by simp [before.1], List.forall_mem_append.mpr ⟨before.2, behind.2⟩⟩, ?_⟩
      simp [Token.toList_join, point isPoint]
  | @whole sign a d signed whole isPoint =>
      have before := digits_of_number (fits a (by simp)) whole
      refine ⟨_, a.text.toList ++ ['.'], mem_signs_of_isSign signed,
        ⟨_, [], rfl, by simp [before.1], by simpa using before.2⟩, ?_⟩
      simp [Token.toList_join, point isPoint]
  | @fraction sign d b signed isPoint fraction =>
      have behind := digits_of_number (fits b (by simp)) fraction
      refine ⟨_, '.' :: b.text.toList, mem_signs_of_isSign signed,
        ⟨[], _, rfl, by simpa using behind.1, by simpa using behind.2⟩, ?_⟩
      simp [Token.toList_join, point isPoint]

/-- **The text of a literal with a point is one of the written forms.** -/
theorem spellsFloat (h : Sentence Symbol.Is .float w)
    (fits : ∀ t ∈ w, Profile.canonical.Fits t) : SpellsFloat (Token.join w).toList := by
  cases h with
  | fixed real =>
      obtain ⟨sign, cs, signed, pointed, same⟩ := real.pointed fits
      rw [same]
      exact .fixed signed pointed
  | @scientific u v e real isMark integer =>
      rw [List.forall_mem_append, List.forall_mem_cons] at fits
      obtain ⟨sign, cs, signed, pointed, same⟩ := real.pointed fits.1
      obtain ⟨n, exponent⟩ := integer.spells fits.2.2
      obtain ⟨mark, isChar, text⟩ := isMark
      have chars : (Token.join (u ++ e :: v)).toList =
          sign ++ (cs ++ mark :: (Token.join v).toList) := by
        rw [Token.toList_join] at same ⊢
        rw [List.flatMap_append, same, List.flatMap_cons, text, Token.toList_join]
        simp
      rw [chars]
      exact .scientific signed pointed isChar exponent

end Sentence

/-! ### Values -/

/-- A blank token has blanks for its text. -/
theorem exists_spacing_of_blank (fits : Profile.canonical.Fits t)
    (blank : t.isBlank Token.blankTypes = true) :
    ∃ c ∈ t.text.toList, Text.isSpacing c = true := by
  have type : t.type ∈ Token.blankTypes := of_decide_eq_true blank
  cases fits with
  | run kind ofKind chars =>
      obtain ⟨c, rest, same, opens, -⟩ := chars
      have isBlank : kind = .blank := by
        rw [ofKind] at type
        cases kind with
        | blank => rfl
        | word => exact absurd type (by decide)
        | number => exact absurd type (by decide)
      subst isBlank
      refine ⟨c, by rw [same]; exact List.mem_cons_self, ?_⟩
      exact Text.isSpacing_of_isBlank (Profile.starts_of_opens? opens)
  | punctuation _ ofKind _ _ _ =>
      rw [ofKind] at type
      exact absurd type (by decide)

/-- A text without blanks has no blank token. -/
theorem solid_of_noSpacing (fits : ∀ t ∈ w, Profile.canonical.Fits t)
    (noSpacing : ∀ c ∈ (Token.join w).toList, Text.isSpacing c = false) :
    Token.solid Token.blankTypes w = w := by
  refine List.filter_eq_self.mpr fun t mem => ?_
  cases blank : t.isBlank Token.blankTypes with
  | false => rfl
  | true =>
      obtain ⟨c, inside, spacing⟩ := exists_spacing_of_blank (fits t mem) blank
      rw [Token.toList_join] at noSpacing
      have none := noSpacing c (List.mem_flatMap.mpr ⟨t, mem, inside⟩)
      rw [spacing] at none
      cases none

/-- Whether a term has blanks of any kind in its text. -/
def Spaced (node : Term) : Prop :=
  ∃ c ∈ node.text.toList, Text.isSpacing c = true

instance (node : Term) : Decidable (Spaced node) :=
  inferInstanceAs (Decidable (∃ c ∈ node.text.toList, Text.isSpacing c = true))

/-- Whether a term is an integer literal with more digits than are read as an integer. -/
def LongInteger (node : Term) : Prop :=
  node.rule = "integer-constant" ∧ Numeral.maxDigits < digitCount node.text.toList

instance (node : Term) : Decidable (LongInteger node) :=
  inferInstanceAs (Decidable
    (node.rule = "integer-constant" ∧ Numeral.maxDigits < digitCount node.text.toList))

/-- The rules of literals. -/
def literalRules : List String := ["floating-constant", "integer-constant"]

/-- A literal with a point has the value that its text spells. -/
theorem valueOf_float {x : Float}
    (solid : ∀ c ∈ (Token.join (Tree.tokensIn children)).toList, Text.isSpacing c = false)
    (spelled : Numeral.float? (Token.join (Tree.tokensIn children)) = some x) :
    valueOf "floating-constant" children = .ok (.number (.float x)) := by
  have value : ∀ {s : Subject Error Value}, s.text = Token.join (Tree.tokensIn children) →
      evaluateFloat s = .ok (.number (.float x)) := by
    intro s text
    have noSpacing : ∀ c ∈ s.text.toList, Text.isSpacing c = false := by rwa [text]
    simp only [evaluateFloat, strictText_eq noSpacing, bind, Except.bind, text, spelled]
  rw [@valueOf_eq "floating-constant" evaluateFloat (by decide) rfl]
  exact value rfl

/-- **A literal without blanks has a number for its value**, or is an integer with too
many digits and refused for this reason. -/
theorem exists_valueOf_literal (fits : ∀ t ∈ tokens, Profile.canonical.Fits t)
    (made : parser.Makes tokens name children) (isLiteral : name ∈ literalRules)
    (solid : ¬ Spaced ⟨name, children, none⟩) :
    (∃ n, valueOf name children = .ok (.number n)) ∨
      LongInteger ⟨name, children, none⟩ ∧
        ∃ k, valueOf name children = fail (.integer (.tooManyDigits k)) := by
  have noSpacing : ∀ c ∈ (Token.join (Tree.tokensIn children)).toList,
      Text.isSpacing c = false := by
    intro c mem
    rw [← Bool.not_eq_true]
    exact fun spacing => solid ⟨c, mem, spacing⟩
  have inside : ∀ t ∈ Tree.tokensIn children, Profile.canonical.Fits t :=
    fun t mem => fits t (made.tokens_subset mem)
  have word := made.solid_word skips untilFree closed_words
  rw [show parser.blankTypes = Token.blankTypes from rfl, solid_of_noSpacing inside noSpacing]
    at word
  simp only [literalRules, List.mem_cons, List.not_mem_nil, or_false] at isLiteral
  rcases isLiteral with rfl | rfl
  · have sentence := (word.1 .float rfl).imp
      fun t mem s => (Symbol.accepts_iff (inside t mem) s).mp
    obtain ⟨x, read⟩ := (sentence.spellsFloat inside).exists_float?
    rw [String.ofList_toList] at read
    exact Or.inl ⟨.float x, valueOf_float noSpacing read⟩
  · have sentence := (word.1 .integer rfl).imp
      fun t mem s => (Symbol.accepts_iff (inside t mem) s).mp
    obtain ⟨n, spelled⟩ := sentence.spells inside
    have read := spelled.readInteger_eq
    rw [String.ofList_toList] at read
    rw [valueOf_integer noSpacing, read]
    by_cases many : Numeral.maxDigits < digitCount (Token.join (Tree.tokensIn children)).toList
    · rw [limited_of_many (List.find?_cons_of_pos (decide_eq_true many))]
      exact Or.inr ⟨⟨rfl, many⟩, _, rfl⟩
    · rw [limited_of_few (List.forall_mem_singleton.mpr (Nat.le_of_not_lt many))]
      exact Or.inl ⟨.int n, rfl⟩

end Calculator

end GrammarKit
