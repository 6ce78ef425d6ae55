import GrammarKit.Calculator.Evaluation
import GrammarKit.Proofs.Lexing

/-!
# The symbols of the calculator

The terminals of the calculator look at texts without regard to case, and at
types.  On the tokens of the lexer that comes to nine **symbols**: a token is one
of them by its exact text or type, and none of them twice.

## Main Definitions

* `Calculator.Symbol` — numbers, operators, parentheses, the point and the mark of
  an exponent
* `Calculator.Symbol.Is` — whether a token is a symbol, by its text or its type
* `Calculator.Symbol.Stands` — whether a token is taken for a symbol and for no
  other

## Main Statements

* `Text.ascii_of_upperChar` — nothing outside ASCII has the upper case of a symbol
* `Calculator.Symbol.accepts_iff` — the terminal of a symbol accepts the tokens
  that are the symbol
* `Calculator.Symbol.stands_of_is` — a token that is a symbol stands for it alone
-/

namespace GrammarKit

/-! ### What is mapped to an ASCII character -/

namespace Text

set_option maxRecDepth 4000 in
/-- Beyond ASCII only two letters have an ASCII letter as their upper case, `I` and
`S`. -/
theorem caseRuns_shift : ∀ run ∈ caseRuns,
    0x80 ≤ (run.first : Int) + run.shift ∨
      run.last ≤ run.first ∧ (run.first : Int) + run.shift ∈ [(0x49 : Int), 0x53] := by
  decide

theorem caseExpansions_length : ∀ expansion ∈ caseExpansions, 2 ≤ expansion.2.length := by
  decide

/-- The three ways in which a code point has an upper case. -/
theorem upperCode_cases (code : Nat) :
    (∃ run ∈ caseRuns, run.covers code = true ∧ upperCode code = [(code + run.shift).toNat]) ∨
      2 ≤ (upperCode code).length ∨ upperCode code = [code] := by
  unfold upperCode
  cases found : caseRuns.find? (CaseRun.covers · code) with
  | some run =>
      have covers := @List.find?_some _ (CaseRun.covers · code) run _ found
      exact Or.inl ⟨run, List.mem_of_find?_eq_some found, covers, rfl⟩
  | none =>
      refine Or.inr ?_
      cases expanded : caseExpansions.lookup code with
      | none => exact Or.inr rfl
      | some codes =>
          obtain ⟨front, others, same, -⟩ := List.lookup_eq_some_iff.mp expanded
          have mem : (code, codes) ∈ caseExpansions := by
            rw [same]
            simp
          exact Or.inl (caseExpansions_length _ mem)

theorem upperChar_ne_nil (c : Char) : upperChar c ≠ [] := by
  unfold upperChar
  split
  · simp
  · rcases upperCode_cases c.toNat with ⟨run, -, -, same⟩ | long | same
    · simp [same]
    · intro empty
      rw [List.map_eq_nil_iff.mp empty] at long
      cases long
    · simp [same]

/-- **Nothing outside ASCII has the upper case of an ASCII character** other than `I`
and `S`. -/
theorem ascii_of_upperChar {c d : Char} (h : upperChar c = [d]) (ascii : d.toNat < 0x80)
    (other : d.toNat ∉ [0x00, 0x49, 0x53]) : c.toNat < 0x80 := by
  have valid : ∀ n, Char.ofNat n = d → d.toNat = n := by
    rintro n rfl
    rcases Decidable.em n.isValidChar with isValid | bad
    · rw [Char.ofNat, dif_pos isValid]
      rfl
    · refine (other ?_).elim
      rw [Char.ofNat, dif_neg bad]
      decide
  refine Nat.lt_of_not_le fun beyond => ?_
  rw [upperChar, if_neg (Nat.not_lt.mpr beyond)] at h
  rcases upperCode_cases c.toNat with ⟨run, mem, covers, same⟩ | long | same
  · rw [same] at h
    have code := valid _ (List.cons.inj h).1
    simp only [CaseRun.covers, Bool.and_eq_true, decide_eq_true_eq] at covers
    rcases caseRuns_shift run mem with high | ⟨single, letter⟩
    · omega
    · simp only [List.mem_cons, List.not_mem_nil, or_false] at letter other
      omega
  · have length := congrArg List.length h
    rw [List.length_map, List.length_singleton] at length
    omega
  · rw [same] at h
    have code := valid _ (List.cons.inj h).1
    omega

/-- A text whose upper case is one character is one character. -/
theorem upper_eq_singleton {s : String} {d : Char} (h : upper s = String.singleton d) :
    ∃ c, s = String.singleton c ∧ upperChar c = [d] := by
  have chars : s.toList.flatMap upperChar = [d] := by
    rw [← toList_upper, h, String.toList_singleton]
  cases same : s.toList with
  | nil =>
      rw [same] at chars
      cases chars
  | cons c rest =>
      rw [same, List.flatMap_cons] at chars
      rcases List.append_eq_singleton_iff.mp chars with ⟨empty, -⟩ | ⟨single, none⟩
      · exact (upperChar_ne_nil c empty).elim
      · have nothing : rest = [] := by
          refine List.eq_nil_iff_forall_not_mem.mpr fun e mem => ?_
          exact upperChar_ne_nil e (List.flatMap_eq_nil_iff.mp none e mem)
        refine ⟨c, String.toList_inj.mp ?_, single⟩
        rw [same, nothing, String.toList_singleton]

end Text

namespace Calculator

/-! ### Symbols -/

/-- The kinds of token that the calculator tells apart. -/
inductive Symbol where
  | number
  | plus
  | minus
  | star
  | slash
  | opening
  | closing
  | point
  /-- What stands before an exponent. -/
  | mark
deriving DecidableEq, Repr

namespace Symbol

/-- The characters that a symbol is written with; a number has none of its own. -/
def chars : Symbol → List Char
  | .number => []
  | .plus => ['+']
  | .minus => ['-']
  | .star => ['*']
  | .slash => ['/']
  | .opening => ['(']
  | .closing => [')']
  | .point => ['.']
  | .mark => ['e', 'E']

/-- **Whether a token is a symbol**: a number by its type, every other symbol by its
text. -/
def Is : Symbol → Token → Prop
  | .number, t => t.type = Token.numberType
  | s, t => ∃ c ∈ s.chars, t.text = String.singleton c

/-- The terminal of a symbol in the grammar of the calculator. -/
def terminal : Symbol → Terminal
  | .number => .ofType Token.numberType
  | .plus => .literal "+"
  | .minus => .literal "-"
  | .star => .literal "*"
  | .slash => .literal "/"
  | .opening => .literal "("
  | .closing => .literal ")"
  | .point => .literal "."
  | .mark => .literal "e"

/-- A symbol as an element of a production. -/
def element (s : Symbol) : Element := .one s.terminal

/-- **A token stands for a symbol**: it is no blank, and the terminal of the symbol
accepts it and no other does. -/
structure Stands (s : Symbol) (t : Token) : Prop where
  solid : t.isBlank Token.blankTypes = false
  accepts_eq : ∀ s' : Symbol, s'.terminal.accepts t = decide (s' = s)

variable {s s' : Symbol} {t : Token}

theorem Stands.accepted (h : s.Stands t) : s.terminal.accepts t = true := by
  rw [h.accepts_eq s]
  exact decide_eq_true rfl

theorem Stands.refused (h : s.Stands t) (other : s' ≠ s) : s'.terminal.accepts t = false := by
  rw [h.accepts_eq s']
  exact decide_eq_false other

theorem terminal_direct (s : Symbol) : s.terminal.inverse = false := by
  cases s <;> rfl

/-! ### The tokens of a symbol -/

/-- What is known of the characters of a symbol: they have one upper case, which is
an ASCII character and that of the symbol's terminal. -/
theorem chars_spec : ∀ c ∈ s.chars, s.terminal.kind = .literal ∧
    Text.upper s.terminal.value = String.singleton c.toUpper ∧ c.toNat < 0x80 ∧
      c.toUpper.toNat < 0x80 ∧ c.toUpper.toNat ∉ [0x00, 0x49, 0x53] := by
  cases s <;> decide

/-- They are all the ASCII characters with that upper case. -/
theorem mem_chars_of_toUpper {c d : Char} (mem : d ∈ s.chars) (ascii : c.toNat < 0x80)
    (h : c.toUpper = d.toUpper) : c ∈ s.chars := by
  have small : ∀ n : Fin 0x80, ∀ d ∈ s.chars, (Char.ofNat n).toUpper = d.toUpper →
      Char.ofNat n ∈ s.chars := by
    cases s <;> decide
  have both := small ⟨c.toNat, ascii⟩ d mem
  simp only [Char.ofNat_toNat] at both
  exact both h

/-- **The terminal of a written symbol accepts its characters**, whatever the type of
the token. -/
theorem accepts_iff_of_mem_chars {d : Char} (mem : d ∈ s.chars) :
    s.terminal.accepts t = true ↔ ∃ c ∈ s.chars, t.text = String.singleton c := by
  obtain ⟨literal, value, -, ascii, other⟩ := chars_spec d mem
  have accepts : s.terminal.accepts t = true ↔ Text.upper t.text = String.singleton d.toUpper := by
    rw [Terminal.accepts, Terminal.valueOf, literal, value, beq_iff_eq]
  rw [accepts]
  constructor
  · intro same
    obtain ⟨c, text, image⟩ := Text.upper_eq_singleton same
    have small := Text.ascii_of_upperChar image ascii other
    rw [Text.upperChar_of_ascii small] at image
    exact ⟨c, mem_chars_of_toUpper mem small (List.cons.inj image).1, text⟩
  · rintro ⟨c, written, text⟩
    obtain ⟨-, value', small, -, -⟩ := chars_spec c written
    rw [← value, value', text, Text.upper, String.toList_singleton, List.flatMap_singleton,
      Text.upperChar_of_ascii small]
    rfl

/-- The token types of the lexer are in upper case. -/
theorem upper_type_of_fits (fits : Profile.canonical.Fits t) : Text.upper t.type = t.type := by
  cases fits with
  | run kind type _ =>
      rw [type]
      cases kind <;> decide
  | punctuation c type _ _ _ =>
      rw [type]
      decide

/-- **The terminal of a symbol accepts the tokens that are the symbol.** -/
theorem accepts_iff (fits : Profile.canonical.Fits t) (s : Symbol) :
    s.terminal.accepts t = true ↔ s.Is t := by
  cases s with
  | number =>
      have fixed : Text.upper Token.numberType = Token.numberType := by decide
      show (Text.upper t.type == Text.upper Token.numberType) = true ↔ t.type = Token.numberType
      rw [upper_type_of_fits fits, fixed, beq_iff_eq]
  | _ => exact accepts_iff_of_mem_chars List.mem_cons_self

/-- No character of a symbol opens the run of a number. -/
theorem opens?_of_mem_chars : ∀ c ∈ s.chars, Profile.canonical.opens? c ≠ some .number := by
  cases s <;> decide

/-- What is written as a symbol is not of the type of numbers. -/
theorem type_ne_of_chars (fits : Profile.canonical.Fits t) {c : Char} (mem : c ∈ s.chars)
    (text : t.text = String.singleton c) : t.type ≠ Token.numberType := by
  intro number
  cases fits with
  | run kind type chars =>
      obtain ⟨d, rest, same, opens, -⟩ := chars
      rw [text, String.toList_singleton] at same
      obtain rfl := (List.cons.inj same).1
      rw [number] at type
      cases kind with
      | blank => exact absurd type (by decide)
      | word => exact absurd type (by decide)
      | number => exact opens?_of_mem_chars c mem opens
  | punctuation d type _ _ _ =>
      rw [number] at type
      exact absurd type (by decide)

/-- Two symbols are not written with one character. -/
theorem eq_of_mem_chars {c : Char} (h : c ∈ s.chars) (h' : c ∈ s'.chars) : s = s' := by
  have distinct : ∀ c ∈ s.chars, c ∈ s'.chars → s = s' := by
    cases s <;> cases s' <;> decide
  exact distinct c h h'

theorem exists_mem_chars (h : s.Is t) (written : s ≠ .number) :
    ∃ c ∈ s.chars, t.text = String.singleton c := by
  cases s with
  | number => exact (written rfl).elim
  | _ => exact h

theorem is_of_mem_chars {c : Char} (mem : c ∈ s.chars) (text : t.text = String.singleton c) :
    s.Is t := by
  cases s with
  | number => cases mem
  | _ => exact ⟨c, mem, text⟩

/-- **A token is at most one symbol.** -/
theorem Is.unique (fits : Profile.canonical.Fits t) (h : s.Is t) (h' : s'.Is t) : s = s' := by
  have apart : ∀ {s : Symbol}, s.Is t → s ≠ .number → t.type ≠ Token.numberType := by
    intro s is written
    obtain ⟨c, mem, text⟩ := exists_mem_chars is written
    exact type_ne_of_chars fits mem text
  by_cases isNumber : s = .number
  · by_cases isNumber' : s' = .number
    · rw [isNumber, isNumber']
    · rw [isNumber] at h
      exact (apart h' isNumber' h).elim
  · by_cases isNumber' : s' = .number
    · rw [isNumber'] at h'
      exact (apart h isNumber h').elim
    · obtain ⟨c, mem, text⟩ := exists_mem_chars h isNumber
      obtain ⟨c', mem', text'⟩ := exists_mem_chars h' isNumber'
      have same : [c] = [c'] := by
        rw [← String.toList_singleton, ← String.toList_singleton, ← text, ← text']
      rw [← (List.cons.inj same).1] at mem'
      exact eq_of_mem_chars mem mem'

/-- **A token that is a symbol stands for it alone**, unless it is blank. -/
theorem stands_of_is (fits : Profile.canonical.Fits t)
    (solid : t.isBlank Token.blankTypes = false) (h : s.Is t) : s.Stands t where
  solid := solid
  accepts_eq := fun s' => by
    by_cases same : s' = s
    · rw [same, decide_eq_true rfl]
      exact (accepts_iff fits s).mpr h
    · rw [decide_eq_false same, Bool.eq_false_iff]
      exact fun accepted => same (Is.unique fits ((accepts_iff fits s').mp accepted) h)

end Symbol

end Calculator

end GrammarKit
