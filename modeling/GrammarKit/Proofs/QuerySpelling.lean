import GrammarKit.Proofs.QuerySweep
import Mathlib.Data.List.Chain

/-!
# The spelling of words

The text of a word tells its type.  Names and numbers are **chains** of runs with
full stops between them and marks before them, a string is closed by the first
quote that is not escaped, and punctuation has no letters in it.  The tokens of
the lexer are spelled so, and so is what a word is folded into.

## Main Definitions

* `Query.Chain`, `Query.Closes` — the texts of names and numbers, and of strings
* `Query.Spelled` — what is known of the text of a word
* `Query.Apart` — what is known of two words side by side

## Main Statements

* `Query.spelled_of_fits` — the tokens of the lexer are spelled
* `Query.Word.spelled` — so is a folded word
* `Query.Swept.apart` — what a sweep leaves side by side is apart

## Design Notes

A minus before a number that begins with one would be half of a comment mark.
That the two never meet is a fact about what a pass leaves side by side, whatever
it began with.
-/

namespace GrammarKit.Query

open GrammarKit.Parser
open Profile (RunKind)

/-! ### Characters -/

/-- Whether the lexer keeps a character. -/
def isKept (c : Char) : Bool :=
  (Profile.standalone.opens? c).isSome || Profile.standalone.punctuation c

/-- Letters, digits and the underscore open a run. -/
theorem opens?_of_isWordChar {c : Char} (h : isWordChar c = true) :
    (Profile.standalone.opens? c).isSome = true := by
  rw [Profile.opens?]
  rw [isWordChar, Bool.or_eq_true] at h
  split
  · rfl
  · split
    · rfl
    · rename_i notLetter
      have isDigit : Profile.standalone.numberStart c = true := h.resolve_left notLetter
      rw [if_pos isDigit]
      rfl

theorem isKept_of_isWordChar {c : Char} (h : isWordChar c = true) : isKept c = true := by
  rw [isKept, opens?_of_isWordChar h, Bool.true_or]

theorem isWordChar_of_closed {c : Char} (h : Profile.standalone.opens? c = none) :
    isWordChar c = false := by
  refine Bool.eq_false_iff.mpr fun isWord => ?_
  have opens := opens?_of_isWordChar isWord
  rw [h] at opens
  cases opens

/-- What continues a run could open one. -/
theorem opens?_of_continues {kind : RunKind} {c : Char}
    (h : Profile.standalone.continues kind c = true) :
    (Profile.standalone.opens? c).isSome = true := by
  by_cases isBlank : kind = .blank
  · rw [isBlank] at h
    have blank : Text.isBlank c = true := h
    rw [Profile.opens?, if_pos blank]
    rfl
  · exact opens?_of_isWordChar (isWordChar_of_run isBlank (Or.inr h))

theorem isKept_of_continues {kind : RunKind} {c : Char}
    (h : Profile.standalone.continues kind c = true) : isKept c = true := by
  rw [isKept, opens?_of_continues h, Bool.true_or]

/-- Only letters have a case. -/
theorem upperChar_of_isKept {c : Char} (h : isKept c = true) :
    ∃ d, Text.upperChar c = [d] ∧ (isWordChar d = false → d = c) ∧
      (isWordChar c = false → d = c) := by
  have marks : ∀ c ∈ Profile.punctuationChars, Text.upperChar c = [c] := by decide
  by_cases isWord : isWordChar c = true
  · obtain ⟨d, upper, upperIsWord⟩ := upperChar_isWordChar isWord
    exact ⟨d, upper, by simp [upperIsWord], by simp [isWord]⟩
  · refine ⟨c, ?_, fun _ => rfl, fun _ => rfl⟩
    rw [isKept, Bool.or_eq_true] at h
    rcases h with opens | punctuation
    · obtain ⟨kind, opens⟩ := Option.isSome_iff_exists.mp opens
      have starts := Profile.starts_of_opens? opens
      by_cases isBlank : kind = .blank
      · rw [isBlank] at starts
        exact upperChar_of_isBlank starts
      · exact (isWord (isWordChar_of_run isBlank (Or.inl starts))).elim
    · exact marks c (by simpa [Profile.standalone] using punctuation)

/-- The characters of some tokens. -/
def chars (w : List Token) : List Char :=
  w.flatMap fun t => t.text.toList

@[simp] theorem chars_nil : chars [] = [] := rfl

@[simp] theorem chars_cons (t : Token) (w : List Token) :
    chars (t :: w) = t.text.toList ++ chars w := rfl

@[simp] theorem chars_append (u v : List Token) : chars (u ++ v) = chars u ++ chars v :=
  List.flatMap_append

@[simp] theorem toList_text_fold (type : String) (t : Token) (more : List Token) :
    (fold type t more).text.toList = t.text.toList ++ chars more := by
  rw [fold, Token.join, String.toList_join, List.flatMap_map, List.flatMap_cons]
  rfl

/-- A sweep keeps the characters. -/
theorem Swept.chars_eq {tokens swept : List Token} (h : Swept tokens swept) :
    chars swept = chars tokens := by
  induction h with
  | nil => rfl
  | cons _ _ ih => rw [chars_cons, chars_cons, chars_append, toList_text_fold, ih, List.append_assoc]

section Texts

variable {t : Token}

/-- What is kept and has no letters in upper case has none at all. -/
theorem flatMap_upperChar {cs : List Char} (kept : ∀ c ∈ cs, isKept c = true)
    (plain : (∀ d ∈ cs.flatMap Text.upperChar, isWordChar d = false) ∨
      ∀ c ∈ cs, isWordChar c = false) :
    cs.flatMap Text.upperChar = cs := by
  induction cs with
  | nil => rfl
  | cons c cs ih =>
      obtain ⟨d, upper, same, same'⟩ := upperChar_of_isKept (kept c List.mem_cons_self)
      rw [List.flatMap_cons, upper] at plain ⊢
      simp only [List.cons_append, List.nil_append, List.forall_mem_cons] at plain ⊢
      rw [ih fun c mem => kept c (List.mem_cons_of_mem _ mem)]
      · rcases plain with plain | plain
        · rw [same plain.1]
        · rw [same' plain.1]
      · exact plain.imp And.right And.right

/-- A role by text gives the text. -/
theorem text_of_fits {r : Role} (regular : Regular t) (kept : ∀ c ∈ t.text.toList, isKept c = true)
    (mem : r ∈ Role.spelled) (h : fits r t = true) : t.text = r.terminal.value := by
  have plain : ∀ r ∈ Role.spelled, ∀ c ∈ r.terminal.value.toList, isWordChar c = false := by
    decide
  have text := (accepts_spelled mem).mp (by rwa [accepts_eq_fits regular])
  rw [image, Text.toList_upper] at text
  rw [flatMap_upperChar kept (Or.inl (by rw [text]; exact plain r mem))] at text
  exact String.toList_inj.mp text

/-- A text gives the role. -/
theorem fits_of_text {r : Role} (regular : Regular t) (mem : r ∈ Role.spelled)
    (h : t.text = r.terminal.value) : fits r t = true := by
  have fixed : ∀ r ∈ Role.spelled, Text.upper r.terminal.value = r.terminal.value := by
    decide
  rw [← accepts_eq_fits regular, accepts_spelled mem, image, h, fixed r mem]

/-- A type gives the role. -/
theorem role_of_type {r : Role} (regular : Regular t) (mem : r ∈ Role.typed)
    (h : t.type = r.terminal.value) : role t = some r := by
  have notQuote : ∀ r ∈ Role.typed, ∀ double, r ≠ .quote double := by decide
  refine role_of_fits ?_ (notQuote r mem)
  rw [← accepts_eq_fits regular]
  exact (accepts_typed regular mem).mpr h

end Texts

/-! ### Chains -/

/-- **The texts of names and numbers**: runs of a kind with full stops between
them; marks may stand before each run, but no two minuses side by side. -/
inductive Chain (kind : RunKind) (marks : List Char) : List Char → Prop where
  | run {cs : List Char} : Profile.standalone.RunChars kind cs → Chain kind marks cs
  | mark {c : Char} {cs : List Char} :
      c ∈ marks → (c = '-' → cs.head? ≠ some '-') → Chain kind marks cs → Chain kind marks (c :: cs)
  | step {cs ds : List Char} :
      Profile.standalone.RunChars kind cs → Chain kind marks ds →
      Chain kind marks (cs ++ '.' :: ds)

section Chains

variable {kind : RunKind} {marks : List Char} {cs ds : List Char}

/-- The texts of names. -/
def NameChars : List Char → Prop := Chain .word [':']

/-- The texts of numbers. -/
def NumberChars : List Char → Prop := Chain .number ['+', '-']

theorem Chain.ne_nil (h : Chain kind marks cs) : cs ≠ [] := by
  cases h with
  | run chars =>
      obtain ⟨c, rest, rfl, -⟩ := chars
      exact List.cons_ne_nil c rest
  | mark => exact List.cons_ne_nil _ _
  | step => exact List.append_ne_nil_of_right_ne_nil _ (List.cons_ne_nil _ _)

/-- Chains are joined by a full stop. -/
theorem Chain.dot (first : Chain kind marks cs) (second : Chain kind marks ds) :
    Chain kind marks (cs ++ '.' :: ds) := by
  induction first with
  | run chars => exact .step chars second
  | @mark c cs isMark apart inner ih =>
      refine .mark isMark (fun isMinus => ?_) ih
      show (cs ++ '.' :: ds).head? ≠ some '-'
      rw [List.head?_append_of_ne_nil _ inner.ne_nil]
      exact apart isMinus
  | step chars _ ih =>
      rw [List.append_assoc]
      exact .step chars ih

end Chains

/-! ### Strings -/

/-- The characters that a backslash escapes. -/
def escapable : List Char :=
  ['\\', '"', '\x27']

/-- The quote of a string. -/
def quoteChar : Bool → Char
  | true => '"'
  | false => '\x27'

/-- **The text of a string behind its first quote**: it ends with the first quote of
the same kind that is not escaped. -/
inductive Closes (quote : Char) : List Char → Prop where
  | close : Closes quote [quote]
  | escape {c : Char} {cs : List Char} :
      c ∈ escapable → Closes quote cs → Closes quote ('\\' :: c :: cs)
  | plain {c : Char} {cs : List Char} :
      c ≠ quote → (c = '\\' → ∀ d, cs.head? = some d → d ∉ escapable) → Closes quote cs →
      Closes quote (c :: cs)

theorem Closes.of_cons {quote c : Char} {cs : List Char} (h : Closes quote (c :: cs)) :
    (c = quote ∧ cs = []) ∨
      (c = '\\' ∧ ∃ d ds, cs = d :: ds ∧ d ∈ escapable ∧ Closes quote ds) ∨
      (c ≠ quote ∧ (c = '\\' → ∀ d, cs.head? = some d → d ∉ escapable) ∧ Closes quote cs) := by
  cases h with
  | close => exact Or.inl ⟨rfl, rfl⟩
  | escape isEscaped inner => exact Or.inr (Or.inl ⟨rfl, _, _, rfl, isEscaped, inner⟩)
  | plain different single inner => exact Or.inr (Or.inr ⟨different, single, inner⟩)

/-- A string ends with its quote. -/
theorem Closes.getLast?_eq {quote : Char} {cs : List Char} (h : Closes quote cs) :
    cs.getLast? = some quote := by
  induction h with
  | close => rfl
  | escape _ _ ih => rw [List.getLast?_cons, List.getLast?_cons, ih]; rfl
  | plain _ _ _ ih => rw [List.getLast?_cons, ih]; rfl

theorem quoteChar_mem_escapable (double : Bool) : quoteChar double ∈ escapable := by
  cases double <;> decide

theorem backslash_ne_quoteChar : ∀ double, '\\' ≠ quoteChar double := by
  decide

theorem quoteChar_injective : ∀ a b, quoteChar a = quoteChar b → a = b := by
  decide

/-- Behind a backslash, a character may be escaped. -/
theorem Closes.of_backslash {double : Bool} {cs : List Char}
    (h : Closes (quoteChar double) ('\\' :: cs)) :
    (∃ c ds, cs = c :: ds ∧ c ∈ escapable ∧ Closes (quoteChar double) ds) ∨
      ((∀ c, cs.head? = some c → c ∉ escapable) ∧ Closes (quoteChar double) cs) := by
  rcases h.of_cons with ⟨same, -⟩ | ⟨-, escaped⟩ | ⟨-, single, inner⟩
  · exact (backslash_ne_quoteChar double same).elim
  · exact Or.inl escaped
  · exact Or.inr ⟨single rfl, inner⟩

/-- A quote of the same kind closes a string, and no other. -/
theorem Closes.of_quote {double other : Bool} {cs : List Char}
    (h : Closes (quoteChar double) (quoteChar other :: cs)) :
    (other = double ∧ cs = []) ∨ (other ≠ double ∧ Closes (quoteChar double) cs) := by
  rcases h.of_cons with ⟨same, nothing⟩ | ⟨isBackslash, -⟩ | ⟨different, -, inner⟩
  · exact Or.inl ⟨quoteChar_injective _ _ same, nothing⟩
  · exact (backslash_ne_quoteChar other isBackslash.symm).elim
  · exact Or.inr ⟨fun same => different (by rw [same]), inner⟩

/-- Characters that are no quotes and escape nothing. -/
theorem Closes.smooth {double : Bool} {cs ds : List Char} (plain : ∀ c ∈ cs, c ∉ escapable)
    (h : Closes (quoteChar double) ds) : Closes (quoteChar double) (cs ++ ds) := by
  induction cs with
  | nil => exact h
  | cons c cs ih =>
      have here := plain c List.mem_cons_self
      refine .plain ?_ ?_ (ih fun d mem => plain d (List.mem_cons_of_mem c mem))
      · rintro rfl
        exact here (quoteChar_mem_escapable double)
      · rintro rfl
        exact (here (by decide)).elim

/-! ### Spelled tokens -/

/-- **The texts that go with a type.** -/
inductive Spelling : String → List Char → Prop where
  | name {cs : List Char} : NameChars cs → Spelling "IDENT" cs
  | number {cs : List Char} : NumberChars cs → Spelling "NUMLIT" cs
  | string {double : Bool} {cs : List Char} :
      Closes (quoteChar double) cs → Spelling (stringType double) (quoteChar double :: cs)
  | punctuation {cs : List Char} :
      (∀ c ∈ cs, Profile.standalone.opens? c = none) → Spelling "PUNCT" cs
  | mark (double : Bool) : Spelling (quoteType double) [quoteChar double]
  | blank {type : String} {cs : List Char} : type ∈ Token.blankTypes → Spelling type cs

/-- **What is known of the text of a word.** -/
structure Spelled (t : Token) : Prop where
  kept : ∀ c ∈ t.text.toList, isKept c = true
  filled : t.text.toList ≠ []
  spelling : Spelling t.type t.text.toList

section Spelling

variable {type : String} {cs : List Char} {t : Token}

/-- What a type tells of the text. -/
theorem Spelling.inv (h : Spelling type cs) :
    (type = "IDENT" → NameChars cs) ∧ (type = "NUMLIT" → NumberChars cs) ∧
      (type = "PUNCT" → ∀ c ∈ cs, Profile.standalone.opens? c = none) := by
  cases h with
  | name chars => exact ⟨fun _ => chars, by simp, by simp⟩
  | number chars => exact ⟨by simp, fun _ => chars, by simp⟩
  | punctuation closed => exact ⟨by simp, by simp, fun _ => closed⟩
  | @string double => cases double <;> simp [stringType]
  | mark double => cases double <;> simp [quoteType]
  | blank isBlank =>
      have solid : ∀ type ∈ Token.blankTypes, type ≠ "IDENT" ∧ type ≠ "NUMLIT" ∧ type ≠ "PUNCT" := by
        decide
      obtain ⟨notName, notNumber, notPunctuation⟩ := solid type isBlank
      exact ⟨fun same => (notName same).elim, fun same => (notNumber same).elim,
        fun same => (notPunctuation same).elim⟩

theorem spelled_name (spelled : Spelled t) (regular : Regular t) (h : role t = some .name) :
    NameChars t.text.toList :=
  spelled.spelling.inv.1 (type_of_role regular h (by decide))

theorem spelled_number (spelled : Spelled t) (regular : Regular t) (h : role t = some .number) :
    NumberChars t.text.toList :=
  spelled.spelling.inv.2.1 (type_of_role regular h (by decide))

/-- A token of a role by text. -/
theorem spelled_mark {r : Role} (spelled : Spelled t) (regular : Regular t)
    (mem : r ∈ Role.spelled) (h : role t = some r) : t.text.toList = r.terminal.value.toList :=
  congrArg String.toList (text_of_fits regular spelled.kept mem (fits_role h))

/-- The text of a quote that is marked. -/
theorem spelled_quote {double : Bool} (spelled : Spelled t) (regular : Regular t)
    (h : role t = some (.mark double)) : t.text.toList = [quoteChar double] := by
  have isQuote : fits (.quote double) t = true := by
    rw [fits_of_role h]
    exact Bool.or_eq_true_iff.mpr (Or.inr (beq_self_eq_true _))
  cases double with
  | true => exact congrArg String.toList (text_of_fits regular spelled.kept (by decide) isQuote)
  | false => exact congrArg String.toList (text_of_fits regular spelled.kept (by decide) isQuote)

/-- **The tokens of the lexer are spelled.** -/
theorem spelled_of_fits (h : Profile.standalone.Fits t) : Spelled t := by
  cases h with
  | punctuation c type text closed punctuation =>
      have single : t.text.toList = [c] := by rw [text, String.toList_singleton]
      refine ⟨?_, by rw [single]; exact List.cons_ne_nil c [], ?_⟩
      · rw [single]
        simp [isKept, punctuation]
      · rw [type, single]
        exact .punctuation (by simpa using closed)
  | run kind type chars =>
      obtain ⟨c, rest, same, opens, continues⟩ := id chars
      refine ⟨?_, by rw [same]; exact List.cons_ne_nil c rest, ?_⟩
      · rw [same, List.forall_mem_cons]
        exact ⟨by simp [isKept, opens], fun d mem => isKept_of_continues (continues d mem)⟩
      · rw [type]
        cases kind with
        | blank => exact .blank (by decide)
        | word => exact .name (.run chars)
        | number => exact .number (.run chars)

end Spelling

/-! ### Words -/

/-- Side by side, a minus and a number never make up a comment mark. -/
def Apart (t u : Token) : Prop :=
  t.text = "-" → u.type = "NUMLIT" → u.text.toList.head? ≠ some '-'

section Words

variable {t : Token} {rest more : List Token} {type : String}

theorem Steps.chain (h : Steps more) (regular : ∀ u ∈ more, Regular u)
    (spelled : ∀ u ∈ more, Spelled u) {cs : List Char} (first : NameChars cs) :
    NameChars (cs ++ chars more) := by
  induction h generalizing cs with
  | nil => simpa using first
  | @step d n more isDot isName _ ih =>
      simp only [List.forall_mem_cons] at regular spelled
      have dot := spelled_mark spelled.1 regular.1 (by decide) isDot
      have name := spelled_name spelled.2.1 regular.2.1 isName
      have joined : cs ++ chars (d :: n :: more) = (cs ++ '.' :: n.text.toList) ++ chars more := by
        rw [chars_cons, chars_cons, dot]
        simp [Role.terminal, Terminal.literal]
      rw [joined]
      exact ih regular.2.2 spelled.2.2 (Chain.dot first name)

theorem Fraction.chain (h : Fraction more) (regular : ∀ u ∈ more, Regular u)
    (spelled : ∀ u ∈ more, Spelled u) {cs : List Char} (first : NumberChars cs) :
    NumberChars (cs ++ chars more) := by
  cases h with
  | nil => simpa using first
  | @part d n isDot isNumber =>
      simp only [List.forall_mem_cons] at regular spelled
      have dot := spelled_mark spelled.1 regular.1 (by decide) isDot
      have number := spelled_number spelled.2.1 regular.2.1 isNumber
      have joined : cs ++ chars [d, n] = cs ++ '.' :: n.text.toList := by
        rw [chars_cons, chars_cons, dot]
        simp [Role.terminal, Terminal.literal]
      rw [joined]
      exact Chain.dot first number

/-- **A folded word is spelled** as its type says. -/
theorem Word.spelled (h : Word t rest more type) (regular : ∀ u ∈ t :: more, Regular u)
    (spelled : ∀ u ∈ t :: more, Spelled u) (apart : ∀ n, more.head? = some n → Apart t n)
    (closes : ∀ double, role t = some (.mark double) → Closes (quoteChar double) (chars more)) :
    Spelled (fold type t more) := by
  simp only [List.forall_mem_cons] at regular spelled
  obtain ⟨regularHere, regularMore⟩ := regular
  obtain ⟨spelledHere, spelledMore⟩ := spelled
  refine ⟨?_, ?_, ?_⟩
  · intro c mem
    rw [toList_text_fold, List.mem_append] at mem
    rcases mem with here | later
    · exact spelledHere.kept c here
    · obtain ⟨u, isMore, inside⟩ := List.mem_flatMap.mp later
      exact (spelledMore u isMore).kept c inside
  · rw [toList_text_fold]
    exact List.append_ne_nil_of_left_ne_nil spelledHere.filled _
  · rw [toList_text_fold]
    show Spelling type (t.text.toList ++ chars more)
    cases h with
    | kept _ => simpa using spelledHere.spelling
    | path isName steps =>
        exact .name (steps.chain regularMore spelledMore
          (spelled_name spelledHere regularHere isName))
    | @placeholder n isColon isName =>
        simp only [List.forall_mem_cons] at regularMore spelledMore
        have colon := spelled_mark spelledHere regularHere (by decide) isColon
        have name := spelled_name spelledMore.1 regularMore.1 isName
        have joined : t.text.toList ++ chars [n] = ':' :: n.text.toList := by
          rw [colon]
          simp [Role.terminal, Terminal.literal]
        rw [joined]
        exact .name (.mark (by decide) (fun isMinus => absurd isMinus (by decide)) name)
    | number isNumber fraction =>
        exact .number (fraction.chain regularMore spelledMore
          (spelled_number spelledHere regularHere isNumber))
    | @signed sign n more isSign isHere isNumber fraction =>
        simp only [List.forall_mem_cons] at regularMore spelledMore
        have signs : ∀ sign ∈ [Role.plus, .minus], sign ∈ Role.spelled ∧
            ∃ c ∈ ['+', '-'], sign.terminal.value = String.singleton c := by
          decide
        obtain ⟨isSpelled, c, isMark, value⟩ := signs sign isSign
        have text := spelled_mark spelledHere regularHere isSpelled isHere
        rw [value, String.toList_singleton] at text
        have number := spelled_number spelledMore.1 regularMore.1 isNumber
        have first : NumberChars (c :: n.text.toList) := by
          refine .mark isMark (fun isMinus => apart n rfl ?_ ?_) number
          · rw [← String.toList_inj, text, isMinus]
            rfl
          · exact type_of_role regularMore.1 isNumber (by decide)
        have joined : t.text.toList ++ chars (n :: more) = (c :: n.text.toList) ++ chars more := by
          rw [text, chars_cons]
          rfl
        rw [joined]
        exact .number (fraction.chain regularMore.2 spelledMore.2 first)
    | @pair r r' p isHere isPartner isThere =>
        simp only [List.forall_mem_cons] at regularMore spelledMore
        have marks : ∀ r ∈ Role.typed ++ Role.spelled, ∀ r' ∈ r.partners,
            r ∈ Role.spelled ∧ r' ∈ Role.spelled ∧
            ∀ c ∈ r.terminal.value.toList ++ r'.terminal.value.toList,
              Profile.standalone.opens? c = none := by
          decide
        obtain ⟨isSpelled, isSpelled', closed⟩ :=
          marks r (List.mem_append.mpr r.mem_typed_or_mem_spelled) r' isPartner
        rw [spelled_mark spelledHere regularHere isSpelled isHere, chars_cons, chars_nil,
          List.append_nil, text_of_fits regularMore.1 spelledMore.1.kept isSpelled' isThere]
        exact .punctuation closed
    | comment _ _ isBlank => exact .blank isBlank
    | @quote double isQuote =>
        have values : ∀ double, Role.quote double ∈ Role.spelled ∧
            (Role.quote double).terminal.value = String.singleton (quoteChar double) := by
          decide
        obtain ⟨isSpelled, value⟩ := values double
        rw [spelled_mark spelledHere regularHere isSpelled isQuote, value, String.toList_singleton]
        exact .mark double
    | @string double body close isMark _ _ =>
        rw [spelled_quote spelledHere regularHere isMark]
        exact .string (closes double isMark)

/-- Only no tokens have no characters. -/
theorem eq_nil_of_chars {w : List Token} (spelled : ∀ u ∈ w, Spelled u) (h : chars w = []) :
    w = [] := by
  cases w with
  | nil => rfl
  | cons u others =>
      rw [chars_cons, List.append_eq_nil_iff] at h
      exact ((spelled u List.mem_cons_self).filled h.1).elim

/-- A word of one character is one token. -/
theorem single_of_fold {c : Char} (spelled : ∀ u ∈ t :: more, Spelled u)
    (single : (fold type t more).text.toList = [c]) : t.text.toList = [c] ∧ more = [] := by
  simp only [List.forall_mem_cons] at spelled
  obtain ⟨d, cs, first⟩ := List.exists_cons_of_ne_nil spelled.1.filled
  rw [toList_text_fold, first, List.cons_append, List.cons.injEq, List.append_eq_nil_iff] at single
  obtain ⟨rfl, rfl, nothing⟩ := single
  exact ⟨first, eq_nil_of_chars spelled.2 nothing⟩

/-- A minus that is left over had no number and no minus behind it. -/
theorem Word.alone (h : Word t rest more type) (regular : Regular t)
    (spelled : ∀ u ∈ t :: more, Spelled u) (minus : (fold type t more).text = "-") :
    role t = some .minus ∧ Alone t rest := by
  obtain ⟨text, empty⟩ := @single_of_fold _ _ type '-' spelled (congrArg String.toList minus)
  have isMinus : role t = some .minus :=
    role_of_fits (fits_of_text regular (by decide) (String.toList_inj.mp text)) nofun
  refine ⟨isMinus, ?_⟩
  cases h with
  | kept alone => exact alone
  | comment isOpen isHere _ =>
      rw [isMinus] at isHere
      cases isHere
      exact absurd isOpen (by decide)
  | signed => cases empty
  | pair => cases empty
  | placeholder => cases empty
  | string => exact absurd empty (List.append_ne_nil_of_right_ne_nil _ (List.cons_ne_nil _ _))
  | path isHere _ => exact absurd (isMinus.symm.trans isHere) (by decide)
  | number isHere _ => exact absurd (isMinus.symm.trans isHere) (by decide)
  | quote isHere => exact absurd (isMinus.symm.trans isHere) (by simp)

/-- A number that begins with neither a number nor a minus has another sign. -/
theorem Word.head_of_number (h : Word t rest more type) (regular : Regular t) (spelled : Spelled t)
    (isNumber : type = "NUMLIT") (noNumber : fits .number t = false)
    (noMinus : fits .minus t = false) : t.text.toList.head? ≠ some '-' := by
  cases h with
  | kept _ =>
      have isHere : role t = some .number := role_of_type regular (by decide) isNumber
      rw [fits_role isHere] at noNumber
      cases noNumber
  | number isHere _ =>
      rw [fits_role isHere] at noNumber
      cases noNumber
  | @signed sign n more isSign isHere _ _ =>
      simp only [List.mem_cons, List.not_mem_nil, or_false] at isSign
      rcases isSign with rfl | rfl
      · rw [spelled_mark spelled regular (by decide) isHere]
        decide
      · rw [fits_role isHere] at noMinus
        cases noMinus
  | comment _ _ isBlank =>
      rw [isNumber] at isBlank
      exact absurd isBlank (by decide)
  | @quote double => cases double <;> exact absurd isNumber (by decide)
  | @string double => cases double <;> exact absurd isNumber (by decide)
  | _ => exact absurd isNumber (by decide)

/-- **What a sweep leaves side by side is apart**, whatever it began with. -/
theorem Swept.apart {tokens swept : List Token} (h : Swept tokens swept)
    (regular : ∀ t ∈ tokens, Regular t) (spelled : ∀ t ∈ tokens, Spelled t) :
    swept.IsChain Apart := by
  induction h with
  | nil => exact .nil
  | @cons t more rest swept type word further ih =>
      simp only [List.forall_mem_cons, List.forall_mem_append] at regular spelled
      refine List.isChain_cons.mpr ⟨?_, ih regular.2.2 spelled.2.2⟩
      intro u isNext minus isNumber
      -- the minus was kept, so what stood behind it was neither a number nor a minus
      have alone := word.alone regular.1 (by simpa using ⟨spelled.1, spelled.2.1⟩) minus
      have unpaired := alone.2.unpaired .minus alone.1
      have unsigned := alone.2.unsigned alone.1
      cases further with
      | nil => cases isNext
      | @cons x more' rest' swept' type' word' _ =>
          cases isNext
          simp only [List.forall_mem_cons] at regular spelled
          simp only [Role.partners, List.any_cons, List.any_nil, Bool.or_false,
            next_cons] at unpaired unsigned
          have head := word'.head_of_number regular.2.2.1 spelled.2.2.1 isNumber unsigned unpaired
          rwa [toList_text_fold, List.head?_append_of_ne_nil _ spelled.2.2.1.filled]

end Words

end GrammarKit.Query
