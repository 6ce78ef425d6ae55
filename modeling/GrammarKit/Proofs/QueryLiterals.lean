import GrammarKit.Proofs.Coarsening
import GrammarKit.Proofs.QueryPieces

/-!
# Strings are opaque

A string is found in the second pass, when the first has folded whatever it takes
for a word between the quotes: numbers, paths, operators, comment marks.  None of
this matters.  What counts are the characters: cut up from left to right into
escapes and single characters, the text has to end at its first bare quote.

## Main Definitions

* `Query.cut` — a text cut up into pairs and single characters
* `Query.EndsAt` — a list that ends at the first mark

## Main Statements

* `Query.closes_iff_endsAt` — a string is closed by the first quote that is cut off
* `Query.words_of_layout`, `Query.tokenize_of_folds` — the words of a layout, with the
  blanks or without them, and where they stand
* `Query.tokenize_eq_string_iff` — which texts between two quotes are one string
-/

namespace GrammarKit.Query

open GrammarKit.Parser

/-! ### Cutting up texts -/

/-- **A text cut up from left to right**: two characters that make up a pair stay
together, all others are by themselves. -/
def cut (pairs : List (Char × Char)) : List Char → List (List Char)
  | [] => []
  | [c] => [[c]]
  | c :: d :: cs => if (c, d) ∈ pairs then [c, d] :: cut pairs cs else [c] :: cut pairs (d :: cs)

/-- A list that ends at the first mark. -/
def EndsAt {α : Type} (mark : α) (l : List α) : Prop :=
  ∃ front, l = front ++ [mark] ∧ mark ∉ front

section Cutting

variable {pairs : List (Char × Char)} {c d : Char} {cs : List Char}

theorem cut_pair (mem : (c, d) ∈ pairs) (cs : List Char) :
    cut pairs (c :: d :: cs) = [c, d] :: cut pairs cs := by
  rw [cut, if_pos mem]

theorem cut_single (single : ∀ d, cs.head? = some d → (c, d) ∉ pairs) :
    cut pairs (c :: cs) = [c] :: cut pairs cs := by
  cases cs with
  | nil => rfl
  | cons d cs => rw [cut, if_neg (single d rfl)]

variable {α : Type} {mark x : α} {l : List α}

theorem endsAt_nil : ¬ EndsAt mark [] := by
  rintro ⟨front, same, -⟩
  exact List.append_ne_nil_of_right_ne_nil _ (List.cons_ne_nil _ _) same.symm

theorem endsAt_cons : EndsAt mark (x :: l) ↔ (x = mark ∧ l = []) ∨ (x ≠ mark ∧ EndsAt mark l) := by
  constructor
  · rintro ⟨front, same, fresh⟩
    cases front with
    | nil => exact Or.inl (List.cons.inj same)
    | cons y front =>
        obtain ⟨rfl, rfl⟩ := List.cons.inj same
        simp only [List.mem_cons, not_or] at fresh
        exact Or.inr ⟨fun same => fresh.1 same.symm, front, rfl, fresh.2⟩
  · rintro (⟨rfl, rfl⟩ | ⟨other, front, rfl, fresh⟩)
    · exact ⟨[], rfl, List.not_mem_nil⟩
    · refine ⟨x :: front, rfl, ?_⟩
      simp only [List.mem_cons, not_or]
      exact ⟨fun same => other same.symm, fresh⟩

theorem endsAt_of_ne (other : x ≠ mark) : EndsAt mark (x :: l) ↔ EndsAt mark l := by
  rw [endsAt_cons]
  simp [other]

theorem endsAt_append {front : List α} (fresh : mark ∉ front) :
    EndsAt mark (front ++ l) ↔ EndsAt mark l := by
  induction front with
  | nil => rfl
  | cons x front ih =>
      rw [List.mem_cons, not_or] at fresh
      rw [List.cons_append, endsAt_of_ne (Ne.symm fresh.1), ih fresh.2]

theorem endsAt_iff_getLast? : EndsAt mark l ↔ l.getLast? = some mark ∧ mark ∉ l.dropLast := by
  constructor
  · rintro ⟨front, rfl, fresh⟩
    simpa using fresh
  · rintro ⟨last, fresh⟩
    obtain ⟨front, rfl⟩ := List.getLast?_eq_some_iff.mp last
    exact ⟨front, rfl, by simpa using fresh⟩

instance [DecidableEq α] (mark : α) (l : List α) : Decidable (EndsAt mark l) :=
  decidable_of_iff _ endsAt_iff_getLast?.symm

end Cutting

/-! ### Strings -/

/-- A backslash and a character that it escapes. -/
def escapes : List (Char × Char) :=
  escapable.map ('\\', ·)

theorem mem_escapes {c d : Char} : (c, d) ∈ escapes ↔ c = '\\' ∧ d ∈ escapable := by
  simp [escapes, eq_comm, and_comm]

/-- A character that no escape begins with is passed over, unless it is the quote. -/
theorem Closes.cons_iff {quote c : Char} {cs : List Char}
    (single : ∀ d, cs.head? = some d → (c, d) ∉ escapes) :
    Closes quote (c :: cs) ↔ (c = quote ∧ cs = []) ∨ (c ≠ quote ∧ Closes quote cs) := by
  constructor
  · intro closes
    rcases closes.of_cons with closed | ⟨rfl, d, ds, rfl, isEscaped, -⟩ | ⟨other, -, inner⟩
    · exact Or.inl closed
    · exact (single d rfl (mem_escapes.mpr ⟨rfl, isEscaped⟩)).elim
    · exact Or.inr ⟨other, inner⟩
  · rintro (⟨rfl, rfl⟩ | ⟨other, inner⟩)
    · exact .close
    · refine .plain other (fun isBackslash d head isEscaped => ?_) inner
      exact single d head (mem_escapes.mpr ⟨isBackslash, isEscaped⟩)

theorem Closes.escape_iff {double : Bool} {d : Char} {cs : List Char} (isEscaped : d ∈ escapable) :
    Closes (quoteChar double) ('\\' :: d :: cs) ↔ Closes (quoteChar double) cs := by
  refine ⟨fun closes => ?_, .escape isEscaped⟩
  rcases closes.of_backslash with ⟨_, _, same, -, inner⟩ | ⟨single, -⟩
  · cases same
    exact inner
  · exact (single d rfl isEscaped).elim

theorem cut_eq_nil_iff {pairs : List (Char × Char)} {cs : List Char} :
    cut pairs cs = [] ↔ cs = [] := by
  match cs with
  | [] => simp [cut]
  | [c] => simp [cut]
  | c :: d :: cs =>
      rw [cut]
      split <;> simp

/-- **A string is closed by the first quote that is cut off.** -/
theorem closes_iff_endsAt (double : Bool) (cs : List Char) :
    Closes (quoteChar double) cs ↔ EndsAt [quoteChar double] (cut escapes cs) := by
  match cs with
  | [] => exact iff_of_false nofun endsAt_nil
  | c :: cs =>
      by_cases escaped : ∃ d ds, cs = d :: ds ∧ (c, d) ∈ escapes
      · obtain ⟨d, ds, rfl, mem⟩ := escaped
        obtain ⟨rfl, isEscaped⟩ := mem_escapes.mp mem
        rw [Closes.escape_iff isEscaped, cut_pair mem, endsAt_of_ne (by simp)]
        exact closes_iff_endsAt double ds
      · have single : ∀ d, cs.head? = some d → (c, d) ∉ escapes := by
          intro d head mem
          obtain ⟨ds, rfl⟩ := List.head?_eq_some_iff.mp head
          exact escaped ⟨d, ds, rfl, mem⟩
        rw [Closes.cons_iff single, cut_single single, endsAt_cons, cut_eq_nil_iff,
          closes_iff_endsAt double cs]
        simp
termination_by cs.length

/-! ### Sources -/

section Sources

variable {source : String}

/-- **The words of a layout**: they are the same with the blanks and without them, and
begin where the tokens begin. -/
theorem words_of_layout {vs : List (String × String)}
    (h : Layout vs (Profile.standalone.tokens source)) :
    ∃ found, found.map key = vs ∧
      Coarsens words.targetTypes (Profile.standalone.tokens source) found ∧
      ∀ raw, (language.tokenize source raw).outcome =
        .ok (if raw then found else found.filter fun t => !t.isBlank Token.blankTypes) := by
  have regular : ∀ t ∈ Profile.standalone.tokens source, Regular t :=
    fun t mem => regular_of_fits (Profile.fits_of_mem_tokens mem)
  have room := weigh_le (Profile.standalone.tokens source)
  rcases WordBuilder.build_of_measure (words_layout vs) rfl ⟨regular, h⟩ (by omega) true with
    ⟨found, result, ⟨regularWords, layout⟩, fixed, built, same⟩ | ⟨e, -, impossible⟩
  · rw [if_pos rfl] at same
    subst same
    rw [WordBuilder.outcome_build] at built
    cases settled : (words.settle (words.limit (Profile.standalone.tokens source))
        (words.limit (Profile.standalone.tokens source)).toNat 1
        (Profile.standalone.tokens source)).outcome with
    | error e =>
        rw [settled] at built
        cases built
    | ok other =>
        obtain rfl : other = result := by simpa [settled, Except.map] using built
        refine ⟨other, layout.fixed ((pass_eq_ok_iff regularWords).mp fixed),
          (WordBuilder.coarsens_of_settle _ _ _ settled).1, fun raw => ?_⟩
        rw [outcome_tokenize, WordBuilder.outcome_build, settled]
        rfl
  · exact impossible.elim

/-- **A source that folds into one word.**  If it begins with punctuation, the word
stands where the source begins. -/
theorem tokenize_of_folds {v : String × String} {c : Char} {cs : List Char}
    (text : source.toList = c :: cs) (closed : Profile.standalone.opens? c = none)
    (punctuation : Profile.standalone.punctuation c = true)
    (h : Folds v (Profile.standalone.tokens source)) (raw : Bool) :
    (language.tokenize source raw).outcome =
      .ok (if raw = true ∨ v.1 ∉ Token.blankTypes then [⟨v.1, v.2, 1, 1⟩] else []) := by
  obtain ⟨found, keys, coarser, tokenized⟩ := words_of_layout h.layout
  obtain ⟨u, rfl, rfl⟩ := List.map_eq_singleton_iff.mp keys
  have lexed : Profile.standalone.tokens source =
      Profile.standalone.tokensFrom .start source.toList := rfl
  rw [text, Profile.tokensFrom_punctuation closed punctuation] at lexed
  obtain ⟨line, column⟩ := coarser.head_place (by rw [lexed]; rfl) rfl
  have same : (⟨(key u).1, (key u).2, 1, 1⟩ : Token) = u :=
    congrArg₂ (Token.mk u.type u.text) line.symm column.symm
  rw [tokenized, same]
  cases raw with
  | true => simp
  | false => simp [Token.isBlank, key, List.filter_cons]

end Sources

/-- What is known of the text of a string. -/
theorem Spelling.closes {type : String} {double : Bool} {c : Char} {cs : List Char}
    (h : Spelling type (c :: cs)) (isString : type = stringType double) :
    Closes (quoteChar double) cs := by
  have others : ∀ double, stringType double ∉ ["IDENT", "NUMLIT", "PUNCT"] ++ Token.blankTypes ∧
      ∀ other, stringType double ≠ quoteType other := by
    decide
  have injective : ∀ a b, stringType a = stringType b → a = b := by decide
  obtain ⟨solid, unmarked⟩ := others double
  rw [← isString] at solid
  generalize same : c :: cs = text at h
  cases h with
  | name _ => exact absurd (by decide) solid
  | number _ => exact absurd (by decide) solid
  | punctuation _ => exact absurd (by decide) solid
  | mark other => exact (unmarked other isString.symm).elim
  | blank isBlank => exact (solid (List.mem_append_right _ isBlank)).elim
  | @string other ds closes =>
      cases same
      rwa [injective _ _ isString] at closes

/-- The text of a quote. -/
def quote (double : Bool) : String :=
  String.singleton (quoteChar double)

/-- **Strings are opaque.**  A text between two quotes is one string if and only if,
cut up from left to right into escapes and single characters, it ends at its first
bare quote.  Nothing else that stands in it matters. -/
theorem tokenize_eq_string_iff (double : Bool) (body : String)
    (kept : ∀ c ∈ body.toList, isKept c = true) :
    (language.tokenize (quote double ++ body ++ quote double) false).outcome =
        .ok [⟨stringType double, quote double ++ body ++ quote double, 1, 1⟩] ↔
      EndsAt [quoteChar double] (cut escapes (body.toList ++ [quoteChar double])) := by
  have quotes : ∀ double, Profile.standalone.opens? (quoteChar double) = none ∧
      Profile.standalone.punctuation (quoteChar double) = true ∧ isKept (quoteChar double) = true ∧
      stringType double ∉ Token.blankTypes := by
    decide
  obtain ⟨closed, punctuation, keptQuote, solid⟩ := quotes double
  have text : (quote double ++ body ++ quote double).toList =
      quoteChar double :: (body.toList ++ [quoteChar double]) := by
    simp [quote]
  rw [← closes_iff_endsAt]
  constructor
  · intro tokenized
    have spelled := (tokenize_spelled tokenized _ List.mem_cons_self).2.1.spelling
    rw [text] at spelled
    exact spelled.closes rfl
  · intro closes
    have keptText : ∀ c ∈ (quote double ++ body ++ quote double).toList, isKept c = true := by
      rw [text]
      simpa [keptQuote, or_imp, forall_and] using kept
    have folds := folds_string (fun t mem => Profile.fits_of_mem_tokens mem)
      ((chars_tokensFrom keptText .start).trans text) closes
    rw [← text, String.ofList_toList] at folds
    rw [tokenize_of_folds text closed punctuation folds false, if_pos (Or.inr solid)]

/-- An escaped quote, the other quote, a comment mark, a fraction and an escaped
backslash before the last quote. -/
theorem tokenize_eq_string_iff_escaped :
    (∀ c ∈ "it\\\x27s \"/* -1.5 \\\\".toList, isKept c = true) ∧
      (language.tokenize (quote false ++ "it\\\x27s \"/* -1.5 \\\\" ++ quote false)
        false).outcome =
      .ok [⟨"STRLIT-SQ", "\x27it\\\x27s \"/* -1.5 \\\\\x27", 1, 1⟩] := by
  have kept : ∀ c ∈ "it\\\x27s \"/* -1.5 \\\\".toList, isKept c = true := by decide
  exact ⟨kept, (tokenize_eq_string_iff false _ kept).mpr (by decide)⟩

end GrammarKit.Query
