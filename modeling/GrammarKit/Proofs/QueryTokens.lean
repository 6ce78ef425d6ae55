import GrammarKit.Grammar.Terminal
import GrammarKit.Proofs.Lexing

/-!
# The tokens between the passes of the query language

Terminals look at texts in upper case, and a few texts decide what a token can
still become: a bare quote, a comment mark, a comparison character.  Between
passes every token is **regular**: its type is one of ten, and where its text is
such a mark the type is one of those that go with the mark.  The tokens of the
lexer are regular, and so is whatever a word is folded into.

## Main Definitions

* `Query.image` — the upper case of a token's text
* `Query.Regular` — what is known of a token between passes
* `Query.Shape` — what a word of a given type is folded from
* `Query.weigh` — the measure: punctuation counts twice, every other token once

## Main Statements

* `Query.regular_of_fits` — the tokens of the lexer are regular
* `Query.Shape.regular` — a folded word is regular
* `Query.Shape.progress` — folding a word lowers the weight or changes nothing

## Design Notes

What the proofs need of particular marks and types is put into tables, and facts
about the tables are decided.
-/

namespace GrammarKit.Query

open Profile (RunKind)

/-! ### Tables -/

/-- The types of tokens that a pass may leave as they are. -/
def settledTypes : List String :=
  ["IDENT", "PUNCT", "NUMLIT", "STRLIT-DQ", "STRLIT-SQ", "WS", "WS-BLOCK-COMMENT",
   "WS-LINE-COMMENT"]

/-- The types of quotes that a later pass pairs up, each with the quote. -/
def quoteMarks : List (String × String) :=
  [("QUOTE-DQ", "\""), ("QUOTE-SQ", "\x27")]

/-- The types of tokens between passes. -/
def passTypes : List String :=
  settledTypes ++ quoteMarks.map Prod.fst

/-- The marks that are punctuation and nothing else. -/
def plainMarks : List String :=
  ["<", "=", ">", "/", "*", "-", "\\"]

/-- The texts that decide what a token can become, each with the types it may have. -/
def markTypes : List (String × List String) :=
  plainMarks.map (fun mark => (mark, ["PUNCT"])) ++
    [("\"", ["PUNCT", "QUOTE-DQ"]), ("\x27", ["PUNCT", "QUOTE-SQ"]),
     ("--", ["PUNCT", "WS-LINE-COMMENT"]), ("//", ["PUNCT", "WS-LINE-COMMENT"])]

/-- Types and marks are in upper case already. -/
theorem upper_passTypes : ∀ type ∈ passTypes, Text.upper type = type := by
  decide

theorem upper_markTypes : ∀ mark ∈ markTypes, Text.upper mark.1 = mark.1 := by
  decide

/-! ### Texts in upper case -/

/-- The upper case of a token's text. -/
def image (t : Token) : List Char :=
  (Text.upper t.text).toList

/-- The image of a text that is made of others. -/
theorem image_join (type : String) (line column : Int) :
    ∀ w : List Token, image ⟨type, Token.join w, line, column⟩ = w.flatMap image := by
  intro w
  induction w with
  | nil => rfl
  | cons t rest ih =>
      have split : Token.join (t :: rest) = t.text ++ Token.join rest := String.join_cons
      rw [List.flatMap_cons, ← ih, image, image, image, split, Text.upper_append,
        String.toList_append]

/-- A terminal that accepts a text fixes its image. -/
theorem image_of_accepts {t : Token} {text : String} (fixed : Text.upper text = text)
    (h : (Terminal.literal text).accepts t = true) : image t = text.toList := by
  have same : Text.upper t.text = Text.upper text := by
    simpa [Terminal.accepts, Terminal.literal, Terminal.valueOf] using h
  rw [image, same, fixed]

/-- A terminal that accepts a type between passes fixes it. -/
theorem accepts_type_iff {t : Token} {type : String} (known : t.type ∈ passTypes)
    (mem : type ∈ passTypes) : (Terminal.ofType type).accepts t = true ↔ t.type = type := by
  simp only [Terminal.accepts, Terminal.ofType, Terminal.valueOf, beq_iff_eq]
  rw [upper_passTypes _ known, upper_passTypes _ mem]

/-! ### Regular tokens -/

/-- Letters, digits and the underscore. -/
def isWordChar (c : Char) : Bool :=
  Profile.isWordLetter c || Profile.isDigit c

/-- Whether a text ends in a letter, a digit or an underscore. -/
def Lettered (cs : List Char) : Prop :=
  ∃ c, cs.getLast? = some c ∧ isWordChar c = true

/-- **What is known of a token between passes.** -/
structure Regular (t : Token) : Prop where
  typed : t.type ∈ passTypes
  /-- A mark has one of its types. -/
  marked : ∀ mark ∈ markTypes, image t = mark.1.toList → t.type ∈ mark.2
  /-- A quote to be paired up is a quote. -/
  quoted : ∀ quote ∈ quoteMarks, t.type = quote.1 → image t = quote.2.toList
  /-- A name or a number is never a mark. -/
  lettered : t.type ∈ ["IDENT", "NUMLIT"] → Lettered (image t)

/-- No mark ends in a letter, a digit or an underscore. -/
theorem not_lettered_mark : ∀ mark ∈ markTypes, ¬ Lettered mark.1.toList := by
  have each : ∀ mark ∈ markTypes, (mark.1.toList.all fun c => !isWordChar c) = true := by
    decide
  rintro mark mem ⟨c, last, isWord⟩
  have notWord := List.all_eq_true.mp (each mark mem) c (List.mem_of_getLast? last)
  rw [isWord] at notWord
  cases notWord

/-! ### The tokens of the lexer -/

/-- The characters of words are ASCII. -/
theorem toNat_lt_of_isWordChar {c : Char} (h : isWordChar c = true) : c.toNat < 128 := by
  change (decide ('A'.val ≤ c.val ∧ c.val ≤ 'Z'.val) ||
    (decide ('a'.val ≤ c.val) && decide (c.val ≤ 'z'.val)) || c == '_' ||
      (decide ('0'.val ≤ c.val) && decide (c.val ≤ '9'.val))) = true at h
  simp only [Bool.or_eq_true, Bool.and_eq_true, decide_eq_true_eq, beq_iff_eq,
    UInt32.le_iff_toNat_le] at h
  rcases h with ((upper | lower) | rfl) | digit
  · exact Nat.lt_of_le_of_lt upper.2 (by decide)
  · exact Nat.lt_of_le_of_lt lower.2 (by decide)
  · decide
  · exact Nat.lt_of_le_of_lt digit.2 (by decide)

/-- The upper case of a character of a word is one too. -/
theorem upperChar_isWordChar {c : Char} (h : isWordChar c = true) :
    ∃ d, Text.upperChar c = [d] ∧ isWordChar d = true := by
  have small : ∀ n : Fin 128, isWordChar (Char.ofNat n) = true →
      Text.upperChar (Char.ofNat n) = [(Char.ofNat n).toUpper] ∧
        isWordChar (Char.ofNat n).toUpper = true := by
    decide
  have same : Char.ofNat c.toNat = c := Char.ofNat_toNat c
  have both := small ⟨c.toNat, toNat_lt_of_isWordChar h⟩
  simp only [same] at both
  exact ⟨_, both h⟩

/-- They are no blanks. -/
theorem isBlank_of_isWordChar {c : Char} (h : isWordChar c = true) : Text.isBlank c = false := by
  have small : ∀ n : Fin 128, isWordChar (Char.ofNat n) = true →
      Text.isBlank (Char.ofNat n) = false := by
    decide
  have same : Char.ofNat c.toNat = c := Char.ofNat_toNat c
  have both := small ⟨c.toNat, toNat_lt_of_isWordChar h⟩
  simp only [same] at both
  exact both h

/-- Blanks have no case. -/
theorem upperChar_of_isBlank {c : Char} (h : Text.isBlank c = true) :
    Text.upperChar c = [c] := by
  have each : ∀ range ∈ Text.blankRanges, ∀ k ∈ List.range (range.2 + 1 - range.1),
      Text.upperChar (Char.ofNat (range.1 + k)) = [Char.ofNat (range.1 + k)] := by
    decide
  rw [Text.isBlank, Text.inRanges, List.any_eq_true] at h
  obtain ⟨range, mem, inside⟩ := h
  simp only [Bool.and_eq_true, decide_eq_true_eq] at inside
  have fixed := each range mem (c.toNat - range.1) (List.mem_range.mpr (by omega))
  rwa [Nat.add_sub_cancel' inside.1, Char.ofNat_toNat] at fixed

/-- A list that is not empty has a last element. -/
private theorem exists_eq_concat {α : Type} (a : α) (rest : List α) :
    ∃ front last, a :: rest = front ++ [last] :=
  ⟨_, _, (List.dropLast_concat_getLast (List.cons_ne_nil a rest)).symm⟩

/-- A run of letters, digits and underscores stays one in upper case. -/
theorem lettered_image {t : Token} {c : Char} {rest : List Char} (chars : t.text.toList = c :: rest)
    (all : ∀ d ∈ c :: rest, isWordChar d = true) : Lettered (image t) := by
  obtain ⟨front, last, split⟩ := exists_eq_concat c rest
  have isWord : isWordChar last = true := all last (by rw [split]; simp)
  obtain ⟨d, upper, upperIsWord⟩ := upperChar_isWordChar isWord
  refine ⟨d, ?_, upperIsWord⟩
  rw [image, Text.toList_upper, chars, split, List.flatMap_append, List.flatMap_singleton, upper,
    List.getLast?_concat]

/-- A token of a settled type is regular if its image is no mark. -/
theorem regular_of_not_mark {t : Token} (settled : t.type ∈ settledTypes)
    (notMark : ∀ mark ∈ markTypes, image t ≠ mark.1.toList)
    (lettered : t.type ∈ ["IDENT", "NUMLIT"] → Lettered (image t)) : Regular t where
  typed := List.mem_append_left _ settled
  marked := fun mark mem same => (notMark mark mem same).elim
  quoted := by
    intro quote mem same
    have apart : ∀ quote ∈ quoteMarks, quote.1 ∉ settledTypes := by decide
    rw [same] at settled
    exact (apart quote mem settled).elim
  lettered := lettered

/-- Names and numbers are regular. -/
theorem regular_of_lettered {t : Token} (mem : t.type ∈ ["IDENT", "NUMLIT"])
    (lettered : Lettered (image t)) : Regular t := by
  refine regular_of_not_mark ?_ ?_ fun _ => lettered
  · have sub : ∀ type ∈ ["IDENT", "NUMLIT"], type ∈ settledTypes := by decide
    exact sub _ mem
  · intro mark isMark same
    rw [same] at lettered
    exact not_lettered_mark mark isMark lettered

/-- Punctuation is regular whatever its text. -/
theorem regular_of_punctuation {t : Token} (h : t.type = "PUNCT") : Regular t where
  typed := by rw [h]; decide
  marked := by
    intro mark mem _
    have each : ∀ mark ∈ markTypes, "PUNCT" ∈ mark.2 := by decide
    rw [h]
    exact each mark mem
  quoted := by
    intro quote mem same
    have apart : ∀ quote ∈ quoteMarks, "PUNCT" ≠ quote.1 := by decide
    rw [h] at same
    exact (apart quote mem same).elim
  lettered := by
    intro mem
    rw [h] at mem
    exact absurd mem (by decide)

/-- Runs of blanks are regular: no mark has a blank in it. -/
theorem regular_of_blank {t : Token} {c : Char} {rest : List Char} (type : t.type = "WS")
    (chars : t.text.toList = c :: rest) (blank : Text.isBlank c = true) : Regular t := by
  have each : ∀ mark ∈ markTypes, (mark.1.toList.all fun c => !Text.isBlank c) = true := by
    decide
  have first : c ∈ image t := by
    rw [image, Text.toList_upper, chars, List.flatMap_cons, upperChar_of_isBlank blank]
    exact List.mem_cons_self
  refine regular_of_not_mark (by rw [type]; decide) ?_ ?_
  · intro mark mem same
    rw [same] at first
    have notBlank := List.all_eq_true.mp (each mark mem) c first
    rw [blank] at notBlank
    cases notBlank
  · intro mem
    rw [type] at mem
    exact absurd mem (by decide)

/-- What starts or continues a word or a number is a letter, a digit or an
underscore. -/
theorem isWordChar_of_run {kind : RunKind} {c : Char} (notBlank : kind ≠ .blank)
    (h : Profile.standalone.starts kind c = true ∨ Profile.standalone.continues kind c = true) :
    isWordChar c = true := by
  cases kind with
  | blank => exact (notBlank rfl).elim
  | word =>
      simp only [Profile.starts, Profile.continues, Profile.standalone, Bool.or_eq_true] at h
      simp only [isWordChar, Bool.or_eq_true]
      grind
  | number =>
      simp only [Profile.starts, Profile.continues, Profile.standalone, Profile.isLetter,
        Bool.or_eq_true] at h
      simp only [isWordChar, Profile.isWordLetter, Bool.or_eq_true]
      grind

/-- **The tokens of the lexer are regular.** -/
theorem regular_of_fits {t : Token} (h : Profile.standalone.Fits t) : Regular t := by
  cases h with
  | punctuation c type _ _ _ => exact regular_of_punctuation type
  | run kind type chars =>
      obtain ⟨c, rest, chars, opens, continues⟩ := chars
      have starts := Profile.starts_of_opens? opens
      by_cases isBlank : kind = .blank
      · rw [isBlank] at type starts
        exact regular_of_blank type chars starts
      · have types : t.type ∈ ["IDENT", "NUMLIT"] := by
          rw [type]
          cases kind with
          | blank => exact (isBlank rfl).elim
          | word => decide
          | number => decide
        refine regular_of_lettered types (lettered_image chars fun d mem => ?_)
        rcases List.mem_cons.mp mem with rfl | later
        · exact isWordChar_of_run isBlank (Or.inl starts)
        · exact isWordChar_of_run isBlank (Or.inr (continues d later))

/-! ### The shapes of words -/

/-- **What a word is folded from**, by the type it gets. -/
inductive Shape : String → List Token → Prop where
  /-- An operator, a comment mark or an escaped character. -/
  | punctuation {t : Token} {v : List Token} : t.type = "PUNCT" → Shape "PUNCT" (t :: v)
  /-- A number, a placeholder or a path ends in a token of its own type. -/
  | lettered {u : List Token} {t : Token} :
      t.type ∈ ["IDENT", "NUMLIT"] → Shape t.type (u ++ [t])
  | blockComment {a z : Token} {v : List Token} :
      image a = "/*".toList → image z = "*/".toList → Shape "WS-BLOCK-COMMENT" (a :: (v ++ [z]))
  /-- The mark of a line comment may be all there is of it. -/
  | lineComment {mark : String} {a : Token} {v : List Token} :
      mark ∈ ["--", "//"] → image a = mark.toList → Shape "WS-LINE-COMMENT" (a :: v)
  /-- A bare quote, not yet known as one. -/
  | quote {mark : String × String} {a : Token} :
      mark ∈ quoteMarks → image a = mark.2.toList → a.type ≠ mark.1 → Shape mark.1 [a]
  | string {mark : String × String} {type : String} {a z : Token} {v : List Token} :
      type ∈ ["STRLIT-DQ", "STRLIT-SQ"] → mark ∈ quoteMarks → a.type = mark.1 →
      z.type = mark.1 → Shape type (a :: (v ++ [z]))

/-- A text that ends in a lettered one is lettered. -/
theorem Lettered.append {cs ds : List Char} (h : Lettered ds) : Lettered (cs ++ ds) := by
  obtain ⟨c, last, isWord⟩ := h
  refine ⟨c, ?_, isWord⟩
  rw [List.getLast?_append, last]
  rfl

/-- **A folded word is regular.** -/
theorem Shape.regular {type : String} {w : List Token} (h : Shape type w)
    (regular : ∀ t ∈ w, Regular t) (line column : Int) :
    Regular ⟨type, Token.join w, line, column⟩ := by
  cases h with
  | punctuation _ => exact regular_of_punctuation rfl
  | @lettered u t mem =>
      refine regular_of_lettered mem ?_
      rw [image_join, List.flatMap_append, List.flatMap_singleton]
      exact ((regular t (by simp)).lettered mem).append
  | @blockComment a z v opening closing =>
      -- four characters are too many for a mark
      have short : ∀ mark ∈ markTypes, mark.1.toList.length < 4 := by decide
      have settled : "WS-BLOCK-COMMENT" ∈ settledTypes := by decide
      refine regular_of_not_mark settled ?_
        fun mem => absurd mem (by decide : "WS-BLOCK-COMMENT" ∉ ["IDENT", "NUMLIT"])
      intro mark mem same
      have length := short mark mem
      rw [← same, image_join, List.flatMap_cons, List.flatMap_append, List.flatMap_singleton,
        opening, closing] at length
      simp only [List.length_append] at length
      have two : "/*".toList.length = 2 ∧ "*/".toList.length = 2 := by decide
      omega
  | @lineComment mark a v isMark opening =>
      have typed : "WS-LINE-COMMENT" ∈ passTypes := by decide
      refine ⟨typed, ?_, ?_, ?_⟩
      · have each : ∀ mark ∈ ["--", "//"], ∀ other ∈ markTypes,
            mark.toList <+: other.1.toList → "WS-LINE-COMMENT" ∈ other.2 := by
          decide
        intro other mem same
        refine each mark isMark other mem ?_
        rw [← same, image_join, List.flatMap_cons, opening]
        exact List.prefix_append _ _
      · have apart : ∀ quote ∈ quoteMarks, "WS-LINE-COMMENT" ≠ quote.1 := by decide
        intro quote mem same
        exact (apart quote mem same).elim
      · intro mem
        exact absurd mem (by decide : "WS-LINE-COMMENT" ∉ ["IDENT", "NUMLIT"])
  | @quote mark a isQuote text _ =>
      have same : image ⟨mark.1, Token.join [a], line, column⟩ = mark.2.toList := by
        rw [image_join, List.flatMap_singleton, text]
      refine ⟨List.mem_append_right _ (List.mem_map_of_mem isQuote), ?_, ?_, ?_⟩
      · have each : ∀ quote ∈ quoteMarks, ∀ mark ∈ markTypes,
            quote.2.toList = mark.1.toList → quote.1 ∈ mark.2 := by
          decide
        intro other mem sameOther
        exact each mark isQuote other mem (same.symm.trans sameOther)
      · have each : ∀ quote ∈ quoteMarks, ∀ other ∈ quoteMarks,
            quote.1 = other.1 → quote.2 = other.2 := by
          decide
        intro other mem sameType
        rw [same, each mark isQuote other mem sameType]
      · have apart : ∀ quote ∈ quoteMarks, quote.1 ∉ ["IDENT", "NUMLIT"] := by decide
        intro mem
        exact (apart mark isQuote mem).elim
  | @string mark type a z v isString isQuote opening closing =>
      have settled : ∀ type ∈ ["STRLIT-DQ", "STRLIT-SQ"],
          type ∈ settledTypes ∧ type ∉ ["IDENT", "NUMLIT"] := by
        decide
      refine regular_of_not_mark (settled type isString).1 ?_
        fun mem => absurd mem (settled type isString).2
      -- a mark that begins with a quote is the quote
      have each : ∀ quote ∈ quoteMarks, ∀ other ∈ markTypes,
          quote.2.toList <+: other.1.toList → other.1.toList.length < 2 * quote.2.toList.length := by
        decide
      intro other mem same
      have first := (regular a (by simp)).quoted mark isQuote opening
      have last := (regular z (by simp)).quoted mark isQuote closing
      rw [image_join, List.flatMap_cons, List.flatMap_append, List.flatMap_singleton, first,
        last] at same
      have length := each mark isQuote other mem (by rw [← same]; exact List.prefix_append _ _)
      rw [← same] at length
      simp only [List.length_append] at length
      omega

/-! ### The weight of tokens -/

/-- Punctuation may still change its type once, so it counts twice. -/
def weight (t : Token) : Nat :=
  if t.type = "PUNCT" then 2 else 1

/-- The weight of a list of tokens. -/
def weigh : List Token → Nat
  | [] => 0
  | t :: rest => weight t + weigh rest

@[simp] theorem weigh_nil : weigh [] = 0 := rfl

@[simp] theorem weigh_cons (t : Token) (w : List Token) : weigh (t :: w) = weight t + weigh w :=
  rfl

@[simp] theorem weigh_append (u v : List Token) : weigh (u ++ v) = weigh u + weigh v := by
  induction u with
  | nil => rw [List.nil_append, weigh_nil, Nat.zero_add]
  | cons t rest ih => rw [List.cons_append, weigh_cons, weigh_cons, ih, Nat.add_assoc]

theorem weight_pos (t : Token) : 0 < weight t := by
  unfold weight
  split <;> omega

theorem weight_le_two (t : Token) : weight t ≤ 2 := by
  unfold weight
  split <;> omega

theorem weight_of_punctuation {t : Token} (h : t.type = "PUNCT") : weight t = 2 :=
  if_pos h

theorem weight_of_ne {t : Token} (h : t.type ≠ "PUNCT") : weight t = 1 :=
  if_neg h

/-- The limit on the passes is above the weight of what they begin with. -/
theorem weigh_le (w : List Token) : weigh w ≤ 2 * w.length := by
  induction w with
  | nil => simp
  | cons t rest ih =>
      have two := weight_le_two t
      rw [weigh_cons, List.length_cons]
      omega

/-- **What a pass makes of some tokens**: regular tokens, of which there are the
same, all of settled types, or less in weight. -/
structure Progress (before after : List Token) : Prop where
  regular : ∀ t ∈ after, Regular t
  moves : (after = before ∧ ∀ t ∈ before, t.type ∈ settledTypes) ∨ weigh after < weigh before

theorem Progress.nil : Progress [] [] :=
  ⟨by simp, Or.inl ⟨rfl, by simp⟩⟩

/-- Progress on two parts is progress on the whole. -/
theorem Progress.append {u u' v v' : List Token} (first : Progress u u')
    (second : Progress v v') : Progress (u ++ v) (u' ++ v') where
  regular := by
    intro t mem
    rcases List.mem_append.mp mem with left | right
    · exact first.regular t left
    · exact second.regular t right
  moves := by
    rw [weigh_append, weigh_append]
    rcases first.moves with ⟨rfl, settled⟩ | lower
    · rcases second.moves with ⟨rfl, settled'⟩ | lower'
      · refine Or.inl ⟨rfl, fun t mem => ?_⟩
        rcases List.mem_append.mp mem with left | right
        · exact settled t left
        · exact settled' t right
      · exact Or.inr (by omega)
    · rcases second.moves with ⟨rfl, -⟩ | lower'
      · exact Or.inr (by omega)
      · exact Or.inr (by omega)

/-- A token of a settled type may stay as it is. -/
theorem Progress.kept {t : Token} (regular : Regular t) (settled : t.type ∈ settledTypes) :
    Progress [t] [t] where
  regular := by simpa using regular
  moves := Or.inl ⟨rfl, by simpa using settled⟩

/-- A single token that keeps its type is folded into itself. -/
theorem fold_single (t : Token) :
    (⟨t.type, Token.join [t], t.line, t.column⟩ : Token) = t := by
  have text : Token.join [t] = t.text := by simp [Token.join]
  rw [text]

/-- Two or more tokens weigh more than one that is not punctuation. -/
theorem weigh_fold_lt {type text : String} {line column : Int} {a z : Token} {v : List Token}
    (h : type ≠ "PUNCT") : weigh [⟨type, text, line, column⟩] < weigh (a :: (v ++ [z])) := by
  have one : weight ⟨type, text, line, column⟩ = 1 := weight_of_ne h
  have first := weight_pos a
  have last := weight_pos z
  simp only [weigh_cons, weigh_append, weigh_nil, one]
  omega

/-- Punctuation weighs more than what it may become. -/
theorem weigh_retyped_lt {type text : String} {line column : Int} {t : Token}
    (isPunctuation : t.type = "PUNCT") (h : type ≠ "PUNCT") :
    weigh [⟨type, text, line, column⟩] < weigh [t] := by
  have one : weight ⟨type, text, line, column⟩ = 1 := weight_of_ne h
  rw [weigh_cons, weigh_cons, one, weight_of_punctuation isPunctuation]
  exact Nat.lt_succ_self _

/-- A single token of a settled type that is folded into its own type is kept. -/
theorem fold_kept {type : String} {t : Token} (same : t.type = type)
    (settled : type ∈ settledTypes) :
    [(⟨type, Token.join [t], t.line, t.column⟩ : Token)] = [t] ∧
      ∀ other ∈ [t], other.type ∈ settledTypes := by
  rw [← same, fold_single]
  refine ⟨rfl, fun other mem => ?_⟩
  rw [List.mem_singleton.mp mem, same]
  exact settled

/-- **Folding a word lowers the weight or changes nothing.** -/
theorem Shape.progress {type : String} {w rest : List Token} {first : Token} (h : Shape type w)
    (regular : ∀ t ∈ w, Regular t) (begins : w = first :: rest) :
    Progress w [⟨type, Token.join w, first.line, first.column⟩] := by
  refine ⟨by simpa using h.regular regular first.line first.column, ?_⟩
  cases h with
  | @punctuation t v isPunctuation =>
      obtain ⟨rfl, rfl⟩ := List.cons.inj begins
      cases v with
      | nil => exact Or.inl (fold_kept isPunctuation (by decide))
      | cons b more =>
          have next := weight_pos b
          have atMost := weight_le_two ⟨"PUNCT", Token.join (t :: b :: more), t.line, t.column⟩
          refine Or.inr ?_
          rw [weigh_cons, weigh_nil, weigh_cons, weigh_cons, weight_of_punctuation isPunctuation]
          omega
  | @lettered u t mem =>
      have types : ∀ type ∈ ["IDENT", "NUMLIT"], type ∈ settledTypes ∧ type ≠ "PUNCT" := by
        decide
      cases u with
      | nil =>
          obtain ⟨rfl, rfl⟩ := List.cons.inj begins
          exact Or.inl (fold_kept rfl (types t.type mem).1)
      | cons a more => exact Or.inr (weigh_fold_lt (types t.type mem).2)
  | blockComment _ _ => exact Or.inr (weigh_fold_lt (by decide))
  | @lineComment mark a v isMark opening =>
      obtain ⟨rfl, rfl⟩ := List.cons.inj begins
      cases v with
      | nil =>
          -- the mark alone: already a comment, or punctuation until now
          have entry : ∀ mark ∈ ["--", "//"], (mark, ["PUNCT", "WS-LINE-COMMENT"]) ∈ markTypes := by
            decide
          have types := (regular a (by simp)).marked _ (entry mark isMark) opening
          rcases List.mem_cons.mp types with isPunctuation | isComment
          · exact Or.inr (weigh_retyped_lt isPunctuation (by decide))
          · exact Or.inl (fold_kept (List.mem_singleton.mp isComment) (by decide))
      | cons b more =>
          obtain ⟨front, last, split⟩ := exists_eq_concat b more
          rw [split]
          exact Or.inr (weigh_fold_lt (by decide))
  | @quote mark a isQuote text unknown =>
      obtain ⟨rfl, rfl⟩ := List.cons.inj begins
      have entry : ∀ quote ∈ quoteMarks,
          (quote.2, ["PUNCT", quote.1]) ∈ markTypes ∧ quote.1 ≠ "PUNCT" := by
        decide
      have types := (regular a (by simp)).marked _ (entry mark isQuote).1 text
      rcases List.mem_cons.mp types with isPunctuation | known
      · exact Or.inr (weigh_retyped_lt isPunctuation (entry mark isQuote).2)
      · exact (unknown (List.mem_singleton.mp known)).elim
  | @string mark type a z v isString _ _ _ =>
      have notPunctuation : ∀ type ∈ ["STRLIT-DQ", "STRLIT-SQ"], type ≠ "PUNCT" := by
        decide
      exact Or.inr (weigh_fold_lt (notPunctuation type isString))

end GrammarKit.Query
