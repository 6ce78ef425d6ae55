import GrammarKit.Proofs.QueryRefolding

/-!
# Words are found again in their texts

Written down again, a word is read as the same word: the lexer takes its text
apart, and passes over the parts fold them into a token of the same type and text.
Texts that are written side by side with a blank or a comma between them do not
disturb each other.

## Main Definitions

* `Query.Piece` — a text that is read as some words

## Main Statements

* `Query.links_of_chain` — what the lexer makes of a name or a number
* `Query.piece_name`, `Query.piece_number`, `Query.piece_string`,
  `Query.piece_operator` — words are pieces
* `Query.Piece.space`, `Query.Piece.comma` — pieces side by side
* `Query.tokenize_of_piece` — a source that is a piece is read as its words
-/

namespace GrammarKit.Query

open GrammarKit.Parser
open Profile (RunKind tokenAt)

/-! ### Texts of words -/

section Texts

variable {core : Role} {cs : List Char}

/-- The kind of the runs of a name or a number. -/
def Role.kind : Role → RunKind
  | .number => .number
  | _ => .word

/-- The characters of the marks of a name or a number. -/
def Role.markChars : Role → List Char
  | .name => [':']
  | .number => ['+', '-']
  | _ => []

theorem kind_ne_blank (isCore : core ∈ [Role.name, .number]) : core.kind ≠ .blank := by
  have each : ∀ core ∈ [Role.name, .number], core.kind ≠ .blank := by decide
  exact each core isCore

/-- The characters of a run of a name or a number are those of words. -/
theorem isWordChar_of_runChars (isCore : core ∈ [Role.name, .number])
    (h : Profile.standalone.RunChars core.kind cs) : ∀ c ∈ cs, isWordChar c = true := by
  obtain ⟨c, rest, rfl, opens, continues⟩ := h
  refine List.forall_mem_cons.mpr ⟨?_, fun d mem => ?_⟩
  · exact isWordChar_of_run (kind_ne_blank isCore) (Or.inl (Profile.starts_of_opens? opens))
  · exact isWordChar_of_run (kind_ne_blank isCore) (Or.inr (continues d mem))

/-- Chains have only characters that are kept, and no blanks. -/
theorem Chain.kept (isCore : core ∈ [Role.name, .number]) (h : Chain core.kind core.markChars cs) :
    ∀ c ∈ cs, isKept c = true ∧ Text.isBlank c = false := by
  have marks : ∀ core ∈ [Role.name, .number], ∀ c ∈ core.markChars,
      isKept c = true ∧ Text.isBlank c = false := by
    decide
  have run : ∀ {cs : List Char}, Profile.standalone.RunChars core.kind cs →
      ∀ c ∈ cs, isKept c = true ∧ Text.isBlank c = false := by
    intro cs chars c mem
    have isWord := isWordChar_of_runChars isCore chars c mem
    exact ⟨isKept_of_isWordChar isWord, isBlank_of_isWordChar isWord⟩
  induction h with
  | run chars => exact run chars
  | mark isMark _ _ ih => exact List.forall_mem_cons.mpr ⟨marks core isCore _ isMark, ih⟩
  | step chars _ ih =>
      refine List.forall_mem_append.mpr ⟨run chars, List.forall_mem_cons.mpr ⟨by decide, ih⟩⟩

/-- The tokens of kept characters make up the characters. -/
theorem chars_tokensFrom (kept : ∀ c ∈ cs, isKept c = true) (position : Position) :
    chars (Profile.standalone.tokensFrom position cs) = cs := by
  have joined := Profile.standalone.join_tokensFrom kept position
  rw [Token.join, String.toList_join, List.flatMap_map] at joined
  exact joined

/-- A punctuation character by itself. -/
theorem role_punctuation {c : Char} {r : Role} (mem : r ∈ Role.spelled)
    (value : r.terminal.value = String.singleton c) (notQuote : ∀ double, r ≠ .quote double)
    (position : Position) : role (tokenAt "PUNCT" (String.singleton c) position) = some r :=
  role_of_fits (fits_of_text (regular_of_punctuation rfl) mem value.symm) notQuote

/-- **What the lexer makes of a name or a number are links.** -/
theorem links_of_chain (isCore : core ∈ [Role.name, .number])
    (h : Chain core.kind core.markChars cs) (position : Position) :
    Links core (Profile.standalone.tokensFrom position cs) := by
  have types : ∀ core ∈ [Role.name, .number], core.kind.tokenType = core.terminal.value ∧
      Profile.standalone.continues core.kind '.' = false := by
    decide
  have marks : ∀ core ∈ [Role.name, .number], ∀ c ∈ core.markChars,
      Profile.standalone.opens? c = none ∧ Profile.standalone.punctuation c = true ∧
      ∃ r ∈ core.marks, r ∈ Role.spelled ∧ r.terminal.value = String.singleton c ∧
        (∀ double, r ≠ .quote double) ∧ (r = .minus → c = '-') := by
    decide
  obtain ⟨type, dot⟩ := types core isCore
  induction h generalizing position with
  | @run cs chars =>
      have lexed := @Profile.tokensFrom_run _ _ cs [] chars nofun position
      rw [List.append_nil] at lexed
      rw [lexed]
      exact .last type
  | @mark c cs isMark apart inner ih =>
      obtain ⟨closed, punctuation, r, mem, isSpelled, value, notQuote, minus⟩ :=
        marks core isCore c isMark
      rw [Profile.tokensFrom_punctuation closed punctuation]
      refine .mark (role_punctuation isSpelled value notQuote position) mem (fun isMinus => ?_)
        (ih _)
      -- a minus that is next would be the first character behind this one
      refine Bool.eq_false_iff.mpr fun isNext => apart (minus isMinus) ?_
      obtain ⟨t, rest, lexed, isHere⟩ := exists_of_next isNext
      have raw : Profile.standalone.Fits t :=
        Profile.fits_of_mem_tokensFrom (by rw [lexed]; exact List.mem_cons_self)
      have text := text_of_fits (regular_of_fits raw) (spelled_of_fits raw).kept (by decide) isHere
      rw [← chars_tokensFrom (fun c mem => (inner.kept isCore c mem).1) (position.advance c), lexed,
        chars_cons, text]
      rfl
  | @step cs ds chars inner ih =>
      rw [Profile.tokensFrom_run chars (fun c same => by cases same; exact dot),
        Profile.tokensFrom_punctuation (by decide) (by decide)]
      have isDot : ∀ position, role (tokenAt "PUNCT" (String.singleton '.') position) =
          some .dot :=
        @role_punctuation '.' .dot (by decide) rfl nofun
      exact .step type (isDot _) (ih _)

end Texts

/-! ### Pieces -/

/-- The words that are no blanks. -/
def solidKeys (vs : List (String × String)) : List (String × String) :=
  vs.filter fun v => v.1 ∉ Token.blankTypes

/-- **A text that is read as some words**, wherever it stands; it neither begins nor
ends with a blank. -/
structure Piece (vs : List (String × String)) (cs : List Char) : Prop where
  layout : ∀ position, ∃ us, Layout us (Profile.standalone.tokensFrom position cs) ∧
    solidKeys us = vs
  filled : cs ≠ []
  starts : ∀ c, cs.head? = some c → Text.isBlank c = false
  ends : ∀ c, cs.getLast? = some c → Text.isBlank c = false

/-- **A source that is a piece is read as its words.** -/
theorem tokenize_of_piece {source : String} {vs : List (String × String)}
    (h : Piece vs source.toList) :
    ∃ tokens, (language.tokenize source false).outcome = .ok tokens ∧ tokens.map key = vs := by
  obtain ⟨us, layout, same⟩ := h.layout .start
  obtain ⟨tokens, tokenized, keys⟩ := tokenize_of_layout layout
  exact ⟨tokens, tokenized, keys.trans same⟩

section Pieces

variable {vs ws : List (String × String)} {cs ds : List Char} {core : Role}

/-- Behind a text without a blank at its end a separator starts afresh. -/
theorem tokensFrom_separator {c : Char} (mem : c ∈ [' ', ','])
    (ends : ∀ d, cs.getLast? = some d → Text.isBlank d = false) (position : Position) :
    Profile.standalone.tokensFrom position (cs ++ c :: ds) =
      Profile.standalone.tokensFrom position cs ++
        Profile.standalone.tokensFrom (Profile.standalone.stateAfter none position cs).2
          (c :: ds) := by
  have fresh : ∀ c ∈ [' ', ','], ∀ kind ∈ [RunKind.word, .number],
      Profile.standalone.continues kind c = false := by
    decide
  refine Profile.standalone.tokensFrom_append (fun d kind isLast belongs => ?_) position
  cases kind with
  | blank =>
      have blank : Text.isBlank d = true := belongs.elim id id
      rw [ends d isLast] at blank
      cases blank
  | word => exact fresh c mem .word (by decide)
  | number => exact fresh c mem .number (by decide)

/-- **Pieces with a separator between them.** -/
theorem Piece.separated {c : Char} {type : String} (mem : c ∈ [' ', ','])
    (lone : role ⟨type, String.singleton c, 0, 0⟩ = none)
    (lexed : ∀ position, ∃ position', Profile.standalone.tokensFrom position (c :: ds) =
      tokenAt type (String.singleton c) position ::
        Profile.standalone.tokensFrom position' ds)
    (first : Piece vs cs) (second : Piece ws ds) :
    Piece (vs ++ solidKeys [(type, String.singleton c)] ++ ws) (cs ++ c :: ds) where
  layout := by
    intro position
    obtain ⟨us, layout, same⟩ := first.layout position
    obtain ⟨behind, separator⟩ := lexed (Profile.standalone.stateAfter none position cs).2
    obtain ⟨us', layout', same'⟩ := second.layout behind
    refine ⟨us ++ (type, String.singleton c) :: us', ?_, ?_⟩
    · have alone : ∀ position, role (tokenAt type (String.singleton c) position) = none :=
        fun _ => lone
      rw [tokensFrom_separator mem first.ends, separator]
      exact layout.append (gap_cons (alone _) _) (.solo (alone _) layout')
    · rw [← same, ← same', solidKeys, solidKeys, solidKeys, solidKeys, List.filter_append,
        List.filter_cons, List.filter_cons, List.append_assoc]
      split <;> rfl
  filled := List.append_ne_nil_of_left_ne_nil first.filled _
  starts := by
    intro d head
    rw [List.head?_append_of_ne_nil _ first.filled] at head
    exact first.starts d head
  ends := by
    intro d last
    obtain ⟨e, es, rfl⟩ := List.exists_cons_of_ne_nil second.filled
    rw [List.getLast?_append_of_ne_nil _ (List.cons_ne_nil _ _), List.getLast?_cons_cons] at last
    exact second.ends d last

/-- A blank between two pieces. -/
theorem Piece.space (first : Piece vs cs) (second : Piece ws ds) :
    Piece (vs ++ ws) (cs ++ ' ' :: ds) := by
  have lone : role ⟨"WS", String.singleton ' ', 0, 0⟩ = none := by decide
  have chars : Profile.standalone.RunChars .blank [' '] := ⟨' ', [], rfl, by decide, nofun⟩
  have whole := Piece.separated (by decide) lone
    (fun position => ⟨_, Profile.tokensFrom_run chars second.starts position⟩) first second
  rwa [show solidKeys [("WS", String.singleton ' ')] = [] by decide, List.append_nil] at whole

/-- A comma between two pieces. -/
theorem Piece.comma (first : Piece vs cs) (second : Piece ws ds) :
    Piece (vs ++ ("PUNCT", ",") :: ws) (cs ++ ',' :: ds) := by
  have lone : role ⟨"PUNCT", String.singleton ',', 0, 0⟩ = none := by decide
  have whole := Piece.separated (by decide) lone
    (fun position => ⟨_, Profile.tokensFrom_punctuation (by decide) (by decide) position ds⟩)
    first second
  rwa [show solidKeys [("PUNCT", String.singleton ',')] = [("PUNCT", ",")] by decide,
    List.append_assoc] at whole

/-- A part that folds into one word. -/
theorem piece_of_folds {v : String × String} (solid : v.1 ∉ Token.blankTypes)
    (folds : ∀ position, Folds v (Profile.standalone.tokensFrom position cs)) (filled : cs ≠ [])
    (starts : ∀ c, cs.head? = some c → Text.isBlank c = false)
    (ends : ∀ c, cs.getLast? = some c → Text.isBlank c = false) : Piece [v] cs where
  layout := fun position => ⟨[v], (folds position).layout, by simp [solidKeys, solid]⟩
  filled := filled
  starts := starts
  ends := ends

/-- **A name or a number is a piece.** -/
theorem piece_chain (isCore : core ∈ [Role.name, .number])
    (h : Chain core.kind core.markChars cs) :
    Piece [(core.terminal.value, String.ofList cs)] cs := by
  have solid : ∀ core ∈ [Role.name, .number], core.terminal.value ∉ Token.blankTypes := by decide
  have kept := h.kept isCore
  refine piece_of_folds (solid core isCore) (fun position => ?_) h.ne_nil
    (fun c head => (kept c (List.mem_of_mem_head? head)).2)
    (fun c last => (kept c (List.mem_of_getLast? last)).2)
  have folds := (links_of_chain isCore h position).folds isCore
  rwa [chars_tokensFrom (fun c mem => (kept c mem).1)] at folds

theorem piece_name (h : NameChars cs) : Piece [("IDENT", String.ofList cs)] cs :=
  piece_chain (by decide : Role.name ∈ [Role.name, .number]) h

theorem piece_number (h : NumberChars cs) : Piece [("NUMLIT", String.ofList cs)] cs :=
  piece_chain (by decide : Role.number ∈ [Role.name, .number]) h

/-- **A string is a piece.** -/
theorem piece_string {double : Bool} (kept : ∀ c ∈ quoteChar double :: cs, isKept c = true)
    (closes : Closes (quoteChar double) cs) :
    Piece [(stringType double, String.ofList (quoteChar double :: cs))] (quoteChar double :: cs) := by
  have solid : ∀ double, stringType double ∉ Token.blankTypes := by decide
  have notBlank : ∀ double, Text.isBlank (quoteChar double) = false := by decide
  refine piece_of_folds (solid double) (fun position => ?_) (List.cons_ne_nil _ _) ?_ ?_
  · exact folds_string (fun t mem => Profile.fits_of_mem_tokensFrom mem)
      (chars_tokensFrom kept position) closes
  · intro c head
    cases head
    exact notBlank double
  · intro c last
    rw [List.getLast?_cons, closes.getLast?_eq] at last
    cases last
    exact notBlank double

/-- The punctuation of clauses that no word takes. -/
def brackets : List Char :=
  ['(', ')', ',']

/-- The comparison characters, each with its role. -/
def comparisons : List (Char × Role) :=
  [('<', .less), ('=', .equal), ('>', .greater)]

/-- The texts of punctuation in clauses. -/
def punctuationTexts : List String :=
  ["(", ")", ",", "<=", "<>", ">=", "=", "<", ">"]

theorem piece_bracket {c : Char} (mem : c ∈ brackets) :
    Piece [("PUNCT", String.singleton c)] [c] := by
  have each : ∀ c ∈ brackets, Profile.standalone.opens? c = none ∧
      Profile.standalone.punctuation c = true ∧ Text.isBlank c = false ∧
      role ⟨"PUNCT", String.singleton c, 0, 0⟩ = none := by
    decide
  obtain ⟨closed, punctuation, notBlank, lone⟩ := each c mem
  refine ⟨fun position => ⟨[("PUNCT", String.singleton c)], ?_, rfl⟩, List.cons_ne_nil _ _, ?_, ?_⟩
  · have alone : role (tokenAt "PUNCT" (String.singleton c) position) = none := lone
    rw [Profile.tokensFrom_punctuation closed punctuation]
    exact .solo alone .nil
  · simpa using notBlank
  · simpa using notBlank

/-- What is known of comparison characters. -/
theorem comparisons_spec : ∀ c ∈ comparisons, Profile.standalone.opens? c.1 = none ∧
    Profile.standalone.punctuation c.1 = true ∧ Text.isBlank c.1 = false ∧
    role ⟨"PUNCT", String.singleton c.1, 0, 0⟩ = some c.2 ∧
    c.2 ∈ [Role.less, .equal, .greater] := by
  decide

theorem piece_comparison {c : Char × Role} (mem : c ∈ comparisons) :
    Piece [("PUNCT", String.singleton c.1)] [c.1] := by
  obtain ⟨closed, punctuation, notBlank, hr, isComparison⟩ := comparisons_spec c mem
  refine piece_of_folds (by decide : "PUNCT" ∉ Token.blankTypes) (fun position => ?_)
    (List.cons_ne_nil _ _) (by simpa using notBlank) (by simpa using notBlank)
  rw [Profile.tokensFrom_punctuation closed punctuation]
  exact @folds_comparison (tokenAt "PUNCT" (String.singleton c.1) position) _ hr isComparison

theorem piece_pair {c d : Char × Role} (mem : c ∈ comparisons) (mem' : d ∈ comparisons)
    (first : c.2 ∈ [Role.less, .greater]) (partner : d.2 ∈ c.2.partners)
    (lone : role ⟨"PUNCT", String.singleton c.1 ++ String.singleton d.1, 0, 0⟩ = none) :
    Piece [("PUNCT", String.singleton c.1 ++ String.singleton d.1)] [c.1, d.1] := by
  obtain ⟨closed, punctuation, notBlank, hr, -⟩ := comparisons_spec c mem
  obtain ⟨closed', punctuation', notBlank', hr', -⟩ := comparisons_spec d mem'
  refine piece_of_folds (by decide : "PUNCT" ∉ Token.blankTypes) (fun position => ?_)
    (List.cons_ne_nil _ _) (by simpa using notBlank) (by simpa using notBlank')
  rw [Profile.tokensFrom_punctuation closed punctuation,
    Profile.tokensFrom_punctuation closed' punctuation']
  refine @folds_pair (tokenAt "PUNCT" (String.singleton c.1) position)
    (tokenAt "PUNCT" (String.singleton d.1) (position.advance c.1)) _ _ hr first partner hr' ?_
  simpa [fold, Token.join, tokenAt, role_mk] using lone

/-- **An operator is a piece.** -/
theorem piece_operator {text : String} (mem : text ∈ punctuationTexts) :
    Piece [("PUNCT", text)] text.toList := by
  have texts : ∀ text ∈ punctuationTexts,
      (∃ c ∈ brackets, text = String.singleton c) ∨
      (∃ c ∈ comparisons, text = String.singleton c.1) ∨
      ∃ c ∈ comparisons, ∃ d ∈ comparisons, c.2 ∈ [Role.less, .greater] ∧ d.2 ∈ c.2.partners ∧
        text = String.singleton c.1 ++ String.singleton d.1 ∧ role ⟨"PUNCT", text, 0, 0⟩ = none := by
    decide
  rcases texts text mem with ⟨c, isBracket, rfl⟩ | ⟨c, isComparison, rfl⟩ |
    ⟨c, isComparison, d, isComparison', first, partner, rfl, lone⟩
  · rw [String.toList_singleton]
    exact piece_bracket isBracket
  · rw [String.toList_singleton]
    exact piece_comparison isComparison
  · rw [String.toList_append, String.toList_singleton, String.toList_singleton]
    exact piece_pair isComparison isComparison' first partner lone

/-- **Every word of a clause is a piece.** -/
theorem piece_of_spelled {t : Token} (spelled : Spelled t) (solid : t.type ∉ Token.blankTypes)
    (unmarked : ∀ double, t.type ≠ quoteType double)
    (operator : t.type = "PUNCT" → t.text ∈ punctuationTexts) :
    Piece [key t] t.text.toList := by
  obtain ⟨type, text, line, column⟩ := t
  obtain ⟨kept, -, spelling⟩ := spelled
  show Piece [(type, text)] text.toList
  obtain ⟨cs, rfl⟩ : ∃ cs, text = String.ofList cs := ⟨text.toList, text.ofList_toList.symm⟩
  rw [String.toList_ofList] at kept spelling ⊢
  cases spelling with
  | name chars => exact piece_name chars
  | number chars => exact piece_number chars
  | string closes => exact piece_string kept closes
  | punctuation _ =>
      have piece := piece_operator (operator rfl)
      rwa [String.toList_ofList] at piece
  | mark double => exact (unmarked double rfl).elim
  | blank isBlank => exact (solid isBlank).elim

end Pieces

end GrammarKit.Query
