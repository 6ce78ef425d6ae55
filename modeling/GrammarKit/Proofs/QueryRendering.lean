import GrammarKit.Proofs.Numerals
import GrammarKit.Proofs.QueryClauses
import GrammarKit.Proofs.QueryPieces

/-!
# Clauses are found again in their texts

Written down anew, a clause is read as words that no terminal can tell from its
own: the keyword may have had another case, and a limit another spelling, and all
other words are the same.

## Main Definitions

* `Query.Finished` — a word that is left when all passes are done
* `Query.Anew` — a text that is read as the words of a clause

## Main Statements

* `Query.mayBegin_image` — the first character of a word tells something of its type
* `Query.piece_of_accepted` — every word that a terminal of clauses accepts is a piece
* `Query.anew_clause`, `Query.anew_limit` — clauses written down anew

## Design Notes

Terminals look at texts without regard to types, so a keyword might be a string or
a number by its type, and a number a keyword by its text.  The first characters
rule this out.
-/

namespace GrammarKit

/-! ### The terminals of a grammar -/

/-- The terminal that an element is, if it is one. -/
def Element.terminal? : Element → Option Terminal
  | .reference _ _ _ => none
  | .terminal t _ => some t

/-- All terminals of a grammar. -/
def Grammar.terminals (g : Grammar) : List Terminal :=
  g.rules.flatMap fun r => r.alternatives.flatMap fun production =>
    production.filterMap Element.terminal?

theorem Grammar.Uses.mem_terminals {g : Grammar} {t : Terminal} {marked : Bool}
    (h : g.Uses (.terminal t marked)) : t ∈ g.terminals := by
  obtain ⟨r, isRule, production, isAlternative, mem⟩ := h
  exact List.mem_flatMap.mpr ⟨r, isRule, List.mem_flatMap.mpr ⟨production, isAlternative,
    List.mem_filterMap.mpr ⟨_, mem, rfl⟩⟩⟩

namespace Query

open GrammarKit.Parser

/-! ### Finished words -/

/-- The types of finished words. -/
def finishedTypes : List String :=
  ["IDENT", "NUMLIT", "PUNCT", "STRLIT-DQ", "STRLIT-SQ"]

/-- **A word that is left when all passes are done.** -/
structure Finished (t : Token) : Prop where
  regular : Regular t
  spelled : Spelled t
  typed : t.type ∈ finishedTypes

/-- Whether a word of a type may begin with a character. -/
def mayBegin (type : String) (c : Char) : Bool :=
  if type = "IDENT" then Profile.isWordLetter c || c == ':'
  else if type = "NUMLIT" then Profile.isDigit c || c == '+' || c == '-'
  else if type = "PUNCT" then !isWordChar c
  else c == '"' || c == '\x27'

section Heads

variable {t : Token}

/-- What a chain begins with. -/
theorem Chain.head {kind : Profile.RunKind} {marks cs : List Char} {c : Char}
    (h : Chain kind marks (c :: cs)) : Profile.standalone.opens? c = some kind ∨ c ∈ marks := by
  generalize same : c :: cs = text at h
  cases h with
  | run chars =>
      obtain ⟨d, rest, rfl, opens, -⟩ := chars
      cases same
      exact Or.inl opens
  | mark isMark _ _ =>
      cases same
      exact Or.inr isMark
  | step chars _ =>
      obtain ⟨d, rest, rfl, opens, -⟩ := chars
      cases same
      exact Or.inl opens

/-- The first character of a text. -/
theorem mayBegin_of_spelling {type : String} {c : Char} {cs : List Char}
    (typed : type ∈ finishedTypes) (h : Spelling type (c :: cs)) : mayBegin type c = true := by
  generalize same : c :: cs = text at h
  cases h with
  | name chars =>
      subst same
      rcases Chain.head chars with opens | isMark
      · have starts : Profile.isWordLetter c = true := Profile.starts_of_opens? opens
        simp [mayBegin, starts]
      · simp [mayBegin, List.mem_singleton.mp isMark]
  | number chars =>
      subst same
      have marks : ∀ c ∈ ['+', '-'], mayBegin "NUMLIT" c = true := by decide
      rcases Chain.head chars with opens | isMark
      · have starts : Profile.isDigit c = true := Profile.starts_of_opens? opens
        simp [mayBegin, starts]
      · exact marks c isMark
  | @string double _ closes =>
      have quotes : ∀ double, mayBegin (stringType double) (quoteChar double) = true := by decide
      cases same
      exact quotes double
  | punctuation closed =>
      subst same
      simp [mayBegin, isWordChar_of_closed (closed c List.mem_cons_self)]
  | mark double =>
      have unfinished : ∀ double, quoteType double ∉ finishedTypes := by decide
      exact (unfinished double typed).elim
  | blank isBlank =>
      have solid : ∀ type ∈ finishedTypes, type ∉ Token.blankTypes := by decide
      exact (solid type typed isBlank).elim

/-- In upper case, a word begins with a character of the same sort. -/
theorem mayBegin_upper {type : String} {c d : Char} (typed : type ∈ finishedTypes)
    (kept : isKept c = true) (upper : Text.upperChar c = [d]) (h : mayBegin type c = true) :
    mayBegin type d = true := by
  have small : ∀ type ∈ finishedTypes, ∀ n : Fin 128, mayBegin type (Char.ofNat n) = true →
      mayBegin type (Char.ofNat n).toUpper = true := by
    decide
  -- only letters have a case, and all letters are ASCII
  by_cases isWord : isWordChar c = true
  · have ascii := toNat_lt_of_isWordChar isWord
    have same := small type typed ⟨c.toNat, ascii⟩
    rw [Text.upperChar_of_ascii ascii] at upper
    cases upper
    simp only [Char.ofNat_toNat] at same
    exact same h
  · obtain ⟨e, upper', -, plain⟩ := upperChar_of_isKept kept
    rw [upper] at upper'
    cases upper'
    rwa [plain (Bool.eq_false_iff.mpr isWord)]

/-- **The first character of a word tells something of its type**, also in upper case. -/
theorem mayBegin_image (finished : Finished t) :
    (image t).head?.any (mayBegin t.type) = true := by
  obtain ⟨-, ⟨kept, filled, spelling⟩, typed⟩ := finished
  obtain ⟨c, cs, chars⟩ := List.exists_cons_of_ne_nil filled
  rw [chars] at kept spelling
  have keptHere := kept c List.mem_cons_self
  obtain ⟨d, upper, -, -⟩ := upperChar_of_isKept keptHere
  have begins := mayBegin_upper typed keptHere upper (mayBegin_of_spelling typed spelling)
  rw [image, Text.toList_upper, chars, List.flatMap_cons, upper]
  exact begins

end Heads

/-! ### What terminals accept -/

section Accepted

variable {t : Token} {x : Terminal}

/-- A literal fixes the upper case of a text. -/
theorem image_of_literal {text : String} (h : (Terminal.literal text).accepts t = true) :
    image t = (Text.upper text).toList :=
  congrArg String.toList (beq_iff_eq.mp h)

/-- A literal begins like the word it accepts. -/
theorem mayBegin_of_literal {text : String} (finished : Finished t)
    (h : (Terminal.literal text).accepts t = true) :
    (Text.upper text).toList.head?.any (mayBegin t.type) = true := by
  rw [← image_of_literal h]
  exact mayBegin_image finished

/-- Punctuation has no case. -/
theorem image_of_punctuation (finished : Finished t) (isPunctuation : t.type = "PUNCT") :
    image t = t.text.toList := by
  rw [image, Text.toList_upper]
  refine flatMap_upperChar finished.spelled.kept (Or.inr fun c mem => ?_)
  exact isWordChar_of_closed (finished.spelled.spelling.inv.2.2 isPunctuation c mem)

/-- The terminals of clauses are literals and types. -/
theorem terminals_cases (mem : x ∈ clauseGrammar.terminals) :
    x = Terminal.literal x.value ∨ x = Terminal.ofType x.value ∧ x.value ∈ passTypes := by
  have each : ∀ x ∈ clauseGrammar.terminals,
      x = Terminal.literal x.value ∨ x = Terminal.ofType x.value ∧ x.value ∈ passTypes := by
    decide
  exact each x mem

/-- **A keyword is a name.** -/
theorem type_of_keyword {kind : ClauseKind} (mem : kind ∈ ClauseKind.all) (finished : Finished t)
    (h : (Terminal.literal kind.keyword).accepts t = true) : t.type = "IDENT" := by
  have each : ∀ kind ∈ ClauseKind.all, ∀ type ∈ finishedTypes,
      (Text.upper kind.keyword).toList.head?.any (mayBegin type) = true → type = "IDENT" := by
    decide
  exact each kind mem t.type finished.typed (mayBegin_of_literal finished h)

/-- **A comma is punctuation.** -/
theorem key_of_comma (finished : Finished t) (h : (Terminal.literal ",").accepts t = true) :
    key t = ("PUNCT", ",") := by
  have each : ∀ type ∈ finishedTypes,
      (Text.upper ",").toList.head?.any (mayBegin type) = true → type = "PUNCT" := by
    decide
  have isPunctuation := each t.type finished.typed (mayBegin_of_literal finished h)
  have text := image_of_literal h
  rw [image_of_punctuation finished isPunctuation, String.toList_inj] at text
  exact Prod.ext isPunctuation text

/-- **Punctuation that a terminal of clauses accepts** is one of its brackets and operators. -/
theorem text_of_punctuation (finished : Finished t) (isPunctuation : t.type = "PUNCT")
    (mem : x ∈ clauseGrammar.terminals) (h : x.accepts t = true) : t.text ∈ punctuationTexts := by
  have literals : ∀ x ∈ clauseGrammar.terminals, x = Terminal.literal x.value →
      (∀ c ∈ (Text.upper x.value).toList, isWordChar c = false) →
      Text.upper x.value ∈ punctuationTexts := by
    decide
  have types : ∀ x ∈ clauseGrammar.terminals, x = Terminal.ofType x.value → x.value ≠ "PUNCT" := by
    decide
  have image := image_of_punctuation finished isPunctuation
  rcases terminals_cases mem with isLiteral | ⟨isType, known⟩
  · rw [isLiteral] at h
    have text := image_of_literal h
    rw [image, String.toList_inj] at text
    rw [text]
    refine literals x mem isLiteral fun c inside => ?_
    rw [← text] at inside
    exact isWordChar_of_closed (finished.spelled.spelling.inv.2.2 isPunctuation c inside)
  · rw [isType, accepts_type_iff finished.regular.typed known] at h
    exact (types x mem isType (h.symm.trans isPunctuation)).elim

/-- **Every word that a terminal of clauses accepts is a piece.** -/
theorem piece_of_accepted (finished : Finished t) (mem : x ∈ clauseGrammar.terminals)
    (h : x.accepts t = true) : Piece [key t] t.text.toList := by
  have types : ∀ type ∈ finishedTypes, type ∉ Token.blankTypes ∧
      ∀ double, type ≠ quoteType double := by
    decide
  obtain ⟨solid, unmarked⟩ := types t.type finished.typed
  exact piece_of_spelled finished.spelled solid unmarked
    fun isPunctuation => text_of_punctuation finished isPunctuation mem h

end Accepted

/-! ### Words that take the place of others -/

section Alike

variable {a b : Token}

/-- Case does not matter. -/
theorem alike_of_upper (g : Grammar) (type : a.type = b.type)
    (text : Text.upper a.text = Text.upper b.text) : Alike g a b := by
  intro x _ _
  cases kind : x.kind with
  | literal => simp [Terminal.accepts, Terminal.valueOf, kind, text]
  | tokenType => simp [Terminal.accepts, Terminal.valueOf, kind, type]

/-- **All numbers are alike**: no literal of the clauses is one. -/
theorem alike_numbers (finished : Finished a) (finished' : Finished b) (type : a.type = "NUMLIT")
    (type' : b.type = "NUMLIT") : Alike clauseGrammar a b := by
  have literals : ∀ x ∈ clauseGrammar.terminals, x = Terminal.literal x.value →
      (Text.upper x.value).toList.head?.any (mayBegin "NUMLIT") = false := by
    decide
  intro x marked used
  rcases terminals_cases used.mem_terminals with isLiteral | ⟨isType, -⟩
  · -- a literal that is the text of a number would begin like one
    have never : ∀ t, Finished t → t.type = "NUMLIT" → x.accepts t = false := by
      intro t finished isNumber
      refine Bool.eq_false_iff.mpr fun accepted => ?_
      rw [isLiteral] at accepted
      have begins := mayBegin_of_literal finished accepted
      rw [isNumber, literals x used.mem_terminals isLiteral] at begins
      cases begins
    rw [never a finished type, never b finished' type']
  · rw [isType]
    simp [Terminal.accepts, Terminal.valueOf, Terminal.ofType, type, type']

/-- Whether words with a type and a text can take the place of a token. -/
def Replaces (t : Token) (v : String × String) : Prop :=
  ∀ t', Finished t' → key t' = v → Alike clauseGrammar t t'

theorem replaces_key (t : Token) : Replaces t (key t) := by
  intro t' _ same
  obtain ⟨type, text⟩ := Prod.mk.inj same
  exact alike_of_upper _ type.symm (by rw [text])

/-- Finished words in the places of others. -/
theorem alike_of_replaces {tokens tokens' : List Token} (finished : ∀ t ∈ tokens', Finished t)
    (h : List.Forall₂ Replaces tokens (tokens'.map key)) :
    List.Forall₂ (Alike clauseGrammar) tokens tokens' := by
  rw [List.forall₂_map_right_iff] at h
  induction h with
  | nil => exact .nil
  | cons replaces _ ih =>
      obtain ⟨first, others⟩ := List.forall_mem_cons.mp finished
      exact .cons (replaces _ first rfl) (ih others)

end Alike

/-! ### The parts of clauses -/

section Parts

variable {body : List Tree}

/-- **Texts with blanks between them.** -/
theorem piece_spaced : ∀ {ws : List (String × List (String × String))}, ws ≠ [] →
    (∀ w ∈ ws, Piece w.2 w.1.toList) →
    Piece (ws.flatMap Prod.snd) (" ".intercalate (ws.map Prod.fst)).toList
  | [], filled, _ => (filled rfl).elim
  | [w], _, pieces => by simpa using pieces w List.mem_cons_self
  | w :: v :: rest, _, pieces => by
      obtain ⟨first, others⟩ := List.forall_mem_cons.mp pieces
      have whole := first.space (piece_spaced (List.cons_ne_nil v rest) others)
      rw [List.flatMap_cons, List.map_cons, List.map_cons, String.intercalate_cons_cons,
        String.toList_append, String.toList_append, List.append_assoc]
      exact whole

/-- A rule that is a single terminal. -/
theorem single_of_builds {name : String} {x : Terminal}
    (declared : (clauseGrammar.rule? name).map Rule.alternatives = some [[.one x]])
    (h : Builds clauseGrammar (.rule name) body) :
    ∃ t, body = [.leaf t] ∧ x.accepts t = true := by
  obtain ⟨t, us, rfl, accepted, nothing⟩ := (h.of_only declared).of_terminal
  rw [nothing.of_nil]
  exact ⟨t, rfl, accepted⟩

/-- A part of a single name. -/
theorem piece_word {name : String}
    (declared : (clauseGrammar.rule? name).map Rule.alternatives = some [[word]])
    (finished : ∀ t ∈ Tree.tokensIn body, Finished t) (h : Builds clauseGrammar (.rule name) body) :
    Piece ((Tree.tokensIn body).map key) (chars (Tree.tokensIn body)) := by
  have used : Terminal.ofType Token.wordType ∈ clauseGrammar.terminals := by decide
  obtain ⟨t, rfl, accepted⟩ := single_of_builds declared h
  have piece := piece_of_accepted (finished t (by simp [Tree.tokensIn, Tree.tokens])) used accepted
  simpa [Tree.tokensIn, Tree.tokens] using piece

/-- A comma and a column. -/
theorem piece_round {vs : List (String × String)} {cs : List Char} (first : Piece vs cs)
    (finished : ∀ t ∈ Tree.tokensIn body, Finished t)
    (h : Builds clauseGrammar (.rule "key-list-rest") body) :
    Piece (vs ++ (Tree.tokensIn body).map key) (cs ++ chars (Tree.tokensIn body)) := by
  have declared : (clauseGrammar.rule? "key-list-rest").map Rule.alternatives =
      some [[.literal ",", .rule "column-name"]] := by
    decide
  obtain ⟨comma, us, rfl, accepted, others⟩ := (h.of_only declared).of_terminal
  obtain ⟨inner, vs', rfl, column, nothing⟩ := others.of_reference
  obtain rfl := nothing.of_nil
  simp only [Tree.tokensIn, Tree.tokens, List.append_nil, List.singleton_append,
    List.forall_mem_cons] at finished ⊢
  have isComma := key_of_comma finished.1 accepted
  have text : comma.text = "," := congrArg Prod.snd isComma
  have whole := first.comma (piece_word (by decide) finished.2 column)
  rw [List.map_cons, chars_cons, isComma, text]
  exact whole

/-- **The columns of a query**: names with commas between them. -/
theorem piece_columns (finished : ∀ t ∈ Tree.tokensIn body, Finished t)
    (h : Builds clauseGrammar (.rule "key-list") body) :
    Piece ((Tree.tokensIn body).map key) (chars (Tree.tokensIn body)) := by
  have declared : (clauseGrammar.rule? "key-list").map Rule.alternatives =
      some [[.rule "column-name", .many "key-list-rest"]] := by
    decide
  obtain ⟨inner, us, rfl, column, others⟩ := (h.of_only declared).of_reference
  obtain ⟨rounds, rfl, built⟩ := others.of_many.of_repeated
  simp only [Tree.tokensIn, Tree.tokens, List.forall_mem_append] at finished ⊢
  have first := piece_word (by decide) finished.1 column
  rw [List.map_append, chars_append]
  generalize (Tree.tokensIn inner).map key = vs at first ⊢
  generalize chars (Tree.tokensIn inner) = cs at first ⊢
  -- one more column behind those that are there
  have further := finished.2
  clear finished others h
  induction rounds generalizing vs cs with
  | nil => simpa [Tree.tokensIn] using first
  | cons round rounds ih =>
      simp only [List.map_cons, Tree.tokensIn, Tree.tokens, List.forall_mem_append,
        List.forall_mem_cons] at further built ⊢
      rw [List.map_append, chars_append, ← List.append_assoc, ← List.append_assoc]
      exact ih built.2 _ _ (piece_round first further.1 built.1) further.2

/-- **A condition**: words with blanks between them. -/
theorem piece_condition (finished : ∀ t ∈ Tree.tokensIn body, Finished t)
    (h : Builds clauseGrammar (.rule "condition-expression") body) :
    Piece ((Tree.tokensIn body).map key)
      (" ".intercalate ((Tree.tokensIn body).map Token.text)).toList := by
  have solid : "condition-expression" ∉ clauseGrammar.nullable := by decide
  have filled : Tree.tokensIn body ≠ [] := fun empty => solid (h.nullable empty)
  have pieces : ∀ w ∈ (Tree.tokensIn body).map fun t => (t.text, [key t]),
      Piece w.2 w.1.toList := by
    intro w mem
    obtain ⟨t, isWord, rfl⟩ := List.mem_map.mp mem
    obtain ⟨x, marked, used, accepted⟩ := h.accepted t isWord
    exact piece_of_accepted (finished t isWord) used.mem_terminals accepted
  have whole := piece_spaced (fun empty => filled (List.map_eq_nil_iff.mp empty)) pieces
  rw [List.flatMap_map, List.map_map] at whole
  rw [List.map_eq_flatMap]
  exact whole

end Parts

/-! ### Numbers -/

/-- Decimal digits are a number. -/
theorem runChars_toDigits (n : Nat) : Profile.standalone.RunChars .number (Nat.toDigits 10 n) := by
  have digits : ∀ c ∈ Numeral.digitChars, Profile.standalone.opens? c = some .number ∧
      Profile.standalone.continues .number c = true := by
    decide
  have each := Numeral.toDigits_digitChars n
  obtain ⟨c, rest, same⟩ := List.exists_cons_of_ne_nil (@Nat.toDigits_ne_nil n 10)
  rw [same] at each ⊢
  obtain ⟨first, others⟩ := List.forall_mem_cons.mp each
  exact ⟨c, rest, rfl, (digits c first).1, fun d mem => (digits d (others d mem)).2⟩

/-- **The decimal text of an integer is that of a number.** -/
theorem numberChars_toString (n : Int) : NumberChars (toString n).toList := by
  cases n with
  | ofNat m =>
      rw [Numeral.toList_toString_ofNat]
      exact .run (runChars_toDigits m)
  | negSucc m =>
      rw [Numeral.toList_toString_negSucc]
      refine .mark (by decide) (fun _ head => ?_) (.run (runChars_toDigits (m + 1)))
      have isDigit := Numeral.toDigits_digitChars (m + 1) '-' (List.mem_of_mem_head? head)
      exact absurd isDigit (by decide)

/-! ### Clauses -/

/-- What stands between the words of a part. -/
def ClauseKind.separator (kind : ClauseKind) : String :=
  if kind.part = "condition-expression" then " " else ""

/-- **A clause written down anew**: its text is read as words that can take the places
of those of the clause, and a clause of these words agrees with it. -/
structure Anew (c : Clause) (text : String) (vs : List (String × String)) : Prop where
  piece : Piece vs text.toList
  replaces : List.Forall₂ Replaces c.tokens vs
  agrees : ∀ c' : Clause, c.name = c'.name → c'.tokens.map key = vs → c.Agrees c'

section Clauses

variable {c : Clause} {kind : ClauseKind}

/-- The text of a part is told by the types and texts of its words. -/
theorem text_of_keys {v : String × String} {vs : List (String × String)}
    (h : c.tokens.map key = v :: vs) (separator : String) :
    c.text separator = separator.intercalate (vs.map Prod.snd) := by
  obtain ⟨-, same⟩ := List.cons.inj h
  rw [Clause.text, ← same, List.map_map]
  rfl

/-- Without a separator, the text of a part is all its characters. -/
theorem toList_text (c : Clause) : (c.text "").toList = chars (Tree.tokensIn c.body) := by
  rw [Clause.text, String.toList_intercalate, List.map_map]
  generalize Tree.tokensIn c.body = tokens
  induction tokens with
  | nil => rfl
  | cons t rest ih =>
      rw [chars_cons, ← ih]
      cases rest with
      | nil => simp
      | cons u rest => simp [List.intercalate_cons_cons]

/-- **The part of a clause is a piece.** -/
theorem piece_part (mem : kind ∈ ClauseKind.all) (notLimit : kind ≠ .limit) (isA : c.IsA kind)
    (finished : ∀ t ∈ c.tokens, Finished t) :
    Piece ((Tree.tokensIn c.body).map key) (c.text kind.separator).toList := by
  have built := isA.body
  obtain ⟨-, finished⟩ := List.forall_mem_cons.mp finished
  simp only [ClauseKind.all, List.mem_cons, List.not_mem_nil, or_false] at mem
  rcases mem with rfl | rfl | rfl | rfl | rfl
  · show Piece _ (c.text "").toList
    rw [toList_text]
    exact piece_columns finished built
  · show Piece _ (c.text "").toList
    rw [toList_text]
    exact piece_word (by decide) finished built
  · exact piece_condition finished built
  · exact piece_condition finished built
  · exact (notLimit rfl).elim

/-- The keyword of a clause is a piece. -/
theorem piece_keyword (mem : kind ∈ ClauseKind.all) :
    Piece [("IDENT", kind.keyword)] kind.keyword.toList := by
  have letters : ∀ kind ∈ ClauseKind.all, kind.keyword.toList ≠ [] ∧ ∀ c ∈ kind.keyword.toList,
      Profile.standalone.opens? c = some .word ∧ Profile.standalone.continues .word c = true := by
    decide
  obtain ⟨filled, each⟩ := letters kind mem
  obtain ⟨c, rest, same⟩ := List.exists_cons_of_ne_nil filled
  rw [same] at each
  obtain ⟨first, others⟩ := List.forall_mem_cons.mp each
  have piece := piece_name (.run ⟨c, rest, same, first.1, fun d mem => (others d mem).2⟩)
  rwa [String.ofList_toList] at piece

/-- A keyword may have another case. -/
theorem replaces_keyword (mem : kind ∈ ClauseKind.all) (isA : c.IsA kind)
    (finished : Finished c.keyword) : Replaces c.keyword ("IDENT", kind.keyword) := by
  intro t' _ same
  obtain ⟨type, text⟩ := Prod.mk.inj same
  refine alike_of_upper _ ((type_of_keyword mem finished isA.keyword).trans type.symm) ?_
  rw [text]
  exact beq_iff_eq.mp isA.keyword

/-- **A clause that is no limit, written down anew.** -/
theorem anew_clause (mem : kind ∈ ClauseKind.all) (notLimit : kind ≠ .limit) (isA : c.IsA kind)
    (finished : ∀ t ∈ c.tokens, Finished t) :
    Anew c (kind.keyword ++ " " ++ c.text kind.separator)
      (("IDENT", kind.keyword) :: (Tree.tokensIn c.body).map key) where
  piece := by
    rw [String.toList_append, String.toList_append, List.append_assoc]
    exact (piece_keyword mem).space (piece_part mem notLimit isA finished)
  replaces := by
    refine .cons (replaces_keyword mem isA (finished _ List.mem_cons_self)) ?_
    exact List.forall₂_map_right_iff.mpr (List.forall₂_same.mpr fun t _ => replaces_key t)
  agrees := by
    have others : ∀ kind ∈ ClauseKind.all, kind ≠ .limit → kind.name ≠ ClauseKind.limit.name := by
      decide
    intro c' named same
    refine ⟨named, fun _ separator => ?_, fun isLimit => ?_⟩
    · rw [text_of_keys same separator, List.map_map]
      rfl
    · exact (others kind mem notLimit (isA.name.symm.trans isLimit)).elim

/-- **A limit, written down anew.** -/
theorem anew_limit {n : Int} (isA : c.IsA .limit) (finished : ∀ t ∈ c.tokens, Finished t)
    (h : Numeral.int? (c.text "") = some n) :
    Anew c ("LIMIT" ++ " " ++ toString n) [("IDENT", "LIMIT"), ("NUMLIT", toString n)] where
  piece := by
    have number := piece_number (numberChars_toString n)
    rw [String.ofList_toList] at number
    rw [String.toList_append, String.toList_append, List.append_assoc]
    exact (@piece_keyword .limit (by decide)).space number
  replaces := by
    have declared : (clauseGrammar.rule? "limit-count").map Rule.alternatives =
        some [[.one (.ofType "NUMLIT")]] := by
      decide
    obtain ⟨t, body, accepted⟩ := single_of_builds declared isA.body
    have tokens : c.tokens = [c.keyword, t] := by
      rw [Clause.tokens, body]
      rfl
    rw [tokens] at finished ⊢
    simp only [List.forall_mem_cons] at finished
    have isNumber : t.type = "NUMLIT" :=
      (accepts_type_iff finished.2.1.regular.typed (by decide)).mp accepted
    refine .cons (replaces_keyword (by decide) isA finished.1) (.cons ?_ .nil)
    intro t' finished' same
    exact alike_numbers finished.2.1 finished' isNumber (congrArg Prod.fst same)
  agrees := by
    intro c' named same
    refine ⟨named, fun notLimit => (notLimit isA.name).elim, fun _ => ?_⟩
    have text : c'.text "" = toString n := by
      rw [text_of_keys same]
      exact String.intercalate_singleton
    have few := Numeral.length_toDigits_of_int? h
    simp only [limitOf, text, h, Numeral.int?_toString few]

end Clauses

end Query

end GrammarKit
