import GrammarKit.Proofs.Conservation
import GrammarKit.Proofs.Passes
import GrammarKit.Proofs.QueryTokens
import GrammarKit.Proofs.Termination
import GrammarKit.Proofs.Yield
import GrammarKit.Query.Projection

/-!
# The words of queries settle

Word building for queries goes on over many passes: signs, fractions, dotted
paths and placeholders keep merging, bare quotes become marks and marks become
strings.  It always comes to an end within its limit, because every word of a
pass is a token of a settled type that stays, or is folded into one that weighs
less (`Query.Progress`).  What cannot be paired up ends in a failed term, and no
other failure is possible.

## Main Statements

* `Query.shape_of_yields` — what each word rule is folded from
* `Query.word_progress` — one word makes progress, or its terminator is missing
* `Query.pass_progress` — so does a pass
* `Query.tokenize_settles` — word building ends in words of settled types, or in
  an unterminated literal or comment

## Design Notes

Which tokens a rule consumes is read off the context-free reading of the grammar.
Order matters in two places only: a quote becomes a mark only after strings were
tried, and a token of a settled type is a word by itself only if nothing longer
begins with it.
-/

namespace GrammarKit.Query

open Element (rule optionalRule many literal ofType)
open GrammarKit.Parser

/-! ### The grammar of words -/

/-- The passes parse without skipping blanks. -/
theorem solid : words.parser.skipBlanks = false := rfl

/-- A rule of words has the alternatives that it is declared with. -/
theorem alternatives_eq {name : String} {alternatives : List Production} {r : Rule}
    (declared : (wordGrammar.rule? name).map Rule.alternatives = some alternatives)
    (hr : words.parser.grammar.rule? name = some r) : r.alternatives = alternatives := by
  have same : wordGrammar.rule? name = some r := hr
  rw [same, Option.map_some] at declared
  exact Option.some.inj declared

/-- The productions that a rule of words yields by. -/
theorem yields_rule {name : String} {alternatives : List Production} {w : List Token}
    (declared : (wordGrammar.rule? name).map Rule.alternatives = some alternatives)
    (h : words.parser.Yields (.rule name) w) :
    ∃ production ∈ alternatives, words.parser.Yields (.sequence production) w := by
  obtain ⟨r, hr, inner⟩ := h.of_rule
  rwa [alternatives_eq declared hr] at inner

/-- The production that a rule of words with a single alternative yields by. -/
theorem yields_only {name : String} {production : Production} {w : List Token}
    (declared : (wordGrammar.rule? name).map Rule.alternatives = some [production])
    (h : words.parser.Yields (.rule name) w) : words.parser.Yields (.sequence production) w := by
  obtain ⟨other, mem, inner⟩ := yields_rule declared h
  rwa [List.mem_singleton.mp mem] at inner

/-! ### Names and numbers -/

/-- Whether the last token of a word is accepted as one of the given type. -/
def EndsIn (type : String) (w : List Token) : Prop :=
  ∃ u t, w = u ++ [t] ∧ (Terminal.ofType type).accepts t = true

theorem EndsIn.append {type : String} {u v : List Token} (h : EndsIn type v) :
    EndsIn type (u ++ v) := by
  obtain ⟨v', t, rfl, accepted⟩ := h
  exact ⟨u ++ v', t, (List.append_assoc u v' [t]).symm, accepted⟩

theorem EndsIn.cons {type : String} {t : Token} {v : List Token} (h : EndsIn type v) :
    EndsIn type (t :: v) :=
  @EndsIn.append type [t] v h

/-- A production ends as its last element does. -/
theorem endsIn_of_ofType {type : String} {w : List Token}
    (h : words.parser.Yields (.sequence [ofType type]) w) : EndsIn type w := by
  obtain ⟨t, rfl, accepted⟩ := h.of_one_nil solid rfl
  exact ⟨[], t, rfl, accepted⟩

/-- A full stop with a token of a type behind it. -/
theorem endsIn_step {name type : String} {w : List Token}
    (declared : (wordGrammar.rule? name).map Rule.alternatives =
      some [[literal ".", ofType type]])
    (h : words.parser.Yields (.rule name) w) : EndsIn type w := by
  obtain ⟨t, v, rfl, -, rest⟩ := (yields_only declared h).of_one_cons solid rfl
  exact (endsIn_of_ofType rest).cons

theorem endsIn_number {w : List Token} (h : words.parser.Yields (.rule "num-literal") w) :
    EndsIn "NUMLIT" w := by
  obtain ⟨production, mem, inner⟩ :=
    @yields_rule _ [[rule "fractional-literal"], [rule "int-literal"]] _ (by decide) h
  simp only [List.mem_cons, List.not_mem_nil, or_false] at mem
  rcases mem with rfl | rfl
  · obtain ⟨u, v, rfl, first, others⟩ := inner.of_cons
    have literal := @yields_only _ [optionalRule "sign", number, rule "fractional-part"] _
      (by decide) (first.of_reference solid)
    obtain ⟨_, digits, rfl, -, literal⟩ := literal.of_cons
    obtain ⟨t, fraction, rfl, -, literal⟩ := literal.of_one_cons solid rfl
    obtain ⟨part, nothing, rfl, part', nil⟩ := literal.of_cons
    rw [others.of_nil, nil.of_nil, List.append_nil, List.append_nil]
    exact (endsIn_step (by decide) (part'.of_reference solid)).cons.append
  · obtain ⟨u, v, rfl, first, others⟩ := inner.of_cons
    have literal := @yields_only _ [optionalRule "sign", number] _
      (by decide) (first.of_reference solid)
    obtain ⟨_, digits, rfl, -, literal⟩ := literal.of_cons
    rw [others.of_nil, List.append_nil]
    exact (endsIn_of_ofType literal).append

theorem endsIn_placeholder {w : List Token}
    (h : words.parser.Yields (.rule "attribute-value-placeholder") w) : EndsIn "IDENT" w := by
  have inner := @yields_only _ [literal ":", word] _ (by decide) h
  obtain ⟨t, v, rfl, -, rest⟩ := inner.of_one_cons solid rfl
  exact (endsIn_of_ofType rest).cons

theorem endsIn_path {w : List Token}
    (h : words.parser.Yields (.rule "attribute-path-name") w) : EndsIn "IDENT" w := by
  have inner := @yields_only _ [word, rule "path-step", many "path-step"] _ (by decide) h
  obtain ⟨t, v, rfl, -, rest⟩ := inner.of_one_cons solid rfl
  obtain ⟨step, steps, rfl, step', rest⟩ := rest.of_cons
  obtain ⟨more, nothing, rfl, more', nil⟩ := rest.of_cons
  rw [nil.of_nil, List.append_nil]
  have first : EndsIn "IDENT" step := endsIn_step (by decide) (step'.of_reference solid)
  -- the further steps are none, or end as the last of them does
  have others : more = [] ∨ EndsIn "IDENT" more := by
    cases more' with
    | repeatable repeated =>
        refine @Yields.many_induction _ solid _ (fun v => v = [] ∨ EndsIn "IDENT" v)
          (Or.inl rfl) ?_ _ repeated
        intro u v one ends
        have endsHere : EndsIn "IDENT" u := endsIn_step (by decide) one
        rcases ends with rfl | ends
        · rw [List.append_nil]
          exact Or.inr endsHere
        · exact Or.inr ends.append
  rcases others with rfl | ends
  · rw [List.append_nil]
    exact first.cons
  · exact ends.append.cons

/-- What ends in a token of a type between passes has the shape of a name or a
number. -/
theorem EndsIn.shape {type : String} {w : List Token} (h : EndsIn type w)
    (regular : ∀ t ∈ w, Regular t) (mem : type ∈ ["IDENT", "NUMLIT"]) : Shape type w := by
  obtain ⟨u, t, rfl, accepted⟩ := h
  have known : ∀ type ∈ ["IDENT", "NUMLIT"], type ∈ passTypes := by decide
  obtain rfl := (accepts_type_iff (regular t (by simp)).typed (known type mem)).mp accepted
  exact .lettered mem

/-! ### Punctuation, comments and strings -/

/-- An operator, a comment mark and an escaped character begin with a mark that is
punctuation and nothing else. -/
theorem shape_punctuation {name : String} {w : List Token}
    (mem : name ∈ ["comparison-operator", "comment-mark", "escaped-char"])
    (h : words.parser.Yields (.rule name) w) (regular : ∀ t ∈ w, Regular t) :
    Shape "PUNCT" w := by
  have heads : ∀ r ∈ wordRules, r.name ∈ ["comparison-operator", "comment-mark", "escaped-char"] →
      ∀ production ∈ r.alternatives, ∃ mark ∈ plainMarks,
        production.head? = some (literal mark) := by
    decide
  have entry : ∀ mark ∈ plainMarks, (mark, ["PUNCT"]) ∈ markTypes := by decide
  obtain ⟨r, hr, production, isAlternative, inner⟩ := h.of_rule
  rw [← Grammar.name_of_rule? hr] at mem
  obtain ⟨mark, isMark, head⟩ :=
    heads r (Grammar.mem_rules_of_rule? hr) mem production isAlternative
  obtain ⟨rest, rfl⟩ := List.head?_eq_some_iff.mp head
  obtain ⟨t, v, rfl, accepted, -⟩ := inner.of_one_cons solid rfl
  have text := image_of_accepts (upper_markTypes _ (entry mark isMark)) accepted
  have types := (regular t (by simp)).marked _ (entry mark isMark) text
  exact .punctuation (List.mem_singleton.mp types)

theorem shape_blockComment {w : List Token}
    (h : words.parser.Yields (.rule "block-comment") w) : Shape "WS-BLOCK-COMMENT" w := by
  have inner := @yields_only _ [literal "/*", untilLiteral "*/", literal "*/"] _
    (by decide) h
  obtain ⟨a, v, rfl, opening, inner⟩ := inner.of_one_cons solid rfl
  obtain ⟨body, last, rfl, -, inner⟩ := inner.of_cons
  obtain ⟨z, rfl, closing⟩ := inner.of_one_nil solid rfl
  exact .blockComment (image_of_accepts (by decide) opening)
    (image_of_accepts (by decide) closing)

theorem shape_lineComment {w : List Token}
    (h : words.parser.Yields (.rule "line-comment") w) : Shape "WS-LINE-COMMENT" w := by
  obtain ⟨production, mem, inner⟩ :=
    @yields_rule _ (["--", "//"].map fun mark => [literal mark, untilLiteral "\n"]) _
      (by decide) h
  obtain ⟨mark, isMark, rfl⟩ := List.mem_map.mp mem
  have fixed : ∀ mark ∈ ["--", "//"], Text.upper mark = mark := by decide
  obtain ⟨a, v, rfl, opening, -⟩ := inner.of_one_cons solid rfl
  exact .lineComment isMark (image_of_accepts (fixed mark isMark) opening)

/-- A quote is a single token. -/
theorem shape_quote {name : String} {mark : String × String} {w : List Token}
    (isQuote : mark ∈ quoteMarks)
    (declared : (wordGrammar.rule? name).map Rule.alternatives = some [[literal mark.2]])
    (fresh : ∀ t, w.head? = some t → t.type ≠ mark.1)
    (h : words.parser.Yields (.rule name) w) : Shape mark.1 w := by
  have fixed : ∀ mark ∈ quoteMarks, Text.upper mark.2 = mark.2 := by decide
  obtain ⟨a, rfl, accepted⟩ := (yields_only declared h).of_one_nil solid rfl
  exact .quote isQuote (image_of_accepts (fixed mark isQuote) accepted) (fresh a rfl)

/-- A string is everything between two quotes that are marked. -/
theorem shape_string {name type : String} {mark : String × String} {w : List Token}
    (isString : type ∈ ["STRLIT-DQ", "STRLIT-SQ"]) (isQuote : mark ∈ quoteMarks)
    (declared : (wordGrammar.rule? name).map Rule.alternatives =
      some [[ofType mark.1, untilType mark.1, ofType mark.1]])
    (h : words.parser.Yields (.rule name) w) (regular : ∀ t ∈ w, Regular t) : Shape type w := by
  have known : mark.1 ∈ passTypes := List.mem_append_right _ (List.mem_map_of_mem isQuote)
  obtain ⟨a, v, rfl, opening, inner⟩ := (yields_only declared h).of_one_cons solid rfl
  obtain ⟨body, last, rfl, -, inner⟩ := inner.of_cons
  obtain ⟨z, rfl, closing⟩ := inner.of_one_nil solid rfl
  exact .string isString isQuote
    ((accepts_type_iff (regular a (by simp)).typed known).mp opening)
    ((accepts_type_iff (regular z (by simp)).typed known).mp closing)

/-- **What each word rule is folded from.**  A quote that is marked already is not
made into a mark again. -/
theorem shape_of_yields {name type : String} {w : List Token}
    (isWord : (name, type) ∈ wordTypes) (regular : ∀ t ∈ w, Regular t)
    (fresh : type ∈ quoteMarks.map Prod.fst → ∀ t, w.head? = some t → t.type ≠ type)
    (h : words.parser.Yields (.rule name) w) : Shape type w := by
  simp only [wordTypes, List.mem_cons, Prod.mk.injEq, List.not_mem_nil, or_false] at isWord
  rcases isWord with ⟨rfl, rfl⟩ | ⟨rfl, rfl⟩ | ⟨rfl, rfl⟩ | ⟨rfl, rfl⟩ | ⟨rfl, rfl⟩ | ⟨rfl, rfl⟩ |
    ⟨rfl, rfl⟩ | ⟨rfl, rfl⟩ | ⟨rfl, rfl⟩ | ⟨rfl, rfl⟩ | ⟨rfl, rfl⟩ | ⟨rfl, rfl⟩
  · exact (endsIn_number h).shape regular (by decide)
  · exact shape_punctuation (by decide) h regular
  · exact (endsIn_placeholder h).shape regular (by decide)
  · exact (endsIn_path h).shape regular (by decide)
  · exact shape_blockComment h
  · exact shape_lineComment h
  · exact shape_punctuation (by decide) h regular
  · exact shape_punctuation (by decide) h regular
  · exact @shape_quote _ ("QUOTE-DQ", "\"") _ (by decide) (by decide)
      (fresh (by decide)) h
  · exact @shape_quote _ ("QUOTE-SQ", "\x27") _ (by decide) (by decide)
      (fresh (by decide)) h
  · exact @shape_string _ _ ("QUOTE-DQ", "\"") _ (by decide) (by decide)
      (by decide) h regular
  · exact @shape_string _ _ ("QUOTE-SQ", "\x27") _ (by decide) (by decide)
      (by decide) h regular

/-! ### One word -/

section Passing

variable {tokens : List Token} {i j : Nat} {o : Outcome}

/-- What a rule of words comes to is what its productions come to. -/
theorem derives_rule {name : String} {alternatives : List Production}
    (declared : (wordGrammar.rule? name).map Rule.alternatives = some alternatives)
    (h : Derives words.parser tokens (.rule name) i o) :
    Derives words.parser tokens (.alternatives alternatives) i o := by
  obtain ⟨r, hr, inner⟩ := h.of_rule
  rwa [alternatives_eq declared hr] at inner

/-- A production that is a reference comes to a node of the rule. -/
theorem derives_reference {name : String}
    (h : Derives words.parser tokens (.sequence [rule name]) i o) :
    ∃ inner, Derives words.parser tokens (.rule name) i inner ∧ o = inner.node name [] := by
  cases h.of_singleton with
  | plain once =>
      obtain ⟨inner, derived, rfl⟩ := once.of_once
      rw [afterBlanks_of_solid solid] at derived
      exact ⟨inner, derived, by rw [blanksAt_of_solid solid]⟩

/-- **A string never fails behind its opening quote**: the closing one is there,
or it is missing and the whole parse is aborted. -/
theorem string_not_failure {name type : String} {t : Token}
    (declared : (wordGrammar.rule? name).map Rule.alternatives =
      some [[ofType type, untilType type, ofType type]])
    (stands : tokens[i]? = some t) (opening : t.type = type) :
    ¬ Derives words.parser tokens (.rule name) i .failure := by
  intro fails
  have production := (derives_rule declared fails).of_alternatives_failure _ List.mem_cons_self
  rcases production.of_sequence_failure with first | ⟨_, k, -, rest⟩
  · have rejected := first.of_terminal_failure.2 t (by rwa [afterBlanks_of_solid solid])
    have accepted : (Terminal.ofType type).accepts t = true := by
      simp [Terminal.accepts, Terminal.ofType, Terminal.valueOf, opening]
    rw [accepted] at rejected
    cases rejected
  · rcases rest.of_sequence_failure with body | ⟨_, j, body, closing⟩
    · exact absurd body.of_terminal_failure.1 (by simp [Terminal.untilType])
    · -- the body ends before a quote, and that quote closes the string
      obtain ⟨found, hfound, accepted⟩ := body.of_until_success rfl
      have rejected := closing.of_singleton.of_terminal_failure.2 found
        (by rwa [afterBlanks_of_solid solid])
      have same : (Terminal.ofType type).accepts found =
          (Terminal.untilType type).accepts found := rfl
      rw [same, accepted] at rejected
      cases rejected

/-- The rules that a word is tried by first, before single quotes. -/
def compoundRules : List String :=
  ["num-literal", "comparison-operator", "attribute-value-placeholder", "attribute-path-name",
   "block-comment", "line-comment", "comment-mark", "escaped-char", "string-literal-dq",
   "string-literal-sq"]

/-- The rules of single quotes. -/
def quoteRules : List String :=
  ["quote-dq", "quote-sq"]

/-- A word is something compound, or else a quote, or else one token as it is. -/
theorem word_alternatives : (wordGrammar.rule? "word").map Rule.alternatives =
    some (compoundRules.map (fun name => [rule name]) ++
      (quoteRules.map (fun name => [rule name]) ++ settledTypes.map fun type => [ofType type])) := by
  decide

/-- Where nothing compound begins, the token is not a quote that was marked before. -/
theorem unmarked_of_failure {t : Token} (stands : tokens[i]? = some t)
    (fails : ∀ production ∈ compoundRules.map (fun name => [rule name]),
      Derives words.parser tokens (.sequence production) i .failure) :
    t.type ∉ quoteMarks.map Prod.fst := by
  have strings : ∀ type ∈ quoteMarks.map Prod.fst, ∃ name ∈ compoundRules,
      (wordGrammar.rule? name).map Rule.alternatives =
        some [[ofType type, untilType type, ofType type]] := by
    decide
  intro isQuote
  obtain ⟨name, mem, declared⟩ := strings t.type isQuote
  obtain ⟨inner, derived, same⟩ := derives_reference (fails _ (List.mem_map_of_mem mem))
  rw [Outcome.node_eq_failure.mp same.symm] at derived
  exact string_not_failure declared stands rfl derived

/-- A word rule that succeeds consumes a token, and folding it makes progress. -/
theorem rule_progress {name type : String} {inner : List Tree}
    (regular : ∀ t ∈ tokens, Regular t) (isWord : (name, type) ∈ wordTypes)
    (fresh : type ∈ quoteMarks.map Prod.fst → ∀ t, tokens[i]? = some t → t.type ≠ type)
    (derived : Derives words.parser tokens (.rule name) i (.success inner j)) :
    i < j ∧ Progress ((tokens.drop i).take (j - i)) (words.rebuildIn [.node name inner none]) := by
  have consumes : ∀ pair ∈ wordTypes, pair.1 ∉ wordGrammar.nullable := by decide
  have lookup : ∀ pair ∈ wordTypes, wordTypes.lookup pair.1 = some pair.2 := by decide
  have lt : i < j := by
    rcases Nat.lt_or_eq_of_le derived.le_stop with lt | rfl
    · exact lt
    · exact (consumes _ isWord (derived.nullable rfl)).elim
  have inside := derived.stop_le lt
  have slice := (derived.tiles rfl).tokensIn_eq
  obtain ⟨first, rest, leaves⟩ : ∃ first rest, Tree.tokensIn inner = first :: rest := by
    refine List.exists_cons_of_ne_nil fun empty => ?_
    rw [empty] at slice
    have length := congrArg List.length slice
    rw [List.length_nil, List.length_take, List.length_drop] at length
    omega
  have stands : tokens[i]? = some first := by
    have head := congrArg List.head? (leaves.symm.trans slice)
    rw [List.head?_cons, List.head?_take, if_neg (by omega), List.head?_drop] at head
    exact head.symm
  have here : ∀ t ∈ Tree.tokensIn inner, Regular t := by
    intro t mem
    rw [slice] at mem
    exact regular t (List.mem_of_mem_drop (List.mem_of_mem_take mem))
  have shape : Shape type (Tree.tokensIn inner) := by
    refine shape_of_yields isWord here (fun isQuote t head => ?_) (derived.yields rfl)
    rw [leaves, List.head?_cons] at head
    cases head
    exact fresh isQuote _ stands
  refine ⟨lt, ?_⟩
  rw [WordBuilder.rebuildIn_word (lookup _ isWord) leaves, ← slice, ← leaves]
  exact shape.progress here leaves

/-- A word begins with every token: one of a settled type is a word by itself, and
a quote that was marked begins a string. -/
theorem word_not_failure {t : Token} (regular : Regular t) (stands : tokens[i]? = some t) :
    ¬ Derives words.parser tokens (.rule "word") i .failure := by
  intro fails
  have all := (derives_rule word_alternatives fails).of_alternatives_failure
  rcases List.mem_append.mp regular.typed with settled | isQuote
  · have alone := all [ofType t.type] (List.mem_append_right _ (List.mem_append_right _
      (List.mem_map_of_mem settled)))
    have rejected := alone.of_singleton.of_terminal_failure.2 t
      (by rwa [afterBlanks_of_solid solid])
    have accepted := (accepts_type_iff regular.typed regular.typed).mpr rfl
    rw [accepted] at rejected
    cases rejected
  · exact unmarked_of_failure stands
      (fun production mem => all production (List.mem_append_left _ mem)) isQuote

/-- A token that is a word by itself is kept. -/
theorem token_progress {type : String} {children : List Tree}
    (regular : ∀ t ∈ tokens, Regular t) (settled : type ∈ settledTypes)
    (h : Derives words.parser tokens (.sequence [ofType type]) i (.success children j)) :
    i < j ∧ Progress ((tokens.drop i).take (j - i)) (words.rebuildIn children) := by
  obtain ⟨t, stands, accepted, rfl, rfl⟩ := h.of_singleton.of_one_success rfl
  rw [afterBlanks_of_solid solid] at stands ⊢
  have isRegular : Regular t := regular t (List.mem_of_getElem? stands)
  have same : t.type = type :=
    (accepts_type_iff isRegular.typed (List.mem_append_left _ settled)).mp accepted
  have slice : (tokens.drop i).take (i + 1 - i) = [t] := by
    obtain ⟨inside, rfl⟩ := List.getElem?_eq_some_iff.mp stands
    rw [Nat.add_sub_cancel_left, List.drop_eq_getElem_cons inside, List.take_succ_cons,
      List.take_zero]
  refine ⟨Nat.lt_succ_self i, ?_⟩
  rw [blanksAt_of_solid solid, slice]
  show Progress [t] (words.rebuildIn [.leaf t])
  rw [WordBuilder.rebuildIn_leaf]
  rw [← same] at settled
  exact .kept isRegular settled

/-- A word that succeeds consumes a token, and folding it makes progress. -/
theorem word_success {t : Token} {children : List Tree} (regular : ∀ t ∈ tokens, Regular t)
    (stands : tokens[i]? = some t)
    (h : Derives words.parser tokens (.rule "word") i (.success children j)) :
    i < j ∧ Progress ((tokens.drop i).take (j - i)) (words.rebuildIn children) := by
  have compoundTypes : ∀ name ∈ compoundRules, ∃ pair ∈ wordTypes, pair.1 = name ∧
      pair.2 ∉ quoteMarks.map Prod.fst := by
    decide
  have quoteTypes : ∀ name ∈ quoteRules, ∃ pair ∈ wordTypes, pair.1 = name := by
    decide
  rcases (derives_rule word_alternatives h).of_alternatives_append with
    ⟨-, production, mem, inner⟩ | ⟨fails, rest⟩
  · obtain ⟨name, isCompound, rfl⟩ := List.mem_map.mp mem
    obtain ⟨pair, isWord, rfl, notQuote⟩ := compoundTypes name isCompound
    obtain ⟨inner, derived, same⟩ := derives_reference inner
    obtain ⟨trees, rfl, rfl⟩ := Outcome.node_eq_success.mp same.symm
    exact rule_progress regular isWord (fun isQuote => (notQuote isQuote).elim) derived
  -- nothing compound is here, so the token is not a quote that was marked before
  have unmarked := unmarked_of_failure stands fails
  rcases rest.of_alternatives_append with ⟨-, production, mem, inner⟩ | ⟨-, rest⟩
  · obtain ⟨name, isQuoteRule, rfl⟩ := List.mem_map.mp mem
    obtain ⟨pair, isWord, rfl⟩ := quoteTypes name isQuoteRule
    obtain ⟨inner, derived, same⟩ := derives_reference inner
    obtain ⟨trees, rfl, rfl⟩ := Outcome.node_eq_success.mp same.symm
    refine rule_progress regular isWord (fun isQuote other found => ?_) derived
    rw [stands] at found
    cases found
    intro same
    rw [← same] at isQuote
    exact unmarked isQuote
  · rcases rest.of_alternatives with ⟨-, production, mem, inner⟩ | ⟨nothing, -⟩
    · obtain ⟨type, settled, rfl⟩ := List.mem_map.mp mem
      exact token_progress regular settled inner
    · cases nothing

/-- **One word makes progress**, or its terminator is missing. -/
theorem word_progress (regular : ∀ t ∈ tokens, Regular t) (lt : i < tokens.length)
    (h : Derives words.parser tokens (.rule "word") i o) :
    (∃ start terminator, o = .abort start terminator) ∨
      ∃ children j, o = .success children j ∧ i < j ∧
        Progress ((tokens.drop i).take (j - i)) (words.rebuildIn children) := by
  obtain ⟨t, stands⟩ : ∃ t, tokens[i]? = some t := ⟨_, List.getElem?_eq_getElem lt⟩
  cases o with
  | abort start terminator => exact Or.inl ⟨start, terminator, rfl⟩
  | failure => exact (word_not_failure (regular t (List.mem_of_getElem? stands)) stands h).elim
  | success children j => exact Or.inr ⟨children, j, rfl, word_success regular stands h⟩

/-! ### One pass -/

/-- A word is not a word rule itself: what is inside is folded. -/
theorem rebuildIn_unfolded (children : List Tree) :
    words.rebuildIn [.node "word" children none] = words.rebuildIn children := by
  have unfolded : words.wordTypes.lookup "word" = none := by decide
  rw [WordBuilder.rebuildIn, WordBuilder.rebuild, unfolded, WordBuilder.rebuildIn, List.append_nil]

/-- **Words up to the end make progress**, or a terminator is missing. -/
theorem many_progress (regular : ∀ t ∈ tokens, Regular t) (i : Nat) (le : i ≤ tokens.length)
    {o : Outcome} (h : Derives words.parser tokens (.many "word") i o) :
    (∃ start terminator, o = .abort start terminator) ∨
      ∃ children, o = .success children tokens.length ∧
        Progress (tokens.drop i) (words.rebuildIn children) := by
  cases h with
  | @again _ _ j children o round lt rest =>
      obtain ⟨inner, derived, same⟩ := round.of_once
      obtain ⟨trees, rfl, rfl⟩ := Outcome.node_eq_success.mp same.symm
      rw [afterBlanks_of_solid solid] at derived lt
      have inside := derived.stop_le lt
      rcases word_progress regular (by omega) derived with
        ⟨_, _, aborted⟩ | ⟨_, _, succeeded, -, progress⟩
      · cases aborted
      · cases succeeded
        rcases many_progress regular j inside rest with ⟨start, terminator, rfl⟩ | ⟨more, rfl, tail⟩
        · exact Or.inl ⟨start, terminator, rfl⟩
        · refine Or.inr ⟨_, rfl, ?_⟩
          rw [WordBuilder.rebuildIn_append, blanksAt_of_solid solid]
          show Progress _ (words.rebuildIn [.node "word" trees none] ++ _)
          have split : tokens.drop i = (tokens.drop i).take (j - i) ++ tokens.drop j := by
            rw [← Nat.add_sub_cancel' derived.le_stop, ← List.drop_drop, Nat.add_sub_cancel_left,
              List.take_append_drop]
          rw [rebuildIn_unfolded, split]
          exact progress.append tail
  | last round =>
      obtain ⟨inner, derived, same⟩ := round.of_once
      obtain ⟨trees, rfl, -⟩ := Outcome.node_eq_success.mp same.symm
      have consumes : "word" ∉ wordGrammar.nullable := by decide
      exact (consumes (derived.nullable rfl)).elim
  | ended round fails =>
      obtain ⟨inner, derived, rfl⟩ := round.of_once
      rw [afterBlanks_of_solid solid] at derived
      cases inner with
      | success trees stop => exact (fails trivial).elim
      | abort start terminator => exact Or.inl ⟨start, terminator, rfl⟩
      | failure =>
          -- a word begins with every token, so none is left
          rcases Nat.lt_or_eq_of_le le with lt | rfl
          · rcases word_progress regular lt derived with ⟨_, _, same⟩ | ⟨_, _, same, -⟩
            · cases same
            · cases same
          · refine Or.inr ⟨[], rfl, ?_⟩
            rw [List.drop_length]
            exact .nil
termination_by tokens.length - i

/-- The root of a pass is any number of words. -/
theorem derives_words (h : Derives words.parser tokens (.rule "words") i o) :
    Derives words.parser tokens (.many "word") i o := by
  have element := (derives_rule (by decide :
    _ = some [[many "word"]]) h).of_alternatives_singleton.of_singleton
  cases element with
  | repeatable repeated => exact repeated

/-- The rules of words refer to rules of lower rank only. -/
def referenceRank (name : String) : Nat :=
  if name = "words" then 4
  else if name = "word" then 3
  else if name = "num-literal" then 2
  else if name ∈ ["fractional-literal", "int-literal", "attribute-path-name"] then 1
  else 0

/-- Whether word building failed because a terminator is missing. -/
def Unterminated (e : WordBuilder.Error) : Prop :=
  ∃ term failure, e = .failed term ∧ term.failure = some failure ∧ failure.kind = .unterminated

/-- **A pass makes progress**, or fails because a terminator is missing. -/
theorem pass_progress (regular : ∀ t ∈ tokens, Regular t) :
    (∃ next, (words.pass tokens).outcome = .ok next ∧ Progress tokens next) ∨
      ∃ e, (words.pass tokens).outcome = .error e ∧ Unterminated e := by
  have shallow : ∀ r ∈ wordRules, ∀ target ∈ r.references,
      referenceRank target < referenceRank r.name := by
    decide
  rcases words.parser.parse_cases tokens with ⟨f, -, fault⟩ | ⟨term, o, answered, derived, concludes⟩
  · exact (attempt_faultless_of_rank referenceRank shallow words.parser.grammar.root_mem_names 0
      (by decide) f fault).elim
  rcases many_progress regular 0 (Nat.zero_le _) (derives_words derived) with
    ⟨start, terminator, rfl⟩ | ⟨children, rfl, progress⟩
  · refine Or.inr ⟨.failed term, ?_, term, ?_⟩
    · rw [WordBuilder.outcome_pass answered, concludes]
      rfl
    · rw [concludes]
      exact ⟨_, rfl, rfl, rfl⟩
  · rw [Concludes, if_neg (by rw [afterBlanks_of_solid solid]; exact Nat.lt_irrefl _),
      blanksAt_of_solid solid, List.map_nil, List.append_nil] at concludes
    refine Or.inl ⟨words.rebuildIn children, ?_, progress⟩
    rw [WordBuilder.outcome_pass answered, concludes]
    rfl

/-! ### All passes -/

/-- Passes lower the weight until nothing changes. -/
theorem words_progresses :
    words.Progresses (fun tokens => ∀ t ∈ tokens, Regular t) Unterminated weigh := by
  intro tokens regular
  rcases pass_progress regular with ⟨next, ok, progress⟩ | failed
  · refine Or.inl ⟨next, ok, progress.regular, ?_⟩
    rcases progress.moves with ⟨same, -⟩ | lower
    · exact Or.inl same
    · exact Or.inr lower
  · exact Or.inr failed

/-- What a pass leaves as it is has settled types only. -/
theorem settled_of_fixed (regular : ∀ t ∈ tokens, Regular t)
    (fixed : (words.pass tokens).outcome = .ok tokens) :
    ∀ t ∈ tokens, t.type ∈ settledTypes := by
  rcases pass_progress regular with ⟨next, ok, progress⟩ | ⟨e, failed, -⟩
  · rw [fixed] at ok
    cases ok
    rcases progress.moves with ⟨-, settled⟩ | lower
    · exact settled
    · exact (Nat.lt_irrefl _ lower).elim
  · rw [fixed] at failed
    cases failed

end Passing

/-- **The words of every source settle.**  Tokenizing a source of the query
language ends in words whose types are settled, no quote left unpaired, or fails
on a literal or comment whose terminator is missing.  It never uses up its
passes, never nests too deeply and never meets a token that begins no word. -/
theorem tokenize_settles (source : String) (raw : Bool) :
    (∃ tokens, (language.tokenize source raw).outcome = .ok tokens ∧
      ∀ t ∈ tokens, t.type ∈ ["WS", "IDENT", "NUMLIT", "PUNCT", "STRLIT-DQ", "STRLIT-SQ",
        "WS-BLOCK-COMMENT", "WS-LINE-COMMENT"]) ∨
    ∃ term failure, (language.tokenize source raw).outcome = .error (.failed term) ∧
      term.failure = some failure ∧ failure.kind = .unterminated := by
  have regular : ∀ t ∈ Profile.standalone.tokens source, Regular t :=
    fun t mem => regular_of_fits (Profile.fits_of_mem_tokens mem)
  have room := weigh_le (Profile.standalone.tokens source)
  have tokenized : (language.tokenize source raw).outcome =
      (words.build (Profile.standalone.tokens source) raw).outcome := by
    rw [Language.tokenize, Traced.outcome_bind, Profile.outcome_tokenize]
    rfl
  rw [tokenized]
  rcases WordBuilder.build_of_measure words_progresses rfl regular (by omega) raw with
    ⟨settled, result, regularWords, fixed, built, rfl⟩ | ⟨e, failed, term, failure, rfl, kind⟩
  · refine Or.inl ⟨_, built, fun t mem => ?_⟩
    have isWord : t ∈ settled := by
      cases raw with
      | true => exact mem
      | false => exact (List.mem_filter.mp mem).1
    have listed : ∀ type ∈ settledTypes, type ∈ ["WS", "IDENT", "NUMLIT", "PUNCT", "STRLIT-DQ",
        "STRLIT-SQ", "WS-BLOCK-COMMENT", "WS-LINE-COMMENT"] := by
      decide
    exact listed _ (settled_of_fixed regularWords fixed t isWord)
  · exact Or.inr ⟨term, failure, failed, kind⟩

end GrammarKit.Query
