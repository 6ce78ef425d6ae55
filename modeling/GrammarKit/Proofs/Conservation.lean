import GrammarKit.Calculator.Evaluation
import GrammarKit.Proofs.Adequacy
import GrammarKit.Proofs.Lexing

/-!
# No token is lost

The trees of a success **tile** the tokens between its two ends: read from left
to right, the leaves are the tokens that stand there, each once, and what is below
a node tiles a part of its own, next to those of its siblings.

## Main Definitions

* `Tiles` — trees that cover the tokens between two indices, at every level
* `Tree.Below` — a tree among some trees or anywhere below them
* `Term.Spans` — what a term has in common with the tokens it was made from

## Main Statements

* `Parser.Derives.tiles` — the trees of a success tile what it consumed
* `Parser.parse_conserves` — a term spans the tokens it consumed, a failed one is
  empty, and the text of a canonical source is kept

## Design Notes

Tiling is the invariant and says all at once; that the leaves are a slice of the
tokens, that no failure is below a success, and where the descendants lie are
read off it.
-/

namespace GrammarKit

/-! ### Tilings -/

/-- **Trees that tile the tokens between two indices.**  A leaf covers one token,
a node what its children cover, and each tree begins where the one before it
ends.  No node has a failure. -/
inductive Tiles (tokens : List Token) : List Tree → Nat → Nat → Prop where
  | nil {i : Nat} : Tiles tokens [] i i
  | leaf {t : Token} {rest : List Tree} {i j : Nat} :
      tokens[i]? = some t → Tiles tokens rest (i + 1) j → Tiles tokens (.leaf t :: rest) i j
  | node {rule : String} {children rest : List Tree} {i k j : Nat} :
      Tiles tokens children i k → Tiles tokens rest k j →
      Tiles tokens (.node rule children none :: rest) i j

/-- A tree among some trees or anywhere below them. -/
inductive Tree.Below : Tree → List Tree → Prop where
  | here {t : Tree} {ts : List Tree} : t ∈ ts → Below t ts
  | deeper {t : Tree} {rule : String} {children ts : List Tree} {failure : Option Failure} :
      .node rule children failure ∈ ts → Below t children → Below t ts

namespace Tiles

variable {tokens : List Token} {ts us : List Tree} {i j k : Nat}

theorem append (first : Tiles tokens ts i k) (second : Tiles tokens us k j) :
    Tiles tokens (ts ++ us) i j := by
  induction first with
  | nil => exact second
  | leaf found _ ih => exact .leaf found (ih second)
  | node inner _ _ ih => exact .node inner (ih second)

/-- Leaves tile the slice of the tokens that they are. -/
theorem leaves (tokens : List Token) :
    ∀ (n i : Nat), i + n ≤ tokens.length →
      Tiles tokens (((tokens.drop i).take n).map Tree.leaf) i (i + n) := by
  intro n
  induction n with
  | zero => intro i _; simpa using Tiles.nil
  | succ n ih =>
      intro i inside
      have lt : i < tokens.length := by omega
      rw [List.drop_eq_getElem_cons lt, List.take_succ_cons, List.map_cons]
      refine .leaf (List.getElem?_eq_getElem lt) ?_
      have rest := ih (i + 1) (by omega)
      rwa [show i + 1 + n = i + (n + 1) by omega] at rest

/-- A tiling covers an interval, inside the tokens if it covers any. -/
theorem bounds (h : Tiles tokens ts i j) : i ≤ j ∧ (i < j → j ≤ tokens.length) := by
  induction h with
  | nil => omega
  | leaf found _ ih =>
      have inside := (List.getElem?_eq_some_iff.mp found).1
      omega
  | node _ _ ihInner ihRest => omega

/-- **The leaves of a tiling are the tokens it covers.** -/
theorem tokensIn_eq (h : Tiles tokens ts i j) :
    Tree.tokensIn ts = (tokens.drop i).take (j - i) := by
  induction h with
  | nil => simp [Tree.tokensIn]
  | @leaf t rest i j found inner ih =>
      obtain ⟨inside, rfl⟩ := List.getElem?_eq_some_iff.mp found
      have le := inner.bounds.1
      rw [Tree.tokensIn, ih, Tree.tokens, List.drop_eq_getElem_cons inside,
        show j - i = (j - (i + 1)) + 1 by omega, List.take_succ_cons]
      rfl
  | @node rule children rest i k j inner outer ihInner ihOuter =>
      have first := inner.bounds.1
      have second := outer.bounds.1
      rw [Tree.tokensIn, Tree.tokens, ihInner, ihOuter,
        show j - i = (k - i) + (j - k) by omega, List.take_add, List.drop_drop,
        Nat.add_sub_cancel' first]

/-- A node of a tiling has no failure, and its children tile a part. -/
theorem of_mem {rule : String} {children : List Tree} {failure : Option Failure}
    (h : Tiles tokens ts i j) (mem : .node rule children failure ∈ ts) :
    failure = none ∧ ∃ first last, i ≤ first ∧ last ≤ j ∧ Tiles tokens children first last := by
  induction h with
  | nil => cases mem
  | leaf _ inner ih =>
      rcases List.mem_cons.mp mem with same | later
      · cases same
      · obtain ⟨ok, first, last, lo, hi, tiles⟩ := ih later
        exact ⟨ok, first, last, by omega, hi, tiles⟩
  | node inner outer _ ih =>
      have le := inner.bounds.1
      rcases List.mem_cons.mp mem with same | later
      · cases same
        exact ⟨rfl, _, _, Nat.le_refl _, outer.bounds.1, inner⟩
      · obtain ⟨ok, first, last, lo, hi, tiles⟩ := ih later
        exact ⟨ok, first, last, by omega, hi, tiles⟩

/-- **So have the nodes at every level below.** -/
theorem of_below {t : Tree} (below : t.Below ts) :
    ∀ {i j : Nat}, Tiles tokens ts i j →
      ∀ {rule : String} {children : List Tree} {failure : Option Failure},
        t = .node rule children failure →
        failure = none ∧
          ∃ first last, i ≤ first ∧ last ≤ j ∧ Tiles tokens children first last := by
  induction below with
  | here mem =>
      intro i j tiles rule children failure same
      rw [same] at mem
      exact tiles.of_mem mem
  | deeper mem _ ih =>
      intro i j tiles rule children failure same
      obtain ⟨-, first, last, lo, hi, inner⟩ := tiles.of_mem mem
      obtain ⟨ok, first', last', lo', hi', innermost⟩ := ih inner same
      exact ⟨ok, first', last', by omega, by omega, innermost⟩

end Tiles

/-! ### Successes tile -/

namespace Parser

variable {p : Parser} {tokens : List Token}

/-- Skipped blanks tile what they skip. -/
theorem tiles_blanks (p : Parser) (tokens : List Token) (i : Nat) :
    Tiles tokens ((p.blanksAt tokens i).map Tree.leaf) i (p.afterBlanks tokens i) := by
  by_cases skips : i < p.afterBlanks tokens i
  · have leaves := Tiles.leaves tokens (p.blanksAt tokens i).length i (afterBlanks_le skips)
    rw [← blanksAt_eq_take] at leaves
    exact leaves
  · have none : p.blanksAt tokens i = [] := by
      refine List.length_eq_zero_iff.mp ?_
      unfold afterBlanks at skips
      omega
    rw [afterBlanks, none]
    exact .nil

/-- **The trees of a success tile what it consumed.** -/
theorem Derives.tiles {goal : Goal} {i : Nat} {o : Outcome} (h : Derives p tokens goal i o) :
    ∀ {children : List Tree} {j : Nat}, o = .success children j → Tiles tokens children i j := by
  induction h with
  | rule _ _ ih => exact ih
  | exhausted => intro children j same; cases same
  | taken _ _ ih => exact ih
  | passed _ _ _ ih => exact ih
  | done => intro children j same; cases same; exact .nil
  | next _ _ ihFirst ihRest =>
      intro children j same
      obtain ⟨more, rfl, rfl⟩ := Outcome.after_eq_success.mp same
      exact (ihFirst rfl).append (ihRest rfl)
  | stuck _ _ ih => exact ih
  | @once name i o _ ih =>
      intro children j same
      obtain ⟨inner, rfl, rfl⟩ := Outcome.node_eq_success.mp same
      exact (tiles_blanks p tokens i).append (.node (ih rfl) .nil)
  | plain _ ih => exact ih
  | optional _ ih =>
      intro children j same
      rcases Outcome.orStay_eq_success.mp same with rfl | ⟨-, rfl, rfl⟩
      · exact ih rfl
      · exact .nil
  | repeatable _ ih => exact ih
  | again _ _ _ ihFirst ihRest =>
      intro children j same
      obtain ⟨more, rfl, rfl⟩ := Outcome.after_eq_success.mp same
      exact (ihFirst rfl).append (ihRest rfl)
  | last _ ih => exact ih
  | ended _ _ ih =>
      -- the blanks in front of a round that fails are given back with it
      intro children j same
      rcases Outcome.orStay_eq_success.mp same with rfl | ⟨-, rfl, rfl⟩
      · exact ih rfl
      · exact .nil
  | @token t marked i found _ stands _ =>
      intro children j same
      cases same
      exact (tiles_blanks p tokens i).append (.leaf stands .nil)
  | mismatch _ _ =>
      intro children j same
      split at same
      · cases same
        exact .nil
      · cases same
  | @upTo t marked i j found _ le stands _ _ =>
      intro children k same
      cases same
      have inside := (List.getElem?_eq_some_iff.mp stands).1
      have body := Tiles.leaves tokens (j - i) i (by omega)
      rwa [Nat.add_sub_cancel' le] at body
  | unterminated _ _ => intro children j same; cases same

end Parser

/-! ### What a term spans -/

/-- **A term spans the tokens between two indices.** -/
structure Term.Spans (tokens : List Token) (term : Term) (start stop : Nat) : Prop where
  inside : start ≤ stop ∧ stop ≤ tokens.length
  /-- Its leaves are the tokens there, none lost, repeated or moved. -/
  leaves : term.tokens = (tokens.drop start).take (stop - start)
  /-- Siblings are next to each other at every level. -/
  tiles : Tiles tokens term.children start stop
  /-- A term below it has no failure, and a slice of the tokens for leaves. -/
  below : ∀ rule children failure, Tree.Below (.node rule children failure) term.children →
    failure = none ∧ ∃ first last, start ≤ first ∧ first ≤ last ∧ last ≤ stop ∧
      Tree.tokensIn children = (tokens.drop first).take (last - first)

/-- A tiling is enough. -/
theorem Tiles.spans {tokens : List Token} {rule : String} {children : List Tree}
    {start stop : Nat} (tiles : Tiles tokens children start stop) (le : start ≤ tokens.length) :
    Term.Spans tokens ⟨rule, children, none⟩ start stop where
  inside := by
    have bounds := tiles.bounds
    omega
  leaves := tiles.tokensIn_eq
  tiles := tiles
  below := by
    intro rule children failure below
    obtain ⟨ok, first, last, lo, hi, inner⟩ := tiles.of_below below rfl
    exact ⟨ok, first, last, lo, inner.bounds.1, hi, inner.tokensIn_eq⟩

namespace Parser

variable {p : Parser} {tokens : List Token}

/-- The term of one rule spans what the rule consumed, and is empty if it failed. -/
theorem spans_of_parseRule {name : String} {start consumed : Nat} {term : Term}
    (le : start ≤ tokens.length)
    (h : (p.parseRule name tokens start).outcome = .ok (term, consumed)) :
    (term.ok = true → term.Spans tokens start (start + consumed)) ∧
      (term.ok = false → term.children = [] ∧ consumed = 0) := by
  rcases p.parseRule_cases tokens name start with
    ⟨f, hf, -⟩ | ⟨answer, o, answered, derived, reports⟩
  · rw [h] at hf
    cases hf
  · rw [h] at answered
    cases answered
    cases o with
    | success children stop =>
        obtain ⟨rfl, rfl⟩ := reports
        exact ⟨fun _ => (derived.tiles rfl).spans le, fun isFailed => by cases isFailed⟩
    | failure =>
        obtain ⟨⟨frontier, rfl⟩, rfl⟩ := reports
        exact ⟨fun isOk => (by cases isOk), fun _ => ⟨rfl, rfl⟩⟩
    | abort first terminator =>
        obtain ⟨rfl, rfl⟩ := reports
        exact ⟨fun isOk => (by cases isOk), fun _ => ⟨rfl, rfl⟩⟩

/-- The term of a whole parse spans all tokens, and is empty if it failed. -/
theorem spans_of_parse {term : Term} (h : (p.parse tokens).outcome = .ok term) :
    (term.ok = true → term.Spans tokens 0 tokens.length) ∧
      (term.ok = false → term.children = []) := by
  rcases p.parse_cases tokens with ⟨f, hf, -⟩ | ⟨term', o, answered, derived, concludes⟩
  · rw [h] at hf
    cases hf
  · rw [h] at answered
    cases answered
    cases o with
    | success children stop =>
        rw [Concludes] at concludes
        split at concludes
        · obtain ⟨frontier, rfl⟩ := concludes
          exact ⟨fun isOk => (by cases isOk), fun _ => rfl⟩
        · rename_i beyond
          -- the blanks behind the root belong to it
          have tiles := (derived.tiles rfl).append (tiles_blanks p tokens stop)
          have last : p.afterBlanks tokens stop = tokens.length := by
            have bounds := tiles.bounds
            omega
          rw [last] at tiles
          rw [concludes]
          exact ⟨fun _ => tiles.spans (Nat.zero_le _), fun isFailed => by cases isFailed⟩
    | failure =>
        obtain ⟨frontier, rfl⟩ := concludes
        exact ⟨fun isOk => (by cases isOk), fun _ => rfl⟩
    | abort first terminator =>
        obtain rfl := concludes
        exact ⟨fun isOk => (by cases isOk), fun _ => rfl⟩

end Parser

/-- All tokens are a slice of themselves. -/
theorem Term.Spans.tokens_eq {tokens : List Token} {term : Term}
    (h : term.Spans tokens 0 tokens.length) : term.tokens = tokens := by
  rw [h.leaves, Nat.sub_zero, List.drop_zero, List.take_length]

/-- Without a word builder a source is parsed as the tokens of its lexer. -/
theorem Language.outcome_parse {ε α : Type} {l : Language ε α} (wordless : l.words = none)
    (source : String) :
    (l.parse source).outcome = (l.parseTokens (l.profile.tokens source)).outcome := by
  have tokenized : (l.tokenize source false).outcome = .ok (l.profile.tokens source) := by
    rw [Language.tokenize, Traced.outcome_bind, Profile.outcome_tokenize, wordless]
    rfl
  rw [Language.parse, Traced.outcome_recover, tokenized]

/-- A parse of tokens under a language is one under its parser. -/
theorem Language.outcome_parseTokens_eq_ok {ε α : Type} {l : Language ε α} {tokens : List Token}
    {term : Term} :
    (l.parseTokens tokens).outcome = .ok term ↔ (l.parser.parse tokens).outcome = .ok term := by
  rw [Language.parseTokens, Traced.outcome_mapError]
  cases (l.parser.parse tokens).outcome with
  | error e =>
      constructor
      · intro same; cases same
      · intro same; cases same
  | ok other =>
      constructor
      · intro same; cases same; rfl
      · intro same; cases same; rfl

/-- **No token is lost, repeated or moved.**  For every parser, the ok term of a
rule spans the tokens it consumed, and so does every term below it; the ok term
of a whole parse spans all tokens.  A failed term has nothing below it and
consumed nothing.  So under a canonical language without a word builder an ok
term has the text of its source. -/
theorem Parser.parse_conserves :
    (∀ (p : Parser) (name : String) (tokens : List Token) (start consumed : Nat) (term : Term),
      start ≤ tokens.length →
      (p.parseRule name tokens start).outcome = .ok (term, consumed) →
      (term.ok = true → term.Spans tokens start (start + consumed)) ∧
        (term.ok = false → term.children = [] ∧ consumed = 0)) ∧
    (∀ (p : Parser) (tokens : List Token) (term : Term),
      (p.parse tokens).outcome = .ok term →
      (term.ok = true → term.Spans tokens 0 tokens.length ∧ term.tokens = tokens) ∧
        (term.ok = false → term.children = [])) ∧
    ∀ (ε α : Type) (l : Language ε α) (source : String) (term : Term),
      l.words = none → l.profile = .canonical →
      (l.parse source).outcome = .ok term → term.ok = true → term.text = source := by
  refine ⟨fun p name tokens start consumed term le h => spans_of_parseRule le h, ?_, ?_⟩
  · intro p tokens term h
    obtain ⟨spans, empty⟩ := spans_of_parse h
    exact ⟨fun isOk => ⟨spans isOk, (spans isOk).tokens_eq⟩, empty⟩
  · intro ε α l source term wordless canonical h isOk
    rw [Language.outcome_parse wordless, Language.outcome_parseTokens_eq_ok, canonical] at h
    have spans := (spans_of_parse h).1 isOk
    rw [Term.text, spans.tokens_eq]
    exact Profile.join_tokens (fun _ => rfl) source

/-- A sum with blanks, under the calculator: an ok term of a rule in the middle of
the tokens, one of all of them, and the text of the latter. -/
theorem Parser.parse_conserves_calculator :
    ∃ part whole : Term,
      part.ok = true ∧ part.Spans (Profile.canonical.tokens "1 + 2 ") 1 5 ∧
      whole.ok = true ∧ whole.Spans (Profile.canonical.tokens "1 + 2 ") 0 6 ∧
      whole.text = "1 + 2 " := by
  obtain ⟨rules, parses, sources⟩ := Parser.parse_conserves
  have answered : (Calculator.language.parser.parseRule "additive-expression-rest"
      (Profile.canonical.tokens "1 + 2 ") 1).outcome.toOption.map
        (fun answer => (answer.1.ok, answer.2)) = some (true, 4) := by
    decide +kernel
  have parsed : (Calculator.language.parse "1 + 2 ").outcome.toOption.map Term.ok =
      some true := by
    decide +kernel
  cases hpart : (Calculator.language.parser.parseRule "additive-expression-rest"
      (Profile.canonical.tokens "1 + 2 ") 1).outcome with
  | error e => simp [hpart, Except.toOption] at answered
  | ok answer =>
      obtain ⟨part, consumed⟩ := answer
      obtain ⟨partOk, rfl⟩ : part.ok = true ∧ consumed = 4 := by
        simpa [hpart, Except.toOption] using answered
      cases hwhole : (Calculator.language.parse "1 + 2 ").outcome with
      | error e => simp [hwhole, Except.toOption] at parsed
      | ok whole =>
          have wholeOk : whole.ok = true := by
            simpa [hwhole, Except.toOption] using parsed
          have all := hwhole
          rw [Language.outcome_parse rfl, Language.outcome_parseTokens_eq_ok] at all
          exact ⟨part, whole, partOk, (rules _ _ _ 1 4 part (by decide +kernel) hpart).1 partOk,
            wholeOk, ((parses _ _ whole all).1 wholeOk).1,
            sources _ _ _ "1 + 2 " whole rfl rfl hwhole wholeOk⟩

end GrammarKit
