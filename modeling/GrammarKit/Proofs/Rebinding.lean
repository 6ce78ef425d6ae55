import GrammarKit.Proofs.FoldingRuns
import GrammarKit.Proofs.NestingLimit

/-!
# Languages built anew for a trace

A language that is built anew for a trace has the grammars, profile and options of the one
it is built from, **except the limit on nesting of its word builder**, which is the default
one.  So the two may part where words nest more deeply than the lower of the two limits
allows, and they part nowhere else.

## Main Definitions

* `WordBuilder.withLimit` — a word builder with another limit on the nesting
* `WordBuilder.TooDeep` — an answer that is missing because rules nest too deeply
* `Language.WordsWithin` — a source whose words are built alike under both limits

## Main Statements

* `WordBuilder.outcome_build_withLimit` — words that do not exceed a limit are the same
  under every higher one
* `WordBuilder.outcome_build_withLimit_eq_iff` — when words are the same under two limits
* `Language.debugged_eq` — what a language built anew is
* `Language.parse_debugged` — when it parses a source as the language does
* `Language.not_forall_parse_debugged` — not for every language and source

## Design Notes

Under a limit that is exceeded the answer names the limit, so two limits that are not equal
never give the same words by exceeding both.  Parses are another matter: the parser of the
language has a limit of its own, and may happen to exceed it where the word builder did.
That is why the equivalence is one about words.
-/

namespace GrammarKit

namespace WordBuilder

variable {b : WordBuilder} {tokens : List Token} {limit limit' : Int}

/-! ### Words under two limits -/

/-- A word builder with another limit on the nesting of rules. -/
def withLimit (b : WordBuilder) (limit : Int) : WordBuilder :=
  { b with maxDepth := limit }

/-- An answer that is missing because rules nest too deeply. -/
def TooDeep {α : Type} (answer : Except Error α) : Prop :=
  ∃ limit rule, answer = .error (.fault (.tooDeep limit rule))

instance {α : Type} (answer : Except Error α) : Decidable (TooDeep answer) :=
  match answer with
  | .error (.fault (.tooDeep limit rule)) => isTrue ⟨limit, rule, rfl⟩
  | .error (.fault (.undeclared _)) => isFalse (by rintro ⟨_, _, same⟩; cases same)
  | .error (.failed _) => isFalse (by rintro ⟨_, _, same⟩; cases same)
  | .error (.unsettled _) => isFalse (by rintro ⟨_, _, same⟩; cases same)
  | .ok _ => isFalse (by rintro ⟨_, _, same⟩; cases same)

theorem TooDeep.bind {α β : Type} {answer : Except Error α} (h : TooDeep answer)
    (f : α → Except Error β) : TooDeep (answer.bind f) := by
  obtain ⟨limit, rule, rfl⟩ := h
  exact ⟨limit, rule, rfl⟩

theorem TooDeep.map {α β : Type} {answer : Except Error α} (h : TooDeep answer) (f : α → β) :
    TooDeep (answer.map f) := by
  obtain ⟨limit, rule, rfl⟩ := h
  exact ⟨limit, rule, rfl⟩

/-- A pass exceeds the limit where its parse does. -/
theorem tooDeep_of_parse (h : Parser.TooDeep (b.parser.parse tokens).outcome) :
    TooDeep (b.pass tokens).outcome := by
  obtain ⟨limit, rule, ended⟩ := h
  rw [pass, Traced.outcome_bind, Traced.outcome_mapError, ended]
  exact ⟨limit, rule, rfl⟩

/-- A pass that does not exceed a limit is the same under a higher one. -/
theorem outcome_pass_withLimit (le : limit ≤ limit')
    (h : ¬ TooDeep ((b.withLimit limit).pass tokens).outcome) :
    ((b.withLimit limit').pass tokens).outcome = ((b.withLimit limit).pass tokens).outcome :=
  outcome_pass_congr rfl <| b.parser.outcome_parse_withLimit le fun ended =>
    h (tooDeep_of_parse ended)

/-- So are the passes that settle some tokens. -/
theorem outcome_settle_withLimit (le : limit ≤ limit') (passes : Int) :
    ∀ (left number : Nat) (tokens : List Token),
      ¬ TooDeep ((b.withLimit limit).settle passes left number tokens).outcome →
      ((b.withLimit limit').settle passes left number tokens).outcome =
        ((b.withLimit limit).settle passes left number tokens).outcome := by
  intro left
  induction left with
  | zero => intro number tokens _; rfl
  | succ left ih =>
      intro number tokens h
      rw [outcome_settle_succ] at h
      rw [outcome_settle_succ, outcome_settle_succ,
        outcome_pass_withLimit le fun ended => h (ended.bind _)]
      cases passed : ((b.withLimit limit).pass tokens).outcome with
      | error e => rfl
      | ok next =>
          rw [passed] at h
          simp only [Except.bind] at h ⊢
          by_cases same : next = tokens
          · rw [if_pos same, if_pos same]
          · rw [if_neg same] at h
            rw [if_neg same, if_neg same, ih (number + 1) next h]

/-- **Words that do not exceed a limit are the same under every higher one.** -/
theorem outcome_build_withLimit (le : limit ≤ limit') {raw : Bool}
    (h : ¬ TooDeep ((b.withLimit limit).build tokens raw).outcome) :
    ((b.withLimit limit').build tokens raw).outcome =
      ((b.withLimit limit).build tokens raw).outcome := by
  rw [outcome_build] at h
  rw [outcome_build, outcome_build]
  exact congrArg _ (outcome_settle_withLimit le _ _ _ _ fun ended => h (ended.map _))

/-- Where words are missing because rules nest too deeply, the answer names the limit. -/
theorem limit_of_tooDeep {raw : Bool} {rule : String}
    (h : (b.build tokens raw).outcome = .error (.fault (.tooDeep limit rule))) :
    limit = b.maxDepth := by
  rw [outcome_build] at h
  have run := @settle_run b tokens (b.limit tokens) (b.limit tokens).toNat _ _ 1 .start
  generalize (b.settle (b.limit tokens) (b.limit tokens).toNat 1 tokens).outcome = settled at h run
  rcases run with ⟨made, last, -, -, ends⟩ | ⟨rfl, -⟩
  · cases ends with
    | fixed _ => cases h
    | failed _ => cases h
    | tooDeep _ =>
        cases h
        rfl
  · cases h

/-- **When words are the same under another limit**: if it is the same limit, or if neither
is exceeded. -/
theorem outcome_build_withLimit_eq_iff {raw : Bool} :
    ((b.withLimit limit).build tokens raw).outcome = (b.build tokens raw).outcome ↔
      b.maxDepth = limit ∨ ¬ TooDeep (b.build tokens raw).outcome ∧
        ¬ TooDeep ((b.withLimit limit).build tokens raw).outcome := by
  constructor
  · intro same
    by_cases deep : TooDeep (b.build tokens raw).outcome
    · -- the one answer names both limits
      obtain ⟨exceeded, rule, ended⟩ := deep
      have own : exceeded = b.maxDepth := limit_of_tooDeep ended
      have other : exceeded = limit := limit_of_tooDeep (same.trans ended)
      exact Or.inl (own.symm.trans other)
    · exact Or.inr ⟨deep, same ▸ deep⟩
  · rintro (rfl | ⟨within, within'⟩)
    · rfl
    · rcases Int.le_total b.maxDepth limit with le | le
      · exact @outcome_build_withLimit b tokens b.maxDepth limit le raw within
      · exact (@outcome_build_withLimit b tokens limit b.maxDepth le raw within').symm

end WordBuilder

namespace Language

open WordBuilder (TooDeep)

variable {ε α : Type} {l : Language ε α} {source : String}

/-! ### Languages -/

/-- A language with another limit on the nesting of rules in its word builder. -/
def withWordLimit (l : Language ε α) (limit : Int) : Language ε α :=
  { l with words := l.words.map fun b => b.withLimit limit }

/-- **A language built anew for a trace** is the language with its traces on and the default
limit on nesting in its word builder. -/
theorem debugged_eq (l : Language ε α) : l.debugged = (l.withWordLimit 256).tracing true true := by
  unfold debugged tracing withWordLimit
  congr 1
  rw [Option.map_map]
  rfl

/-- **A source whose words do not depend on the limit**: it is the default one, or it is
exceeded neither as it is nor with the default in its place. -/
def WordsWithin (l : Language ε α) (source : String) : Prop :=
  (∀ b ∈ l.words, b.maxDepth = 256) ∨
    ¬ TooDeep (l.tokenize source false).outcome ∧
      ¬ TooDeep ((l.withWordLimit 256).tokenize source false).outcome

/-- When the words of a source are the same with the default limit. -/
theorem outcome_tokenize_withWordLimit_iff :
    ((l.withWordLimit 256).tokenize source false).outcome = (l.tokenize source false).outcome ↔
      l.WordsWithin source := by
  unfold WordsWithin
  simp only [tokenize, Traced.outcome_bind, Profile.outcome_tokenize, withWordLimit]
  cases l.words with
  | none => simp
  | some b =>
      show ((b.withLimit 256).build _ false).outcome = (b.build _ false).outcome ↔
        (∀ c ∈ some b, c.maxDepth = 256) ∨ ¬ TooDeep (b.build _ false).outcome ∧
          ¬ TooDeep ((b.withLimit 256).build _ false).outcome
      rw [WordBuilder.outcome_build_withLimit_eq_iff]
      simp

/-- A source has the parse of its words. -/
theorem outcome_parse_of_tokenize {m : Language ε α} (parsers : m.parser = l.parser)
    (same : (m.tokenize source false).outcome = (l.tokenize source false).outcome) :
    (m.parse source).outcome = (l.parse source).outcome := by
  rw [parse, parse, Traced.outcome_recover, Traced.outcome_recover, same]
  cases (l.tokenize source false).outcome with
  | ok tokens =>
      show (m.parseTokens tokens).outcome = (l.parseTokens tokens).outcome
      rw [parseTokens, parseTokens, parsers]
  | error e => cases e <;> rfl

/-- Where words nest too deeply, there is no parse for that reason. -/
theorem tooDeep_parse (h : TooDeep (l.tokenize source false).outcome) :
    TooDeep (l.parse source).outcome := by
  obtain ⟨limit, rule, ended⟩ := h
  refine ⟨limit, rule, ?_⟩
  rw [parse, Traced.outcome_recover, ended]
  rfl

/-- **A language built anew for a trace loses the limit on nesting of its word builder, and
nothing else.**  It has the same words for a source exactly where they do not depend on that
limit.  There it also has the same parse, be it a term or an error; elsewhere one of the
two parses is missing because words nest too deeply. -/
theorem parse_debugged (l : Language ε α) (source : String) :
    ((l.debugged.tokenize source false).outcome = (l.tokenize source false).outcome ↔
        l.WordsWithin source) ∧
      (l.WordsWithin source → (l.debugged.parse source).outcome = (l.parse source).outcome) ∧
      (¬ l.WordsWithin source →
        TooDeep (l.parse source).outcome ∨ TooDeep (l.debugged.parse source).outcome) := by
  rw [debugged_eq, outcome_tokenize_tracing, outcome_parse_tracing]
  refine ⟨outcome_tokenize_withWordLimit_iff, fun within => ?_, fun parted => ?_⟩
  · exact outcome_parse_of_tokenize rfl (outcome_tokenize_withWordLimit_iff.mpr within)
  · by_cases own : TooDeep (l.tokenize source false).outcome
    · exact Or.inl (tooDeep_parse own)
    · by_cases other : TooDeep ((l.withWordLimit 256).tokenize source false).outcome
      · exact Or.inr (tooDeep_parse other)
      · exact absurd (Or.inr ⟨own, other⟩) parted

/-- A line that is a title, which is a word: the rule for it is nested in the root rule of
words. -/
def titleLine : Language Empty Unit where
  parser := { grammar := { rules := [{ name := "line", alternatives := [[.ofType "TITLE"]] }]
                           root := "line" } }
  words := some
    { grammar := { rules := [
        { name := "text", alternatives := [[.rule "title"], [.ofType "TITLE"]] },
        { name := "title", alternatives := [[.ofType "IDENT"]] }]
                   root := "text" }
      wordTypes := [("title", "TITLE")] }

/-- Words that may nest once are read alike, though the limit is not the default one. -/
theorem parse_debugged_once :
    let once := titleLine.withWordLimit 1
    once.WordsWithin "a" ∧
      (once.debugged.tokenize "a" false).outcome = (once.tokenize "a" false).outcome ∧
      (once.debugged.parse "a").outcome = (once.parse "a").outcome ∧
      (once.parse "a").outcome.toOption = some ⟨"line", [.leaf ⟨"TITLE", "a", 1, 1⟩], none⟩ := by
  intro once
  have within : once.WordsWithin "a" := Or.inr (by decide +kernel)
  obtain ⟨words, parses, -⟩ := parse_debugged once "a"
  exact ⟨within, words.mpr within, parses within, by decide +kernel⟩

/-- **A language built anew for a trace does not always parse as the language does**: if
words may not nest at all, a title is too deep for the language, but not if it is built
anew. -/
theorem not_forall_parse_debugged :
    ¬ ∀ (l : Language Empty Unit) (source : String),
      (l.debugged.parse source).outcome = (l.parse source).outcome := by
  intro all
  have own : TooDeep ((titleLine.withWordLimit 0).parse "a").outcome := by decide +kernel
  have anew : ¬ TooDeep ((titleLine.withWordLimit 0).debugged.parse "a").outcome := by
    decide +kernel
  rw [all] at anew
  exact anew own

end Language

end GrammarKit
