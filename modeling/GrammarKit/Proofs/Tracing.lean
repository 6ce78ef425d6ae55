import GrammarKit.Language
import GrammarKit.Proofs.Lexing
import GrammarKit.Proofs.Lockstep

/-!
# A trace changes nothing

Lines of a trace are written between the steps of a parse, of the passes of a word
builder and of the lexer.  None of them is read again: with a trace and without
one, every computation has the same **outcome**, a result or an error.

## Main Definitions

* `Language.tracing` — a language with the traces of its parts on or off

## Main Statements

* `Parser.exists_correspondence_debug` — a parse beside the same parse with a trace
* `Parser.outcome_parse_debug`, `Parser.outcome_parseRule_debug` — parses
* `WordBuilder.outcome_build_debug` — word building
* `Language.outcome_parse_tracing` — sources of a language
* `Language.debugged_eq_tracing` — a language built anew for a trace is the same
  language where the limit on nesting is the default one

## Design Notes

For the parser, tracing is one more correspondence of two parses: every index and
every tree corresponds to itself.
-/

namespace GrammarKit

namespace Parser

/-! ### Parses -/

/-- **A parse beside the same parse with a trace**: all that corresponds is equal. -/
theorem exists_correspondence_debug (p : Parser) (on : Bool) (tokens : List Token) :
    ∃ c : Correspondence p { p with debug := on } tokens tokens, c.Here = Eq ∧ c.Like = Eq := by
  refine ⟨{ Here := Eq, Like := Eq, grammar := rfl, maxDepth := rfl, first := rfl, last := rfl,
            skip := ?skip, blanks := ?blanks, order := ?order, token := ?token,
            search := ?search, nil := rfl, append := ?append, node := ?node }, rfl, rfl⟩
  case skip =>
    rintro i _ rfl
    rfl
  case blanks =>
    rintro i _ rfl
    rfl
  case order =>
    rintro i _ k _ rfl rfl
    rfl
  case token =>
    rintro i _ rfl
    show (tokens[p.afterBlanks tokens i]? = none ∧ tokens[p.afterBlanks tokens i]? = none) ∨ _
    cases stands : tokens[p.afterBlanks tokens i]? with
    | none => exact Or.inl ⟨rfl, rfl⟩
    | some t => exact Or.inr ⟨t, t, rfl, stands, fun _ _ _ => rfl, rfl, rfl⟩
  case search =>
    rintro t _ i _ _ _ rfl
    by_cases found : i + (passed tokens t i).length < tokens.length
    · exact Or.inr ⟨found, found, rfl, rfl⟩
    · exact Or.inl ⟨found, found⟩
  case append =>
    rintro cs _ cs' _ rfl rfl
    rfl
  case node =>
    rintro name cs _ rfl
    rfl

variable {p : Parser} {tokens : List Token}

/-- Where all that corresponds is equal, answers are. -/
theorem Correspondence.eq_of_agree {q : Parser} (c : Correspondence p q tokens tokens)
    (isHere : c.Here = Eq) (isLike : c.Like = Eq)
    (skips : q.afterBlanks tokens = p.afterBlanks tokens) {a b : Attempt} (h : c.Agree a b) :
    b = a := by
  obtain ⟨segment, frontier⟩ := a
  obtain ⟨segment', frontier'⟩ := b
  obtain ⟨segments, fronts⟩ := h
  congr 1
  · cases segments with
    | none => rfl
    | @some s s' related =>
        obtain ⟨children, stop⟩ := s
        obtain ⟨children', stop'⟩ := s'
        obtain ⟨like, here⟩ := related
        rw [isLike] at like
        rw [isHere] at here
        cases like
        cases here
        rfl
  · cases fronts with
    | unreached => rfl
    | reached here =>
        rw [isHere] at here
        rw [here, skips]

/-- **The application of a rule does not depend on the trace.** -/
theorem outcome_attempt_debug (p : Parser) (on : Bool) (tokens : List Token) (name : String)
    (start : Nat) :
    (attempt { p with debug := on } tokens name start).outcome =
      (p.attempt tokens name start).outcome := by
  obtain ⟨c, isHere, isLike⟩ := p.exists_correspondence_debug on tokens
  have here : c.Here start start := by rw [isHere]
  rcases c.attempt name here with
    ⟨e, e', faulty, faulty', related⟩ | ⟨a, b, ok, ok', agree⟩
  · rw [faulty, faulty']
    cases related with
    | fault f => rfl
    | unterminated _ _ here =>
        rw [isHere] at here
        rw [here]
  · rw [ok, ok', c.eq_of_agree isHere isLike rfl agree]

/-- What is concluded from the application of a rule depends on its outcome alone. -/
theorem outcome_conclude {α : Type} {q : Parser} {x y : Traced Interrupt Attempt}
    {answer answer' : Attempt → Traced Fault α} (name : String) (failed : Term → α)
    (same : y.outcome = x.outcome)
    (answers : ∀ a, (answer' a).outcome = (answer a).outcome) :
    (q.conclude tokens name y answer' failed).outcome =
      (p.conclude tokens name x answer failed).outcome := by
  rw [conclude, conclude, Traced.outcome_recover, Traced.outcome_recover, same]
  cases x.outcome with
  | ok a => exact answers a
  | error e =>
      cases e with
      | fault f => rfl
      | unterminated start terminator =>
          simp only [Traced.outcome_bind, Traced.outcome_note]

theorem outcome_finish_debug (p : Parser) (on : Bool) (tokens : List Token) (a : Attempt) :
    (finish { p with debug := on } tokens a).outcome = (p.finish tokens a).outcome := by
  unfold finish
  cases a.segment? with
  | none => rfl
  | some s =>
      simp only [blanksAt]
      split
      · rfl
      · simp only [Traced.outcome_bind, Traced.outcome_note]

/-- **A whole parse does not depend on the trace.** -/
theorem outcome_parse_debug (p : Parser) (on : Bool) (tokens : List Token) :
    (parse { p with debug := on } tokens).outcome = (p.parse tokens).outcome :=
  outcome_conclude p.grammar.root id (outcome_attempt_debug p on tokens p.grammar.root 0)
    (outcome_finish_debug p on tokens)

/-- **Nor does the parse of one rule.** -/
theorem outcome_parseRule_debug (p : Parser) (on : Bool) (name : String) (tokens : List Token)
    (start : Nat) :
    (parseRule { p with debug := on } name tokens start).outcome =
      (p.parseRule name tokens start).outcome :=
  outcome_conclude name _ (outcome_attempt_debug p on tokens name start) fun _ => rfl

end Parser

namespace WordBuilder

/-! ### Words -/

mutual

/-- Folding knows the word rules and their types alone. -/
theorem rebuild_congr {b c : WordBuilder} (types : c.wordTypes = b.wordTypes) :
    ∀ t : Tree, c.rebuild t = b.rebuild t
  | .leaf _ => rfl
  | .node rule children failure => by
      rw [rebuild, rebuild, types, rebuildIn_congr types children]

theorem rebuildIn_congr {b c : WordBuilder} (types : c.wordTypes = b.wordTypes) :
    ∀ ts : List Tree, c.rebuildIn ts = b.rebuildIn ts
  | [] => rfl
  | t :: rest => by
      rw [rebuildIn, rebuildIn, rebuild_congr types t, rebuildIn_congr types rest]

end

/-- Two passes have the same outcome if their parses have. -/
theorem outcome_pass_congr {b c : WordBuilder} {tokens : List Token}
    (types : c.wordTypes = b.wordTypes)
    (parsed : (c.parser.parse tokens).outcome = (b.parser.parse tokens).outcome) :
    (c.pass tokens).outcome = (b.pass tokens).outcome := by
  rw [pass, pass, Traced.outcome_bind, Traced.outcome_bind, Traced.outcome_mapError,
    Traced.outcome_mapError, parsed]
  simp only [rebuildIn_congr types]

theorem outcome_pass_debug (b : WordBuilder) (on : Bool) (tokens : List Token) :
    (pass { b with debug := on } tokens).outcome = (b.pass tokens).outcome :=
  outcome_pass_congr rfl (b.parser.outcome_parse_debug on tokens)

/-- A pass that changes something is followed by others. -/
theorem outcome_settle_succ (b : WordBuilder) (limit : Int) (left number : Nat)
    (tokens : List Token) :
    (b.settle limit (left + 1) number tokens).outcome =
      (b.pass tokens).outcome.bind fun next =>
        if next = tokens then .ok tokens else (b.settle limit left (number + 1) next).outcome := by
  rw [settle, Traced.outcome_bind]
  congr 1
  funext next
  rw [Traced.outcome_bind, Traced.outcome_note, Except.bind, apply_ite Traced.outcome]
  rfl

theorem outcome_settle_debug (b : WordBuilder) (on : Bool) (limit : Int) :
    ∀ (left number : Nat) (tokens : List Token),
      (settle { b with debug := on } limit left number tokens).outcome =
        (b.settle limit left number tokens).outcome := by
  intro left
  induction left with
  | zero => intro number tokens; rfl
  | succ left ih =>
      intro number tokens
      simp only [outcome_settle_succ, outcome_pass_debug, ih]

/-- **Word building does not depend on the trace.** -/
theorem outcome_build_debug (b : WordBuilder) (on : Bool) (tokens : List Token) (raw : Bool) :
    (build { b with debug := on } tokens raw).outcome = (b.build tokens raw).outcome := by
  have limits : limit { b with debug := on } tokens = b.limit tokens := rfl
  rw [build, build, Traced.outcome_bind, Traced.outcome_bind, limits, outcome_settle_debug]

end WordBuilder

namespace Language

variable {ε α : Type}

/-! ### Languages -/

/-- A language with the traces of its lexer and parser, and that of its word builder,
on or off. -/
def tracing (l : Language ε α) (on words : Bool) : Language ε α :=
  { l with
    parser := { l.parser with debug := on }
    words := l.words.map fun b => { b with debug := words } }

theorem outcome_tokenize_tracing (l : Language ε α) (on words : Bool) (source : String)
    (raw : Bool) :
    ((l.tracing on words).tokenize source raw).outcome = (l.tokenize source raw).outcome := by
  rw [tokenize, tokenize, Traced.outcome_bind, Traced.outcome_bind, Profile.outcome_tokenize,
    Profile.outcome_tokenize]
  simp only [tracing]
  cases l.words with
  | none => rfl
  | some b => exact b.outcome_build_debug words _ raw

theorem outcome_parseTokens_tracing (l : Language ε α) (on words : Bool) (tokens : List Token) :
    ((l.tracing on words).parseTokens tokens).outcome = (l.parseTokens tokens).outcome := by
  rw [parseTokens, parseTokens, Traced.outcome_mapError, Traced.outcome_mapError]
  exact congrArg _ (l.parser.outcome_parse_debug on tokens)

/-- **The parse of a source does not depend on any trace.** -/
theorem outcome_parse_tracing (l : Language ε α) (on words : Bool) (source : String) :
    ((l.tracing on words).parse source).outcome = (l.parse source).outcome := by
  rw [parse, parse, Traced.outcome_recover, Traced.outcome_recover, outcome_tokenize_tracing]
  cases (l.tokenize source false).outcome with
  | ok tokens => exact l.outcome_parseTokens_tracing on words tokens
  | error e => cases e <;> rfl

/-- **A language built anew for a trace** is the same language with its traces on, if
its word builder has the default limit on nesting. -/
theorem debugged_eq_tracing {l : Language ε α} (limit : ∀ b ∈ l.words, b.maxDepth = 256) :
    l.debugged = l.tracing true true := by
  unfold debugged tracing
  congr 1
  refine Option.map_congr fun b mem => ?_
  rw [← limit b mem]

end Language

end GrammarKit
