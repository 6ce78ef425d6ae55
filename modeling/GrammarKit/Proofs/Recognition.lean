import GrammarKit.Proofs.Termination
import GrammarKit.Query.Words

/-!
# The parser recognises exactly ordered choice

The declarative semantics says what the outcome of a rule *is*; the parser, which
counts levels of nesting, keeps a frontier and may be interrupted, *computes* it.
Existence of an outcome is the one direction that the relation cannot give
itself: it comes from a run of the parser with more levels than the height of the
rule.

## Main Statements

* `Parser.exists_derives` — a declared rule has an outcome at every index
* `Parser.parseRule_reports` — whatever the limit, the parser reports the outcome
  unless rules nest too deeply
* `Parser.parse_recognises` — both, with what they mean for a whole parse
-/

namespace GrammarKit.Parser

variable {p : Parser} {tokens : List Token}

/-- **A declared rule has an outcome at every index.** -/
theorem exists_derives {name : String} (declared : name ∈ p.grammar.names) (i : Nat) :
    ∃ o, Derives p tokens (.rule name) i o := by
  -- one level more than the height is enough for a run without a fault
  have sound := applyRule_sound p tokens (p.height tokens name i + 1) 0 name i
  have faultless :=
    applyRule_faultless (p.height tokens name i + 1) 0 name i declared (Nat.lt_succ_self _)
  cases hx : (p.applyRule tokens (p.height tokens name i + 1) 0 name i).outcome with
  | ok a => exact ⟨a.outcome, sound _ (outcome?_of_ok hx)⟩
  | error e =>
      cases e with
      | fault f => exact (faultless f hx).elim
      | unterminated first terminator =>
          exact ⟨.abort first terminator, sound _ (by rw [outcome?, hx])⟩

/-- **The parse of a rule reports its outcome**, or rules nest beyond the limit. -/
theorem parseRule_reports {name : String} (declared : name ∈ p.grammar.names) {start : Nat}
    {o : Outcome} (h : Derives p tokens (.rule name) start o) :
    (∃ rule, (p.parseRule name tokens start).outcome = .error (.tooDeep p.maxDepth rule)) ∨
      ∃ answer, (p.parseRule name tokens start).outcome = .ok answer ∧
        Reports tokens name start o answer := by
  rcases p.parseRule_cases tokens name start with ⟨f, hf, fault⟩ | ⟨answer, o', ok, h', reports⟩
  · obtain ⟨rule, rfl⟩ := applyRule_faultsIn_tooDeep _ _ _ _ declared f fault
    exact Or.inl ⟨rule, hf⟩
  · rw [h.deterministic h']
    exact Or.inr ⟨answer, ok, reports⟩

/-- A term of a parse is ok exactly if the root succeeds with blanks behind it. -/
theorem ok_iff_of_parse {term : Term} (h : (p.parse tokens).outcome = .ok term) :
    term.ok = true ↔ ∃ children stop,
      Derives p tokens (.rule p.grammar.root) 0 (.success children stop) ∧
        tokens.length ≤ p.afterBlanks tokens stop := by
  rcases p.parse_cases tokens with ⟨f, hf, -⟩ | ⟨term', o, answered, derived, concludes⟩
  · rw [h] at hf
    cases hf
  · rw [h] at answered
    cases answered
    constructor
    · intro isOk
      cases o with
      | failure =>
          obtain ⟨frontier, rfl⟩ := concludes
          cases isOk
      | abort first terminator =>
          cases concludes
          cases isOk
      | success children stop =>
          refine ⟨children, stop, derived, ?_⟩
          rw [Concludes] at concludes
          split at concludes
          · obtain ⟨frontier, rfl⟩ := concludes
            cases isOk
          · omega
    · rintro ⟨children, stop, derived', beyond⟩
      cases derived.deterministic derived'
      rw [Concludes, if_neg (by omega)] at concludes
      rw [concludes]
      rfl

/-- **The parser recognises exactly ordered choice.**  At every index a declared
rule has one outcome and no other.  For every limit on the nesting, the parse of
the rule from there on either exceeds the limit or reports that outcome, and it
never exceeds a limit with room for all pairs of a rule and an index.  A whole
parse is ok exactly if the root succeeds and leaves at most blanks over. -/
theorem parse_recognises (p : Parser) (tokens : List Token) :
    (∀ name start, p.grammar.declares name = true →
      ∃ o, Derives p tokens (.rule name) start o ∧
        (∀ o', Derives p tokens (.rule name) start o' → o' = o) ∧
        ((∃ rule, (p.parseRule name tokens start).outcome =
            .error (.tooDeep p.maxDepth rule)) ∨
          ∃ answer, (p.parseRule name tokens start).outcome = .ok answer ∧
            Reports tokens name start o answer) ∧
        ((p.grammar.rules.length * (tokens.length + 1) : Nat) - (1 : Int) ≤ p.maxDepth →
          ∃ answer, (p.parseRule name tokens start).outcome = .ok answer)) ∧
    ∀ term, (p.parse tokens).outcome = .ok term →
      (term.ok = true ↔ ∃ children stop,
        Derives p tokens (.rule p.grammar.root) 0 (.success children stop) ∧
          tokens.length ≤ p.afterBlanks tokens stop) := by
  refine ⟨?_, fun term h => ok_iff_of_parse h⟩
  intro name start isDeclared
  have declared : name ∈ p.grammar.names := p.grammar.declares_iff.mp isDeclared
  obtain ⟨o, derived⟩ := @exists_derives p tokens name declared start
  refine ⟨o, derived, fun o' h' => (derived.deterministic h').symm,
    parseRule_reports declared derived, fun room => ?_⟩
  rcases p.parseRule_cases tokens name start with ⟨f, -, fault⟩ | ⟨answer, -, ok, -, -⟩
  · exact (attempt_faultless declared start room f fault).elim
  · exact ⟨answer, ok⟩

/-- A comment mark of the query language that nothing closes: the rule is
declared, the default limit has room, and the answer reports the outcome. -/
theorem parse_recognises_open_comment :
    Query.words.parser.grammar.declares "block-comment" = true ∧
      ∃ o answer, Derives Query.words.parser [⟨"PUNCT", "/*", 1, 1⟩] (.rule "block-comment") 0 o ∧
        (Query.words.parser.parseRule "block-comment" [⟨"PUNCT", "/*", 1, 1⟩] 0).outcome =
          .ok answer ∧
        Reports [⟨"PUNCT", "/*", 1, 1⟩] "block-comment" 0 o answer := by
  have declared : Query.words.parser.grammar.declares "block-comment" = true := by
    decide +kernel
  obtain ⟨rules, -⟩ := parse_recognises Query.words.parser [⟨"PUNCT", "/*", 1, 1⟩]
  obtain ⟨o, derived, -, reported, ends⟩ := rules "block-comment" 0 declared
  obtain ⟨answer, ok⟩ := ends (by decide +kernel)
  rcases reported with ⟨rule, deep⟩ | ⟨answer', ok', reports⟩
  · rw [ok] at deep
    cases deep
  · exact ⟨declared, o, answer', derived, ok', reports⟩

end GrammarKit.Parser
