import GrammarKit.Proofs.Termination
import GrammarKit.Proofs.Tracing

/-!
# The limit on nesting decides nothing

A parse that exceeds the limit on the nesting of rules ends at once, wherever it is: in
an alternative that would have been abandoned, or in a round of a repetition that would
not have counted.  A parse that never exceeds it has not been touched by it, and a
higher limit gives **the same answer**.

## Main Definitions

* `Parser.withLimit` — a parser with another limit on the nesting
* `Parser.Exceeds` — a computation that the limit has ended
* `Parser.UpToLimit` — a computation that has the outcome of another one, unless the
  limit has ended that one

## Main Statements

* `Parser.applyRule_upToLimit` — a rule with more levels left has the same outcome,
  unless it exceeds the limit with fewer
* `Parser.parse_withLimit` — so have whole parses and parses of one rule

## Design Notes

The relation has two sides only, as the limit has: nothing is known of the deeper run
where the other one is cut short.  Everything below a rule is a function of the way in
which rules are applied and keeps the relation between two of them; levels are counted
at `applyRule` alone.
-/

namespace GrammarKit.Parser

/-- A parser with another limit on the nesting of rules. -/
def withLimit (p : Parser) (limit : Int) : Parser :=
  { p with maxDepth := limit }

@[simp] theorem grammar_withLimit (p : Parser) (limit : Int) :
    (p.withLimit limit).grammar = p.grammar := rfl

/-! ### Computations up to the limit -/

/-- The limit on the nesting has ended a computation. -/
def Exceeds {α : Type} (x : Traced Interrupt α) : Prop :=
  ∃ limit rule, x.outcome = .error (.fault (.tooDeep limit rule))

/-- **The second computation has the outcome of the first**, unless the limit has ended
the first. -/
def UpToLimit {α : Type} (x y : Traced Interrupt α) : Prop :=
  Exceeds x ∨ y.outcome = x.outcome

namespace UpToLimit

variable {α β : Type}

theorem refl (x : Traced Interrupt α) : UpToLimit x x := Or.inr rfl

theorem bind {x y : Traced Interrupt α} {f g : α → Traced Interrupt β} (first : UpToLimit x y)
    (further : ∀ a, UpToLimit (f a) (g a)) : UpToLimit (x >>= f) (y >>= g) := by
  unfold UpToLimit Exceeds
  rw [Traced.outcome_bind, Traced.outcome_bind]
  rcases first with ⟨limit, rule, ended⟩ | same
  · rw [ended]
    exact Or.inl ⟨limit, rule, rfl⟩
  · rw [same]
    cases x.outcome with
    | error e => exact Or.inr rfl
    | ok a => exact further a

theorem ite {c : Prop} [Decidable c] {x x' y y' : Traced Interrupt α}
    (yes : c → UpToLimit x y) (no : UpToLimit x' y') :
    UpToLimit (if c then x else x') (if c then y else y') := by
  split
  · exact yes ‹c›
  · exact no

/-- Writing other lines makes no difference. -/
theorem note {enabled enabled' : Bool} {line line' : Unit → String} {x y : Traced Interrupt α}
    (h : UpToLimit x y) :
    UpToLimit (Traced.note enabled line >>= fun _ => x)
      (Traced.note enabled' line' >>= fun _ => y) := by
  unfold UpToLimit Exceeds
  rw [Traced.outcome_bind, Traced.outcome_bind]
  exact h

end UpToLimit

/-! ### The parts of the parser -/

section Parts

variable {p : Parser} {tokens : List Token} {apply apply' : Apply} (limit : Int)
  (applies : ∀ name i, UpToLimit (apply name i) (apply' name i))

include applies

theorem matchOnce_upToLimit (name : String) (i : Nat) :
    UpToLimit (p.matchOnce tokens apply name i)
      ((p.withLimit limit).matchOnce tokens apply' name i) :=
  UpToLimit.bind (applies name _) fun _ => .refl _

theorem matchMany_upToLimit (name : String) (i : Nat) :
    UpToLimit (p.matchMany tokens apply name i)
      ((p.withLimit limit).matchMany tokens apply' name i) := by
  rw [matchMany, matchMany]
  refine UpToLimit.bind (matchOnce_upToLimit limit applies name i) fun round => ?_
  cases round.segment? with
  | none => exact .refl _
  | some s =>
      refine UpToLimit.ite ?_ (.refl _)
      intro moved
      exact UpToLimit.bind (matchMany_upToLimit name s.stop) fun _ => .refl _
termination_by tokens.length - i
decreasing_by omega

theorem matchElement_upToLimit (e : Element) (i : Nat) :
    UpToLimit (p.matchElement tokens apply e i)
      ((p.withLimit limit).matchElement tokens apply' e i) := by
  cases e with
  | reference name optional repeatable =>
      cases repeatable with
      | true => exact matchMany_upToLimit limit applies name i
      | false =>
          exact UpToLimit.bind (matchOnce_upToLimit limit applies name i) fun _ => .refl _
  | terminal t marked => exact .refl _

theorem matchProduction_upToLimit :
    ∀ (production : Production) (i : Nat),
      UpToLimit (p.matchProduction tokens apply production i)
        ((p.withLimit limit).matchProduction tokens apply' production i) := by
  intro production
  induction production with
  | nil => intro i; exact .refl _
  | cons e rest ih =>
      intro i
      rw [matchProduction, matchProduction]
      refine UpToLimit.bind (matchElement_upToLimit limit applies e i) fun first => ?_
      cases first.segment? with
      | none => exact .refl _
      | some s => exact UpToLimit.bind (ih s.stop) fun _ => .refl _

theorem matchAlternatives_upToLimit (label label' : Nat → String) (start : Nat) :
    ∀ (alternatives : List Production) (number : Nat),
      UpToLimit (p.matchAlternatives tokens apply label start number alternatives)
        ((p.withLimit limit).matchAlternatives tokens apply' label' start number
          alternatives) := by
  intro alternatives
  induction alternatives with
  | nil => intro number; exact .refl _
  | cons production rest ih =>
      intro number
      rw [matchAlternatives, matchAlternatives]
      refine .note ?_
      refine UpToLimit.bind (matchProduction_upToLimit limit applies production start)
        fun first => ?_
      cases first.segment? with
      | some s => exact .refl _
      | none => exact UpToLimit.bind (ih (number + 1)) fun _ => .refl _

end Parts

/-! ### Rules -/

/-- **A rule with more levels left has the same outcome**, unless it exceeds the limit
with fewer.  How deeply it is nested already shows in the trace alone. -/
theorem applyRule_upToLimit (p : Parser) (tokens : List Token) (limit : Int) :
    ∀ {levels levels' : Nat}, levels ≤ levels' → ∀ (depth depth' : Nat) (name : String) (i : Nat),
      UpToLimit (p.applyRule tokens levels depth name i)
        ((p.withLimit limit).applyRule tokens levels' depth' name i) := by
  intro levels
  induction levels with
  | zero =>
      intro levels' _ depth depth' name i
      -- no level is left: this is the only place where the first run is cut short
      exact Or.inl ⟨p.maxDepth, name, rfl⟩
  | succ levels ih =>
      intro levels' le depth depth' name i
      obtain ⟨more, rfl⟩ : ∃ more, levels' = more + 1 := ⟨levels' - 1, by omega⟩
      rw [applyRule, applyRule, grammar_withLimit]
      cases p.grammar.rule? name with
      | none => exact .refl _
      | some r =>
          refine UpToLimit.bind (matchAlternatives_upToLimit limit ?_ _ _ i _ 1) fun answer =>
            .note (.refl _)
          exact ih (Nat.le_of_succ_le_succ le) (depth + 1) (depth' + 1)

/-- So has a rule under a higher limit. -/
theorem attempt_upToLimit (p : Parser) (tokens : List Token) {limit limit' : Int}
    (le : limit ≤ limit') (name : String) (start : Nat) :
    UpToLimit ((p.withLimit limit).attempt tokens name start)
      ((p.withLimit limit').attempt tokens name start) :=
  applyRule_upToLimit (p.withLimit limit) tokens limit' (Int.toNat_le_toNat (by
    show limit + 1 ≤ limit' + 1
    omega)) 0 0 name start

/-! ### Answers -/

/-- An answer that is missing because rules nest too deeply. -/
def TooDeep {α : Type} (answer : Except Fault α) : Prop :=
  ∃ limit rule, answer = .error (.tooDeep limit rule)

instance {α : Type} (answer : Except Fault α) : Decidable (TooDeep answer) :=
  match answer with
  | .error (.tooDeep limit rule) => isTrue ⟨limit, rule, rfl⟩
  | .error (.undeclared _) => isFalse (by rintro ⟨_, _, same⟩; cases same)
  | .ok _ => isFalse (by rintro ⟨_, _, same⟩; cases same)

variable {p : Parser} {tokens : List Token}

/-- What exceeds the limit has no answer for that reason. -/
theorem tooDeep_of_exceeds {α : Type} {name : String} {x : Traced Interrupt Attempt}
    {answer : Attempt → Traced Fault α} {failed : Term → α} (h : Exceeds x) :
    TooDeep (p.conclude tokens name x answer failed).outcome := by
  obtain ⟨limit, rule, ended⟩ := h
  refine ⟨limit, rule, ?_⟩
  rw [conclude, Traced.outcome_recover, ended]
  rfl

/-- A whole parse under a higher limit has the same answer. -/
theorem outcome_parse_withLimit {limit limit' : Int} (le : limit ≤ limit')
    (h : ¬ TooDeep ((p.withLimit limit).parse tokens).outcome) :
    ((p.withLimit limit').parse tokens).outcome = ((p.withLimit limit).parse tokens).outcome := by
  rcases p.attempt_upToLimit tokens le p.grammar.root 0 with ended | same
  · exact absurd (tooDeep_of_exceeds ended) h
  · exact outcome_conclude p.grammar.root id same fun _ => rfl

/-- So has the parse of one rule. -/
theorem outcome_parseRule_withLimit {limit limit' : Int} (le : limit ≤ limit') {name : String}
    {start : Nat} (h : ¬ TooDeep ((p.withLimit limit).parseRule name tokens start).outcome) :
    ((p.withLimit limit').parseRule name tokens start).outcome =
      ((p.withLimit limit).parseRule name tokens start).outcome := by
  rcases p.attempt_upToLimit tokens le name start with ended | same
  · exact absurd (tooDeep_of_exceeds ended) h
  · exact outcome_conclude name _ same fun _ => rfl

/-- **A limit on nesting only ever turns an answer into a fault.**  If a whole parse does
not exceed a limit, it has a term for an answer, and under every higher limit it has
the same term.  The parse of one rule from any index on likewise has the same answer
under both limits, which for a declared rule is a term and the number of tokens that it
consumed. -/
theorem parse_withLimit (p : Parser) (tokens : List Token) {limit limit' : Int}
    (le : limit ≤ limit') :
    (¬ TooDeep ((p.withLimit limit).parse tokens).outcome →
      ∃ term, ((p.withLimit limit).parse tokens).outcome = .ok term ∧
        ((p.withLimit limit').parse tokens).outcome = .ok term) ∧
    ∀ name start, ¬ TooDeep ((p.withLimit limit).parseRule name tokens start).outcome →
      ((p.withLimit limit').parseRule name tokens start).outcome =
        ((p.withLimit limit).parseRule name tokens start).outcome ∧
      (p.grammar.declares name = true → ∃ term consumed,
        ((p.withLimit limit).parseRule name tokens start).outcome = .ok (term, consumed)) := by
  constructor
  · intro within
    -- the root is declared, so that no fault but the one excluded can stand for an answer
    rcases (p.withLimit limit).parse_cases tokens with ⟨f, faulty, fault⟩ | ⟨term, -, ok, -, -⟩
    · obtain ⟨rule, rfl⟩ := @applyRule_faultsIn_tooDeep (p.withLimit limit) tokens _ _ _ _
        p.grammar.root_mem_names f fault
      exact absurd ⟨_, rule, faulty⟩ within
    · exact ⟨term, ok, (outcome_parse_withLimit le within).trans ok⟩
  · intro name start within
    refine ⟨outcome_parseRule_withLimit le within, fun isDeclared => ?_⟩
    rcases (p.withLimit limit).parseRule_cases tokens name start with
      ⟨f, faulty, fault⟩ | ⟨⟨term, consumed⟩, -, ok, -, -⟩
    · have declared : name ∈ p.grammar.names := p.grammar.declares_iff.mp isDeclared
      obtain ⟨rule, rfl⟩ := @applyRule_faultsIn_tooDeep (p.withLimit limit) tokens _ _ _ _
        declared f fault
      exact absurd ⟨_, rule, faulty⟩ within
    · exact ⟨term, consumed, ok⟩

/-- Names in a row: each one is nested in the one before it. -/
def namesInRow : Parser where
  grammar :=
    { rules := [{ name := "names"
                  alternatives := [[.ofType "IDENT", .rule "names"], [.ofType "IDENT"]] }]
      root := "names" }

/-- Two names nest to a depth of two, since a third one is looked for.  A limit of one
is exceeded by the whole parse and not by a parse from the second name on; a limit of
two is exceeded by neither. -/
theorem parse_withLimit_names :
    let tokens := [⟨"IDENT", "a", 1, 1⟩, ⟨"IDENT", "b", 1, 3⟩]
    TooDeep ((namesInRow.withLimit 1).parse tokens).outcome ∧
      ¬ TooDeep ((namesInRow.withLimit 2).parse tokens).outcome ∧
      (∃ term, ((namesInRow.withLimit 2).parse tokens).outcome = .ok term ∧
        ((namesInRow.withLimit 256).parse tokens).outcome = .ok term) ∧
      ¬ TooDeep ((namesInRow.withLimit 1).parseRule "names" tokens 1).outcome ∧
      ((namesInRow.withLimit 256).parseRule "names" tokens 1).outcome =
        ((namesInRow.withLimit 1).parseRule "names" tokens 1).outcome ∧
      ∃ term consumed, ((namesInRow.withLimit 1).parseRule "names" tokens 1).outcome =
        .ok (term, consumed) := by
  intro tokens
  have whole : ¬ TooDeep ((namesInRow.withLimit 2).parse tokens).outcome := by decide
  have part : ¬ TooDeep ((namesInRow.withLimit 1).parseRule "names" tokens 1).outcome := by
    decide
  have wholes := (parse_withLimit namesInRow tokens (show (2 : Int) ≤ 256 by decide)).1 whole
  obtain ⟨same, answered⟩ :=
    (parse_withLimit namesInRow tokens (show (1 : Int) ≤ 256 by decide)).2 "names" 1 part
  exact ⟨by decide, whole, wholes, part, same, answered (by decide +kernel)⟩

end GrammarKit.Parser
