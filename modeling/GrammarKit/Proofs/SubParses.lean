import GrammarKit.Proofs.Conformance
import GrammarKit.Proofs.NestingLimit

/-!
# Terms below a term are parses of their own

A term somewhere below an ok term was made under other rules, with fewer levels of
nesting left, behind tokens that are none of its concern.  It is nevertheless what its
rule **gives on its own**, both at its index and on the tokens from there on alone.

## Main Definitions

* `Parser.Answered` — trees whose nodes are answers of a way to apply rules

## Main Statements

* `Parser.applyRule_of_nodeAt` — a node below an answer is the answer to its rule at its
  own index, with fewer levels left
* `Parser.attempt_of_nodeAt` — and so it is with all levels left
* `Parser.exists_alignment_drop`, `Parser.attempt_drop` — the tokens before an index are
  not looked at
* `Parser.parse_reproducible` — every term below an ok term is what parsing its rule on
  its own gives

## Design Notes

That a node is a success of its rule by the rules of ordered choice is known from
`Derives.of_nodeAt`.  It does not say that the rule can be applied within the limit on
nesting, so the run that made the node is looked at as well: each part of the parser
makes nodes from answers of `apply` and from nothing else.
-/

namespace GrammarKit

/-- A node of a tiling lies between its two ends. -/
theorem Tiles.nodeAt_bounds {tokens : List Token} {ts : List Tree} {i j : Nat}
    (h : Tiles tokens ts i j) {node : Term} {first : Nat} (below : Tree.NodeAt ts i node first) :
    i ≤ first ∧ first + node.tokens.length ≤ j := by
  induction h with
  | nil => cases below
  | leaf _ _ ih =>
      cases below with
      | later behind =>
          have bounds := ih behind
          omega
  | @node rule children rest i k j inner outer ihInner ihOuter =>
      have start := inner.bounds.1
      have stop := outer.bounds.1
      have length := inner.stop_eq
      cases below with
      | here =>
          refine ⟨Nat.le_refl _, ?_⟩
          show first + (Tree.tokensIn children).length ≤ j
          omega
      | inside deeper =>
          have bounds := ihInner deeper
          omega
      | later behind =>
          rw [Tree.tokens, ← length] at behind
          have bounds := ihOuter behind
          omega

namespace Parser

variable {p : Parser} {tokens : List Token} {apply : Apply}

/-! ### Nodes are answers -/

/-- **Trees whose nodes are answers of a way to apply rules**, each at its own index. -/
inductive Answered (apply : Apply) : List Tree → Nat → Nat → Prop where
  | nil {i : Nat} : Answered apply [] i i
  | leaf {t : Token} {rest : List Tree} {i j : Nat} :
      Answered apply rest (i + 1) j → Answered apply (.leaf t :: rest) i j
  | node {rule : String} {children rest : List Tree} {frontier : Frontier} {i k j : Nat} :
      (apply rule i).outcome = .ok ⟨some ⟨children, k⟩, frontier⟩ → Answered apply rest k j →
      Answered apply (.node rule children none :: rest) i j

namespace Answered

variable {ts us : List Tree} {i j k : Nat}

theorem append (first : Answered apply ts i k) (second : Answered apply us k j) :
    Answered apply (ts ++ us) i j := by
  induction first with
  | nil => exact second
  | leaf _ ih => exact .leaf (ih second)
  | node answer _ ih => exact .node answer (ih second)

/-- There is nothing to answer for in leaves. -/
theorem leaves (found : List Token) :
    ∀ i, Answered apply (found.map Tree.leaf) i (i + found.length) := by
  induction found with
  | nil => intro i; exact .nil
  | cons t rest ih =>
      intro i
      have behind := ih (i + 1)
      rw [Nat.add_assoc, Nat.add_comm 1] at behind
      exact .leaf behind

/-- A node below is an answer itself, or it is below an answer. -/
theorem of_nodeAt (sound : p.Sound tokens apply) (h : Answered apply ts i j) {node : Term}
    {first : Nat} (below : Tree.NodeAt ts i node first) :
    ∃ rule children frontier start stop,
      (apply rule start).outcome = .ok ⟨some ⟨children, stop⟩, frontier⟩ ∧
        (node = ⟨rule, children, none⟩ ∧ first = start ∨
          Tree.NodeAt children start node first) := by
  induction h with
  | nil => cases below
  | leaf _ ih =>
      cases below with
      | later behind => exact ih behind
  | @node rule children rest frontier i k j answer _ ih =>
      cases below with
      | here => exact ⟨rule, children, frontier, first, k, answer, Or.inl ⟨rfl, rfl⟩⟩
      | inside deeper => exact ⟨rule, children, frontier, i, k, answer, Or.inr deeper⟩
      | later behind =>
          -- the answer ends behind the leaves of the node
          have derived := sound rule i _ (outcome?_of_ok answer)
          rw [Tree.tokens, ← (derived.tiles rfl).stop_eq] at behind
          exact ih behind

end Answered

/-- The trees that a computation answers with from an index on, if any, are answered. -/
def Recalls (apply : Apply) (i : Nat) (x : Traced Interrupt Attempt) : Prop :=
  ∀ a s, x.outcome = .ok a → a.segment? = some s → Answered apply s.children i s.stop

theorem matchOnce_recalls (name : String) (i : Nat) :
    Recalls apply i (p.matchOnce tokens apply name i) := by
  intro a s h hs
  rw [matchOnce, Traced.outcome_bind_eq_ok] at h
  obtain ⟨⟨_ | inner, frontier⟩, answer, h⟩ := h
  · cases h
    cases hs
  · cases h
    cases hs
    exact (Answered.leaves _ i).append (.node answer .nil)

theorem matchMany_recalls (name : String) (i : Nat) :
    Recalls apply i (p.matchMany tokens apply name i) := by
  intro a s h hs
  rw [matchMany, Traced.outcome_bind_eq_ok] at h
  obtain ⟨⟨_ | first, frontier⟩, once, h⟩ := h
  · cases h
    cases hs
    exact .nil
  · have round := matchOnce_recalls name i _ _ once rfl
    simp only at h
    split at h
    · rw [Traced.outcome_bind_eq_ok] at h
      obtain ⟨⟨_ | more, frontier'⟩, others, h⟩ := h
      · cases h
        cases hs
      · cases h
        cases hs
        exact round.append (matchMany_recalls name first.stop _ _ others rfl)
    · cases h
      cases hs
      exact round
termination_by tokens.length - i
decreasing_by omega

theorem matchToken_recalls (t : Terminal) (i : Nat) :
    Recalls apply i (pure (p.matchToken tokens t i)) := by
  intro a s h hs
  cases h
  unfold matchToken at hs
  simp only at hs
  split at hs
  · split at hs
    · cases hs
      exact (Answered.leaves _ i).append (.leaf .nil)
    · cases hs
  · cases hs

theorem matchUntil_recalls (t : Terminal) (i : Nat) :
    Recalls apply i (matchUntil tokens t i) := by
  intro a s h hs
  unfold matchUntil at h
  simp only at h
  split at h
  · cases h
    cases hs
    exact Answered.leaves _ i
  · cases h

/-- Staying where one is leaves nothing to answer for. -/
theorem Recalls.orStay {x : Traced Interrupt Attempt} {i : Nat} (h : Recalls apply i x)
    (optional : Bool) :
    Recalls apply i (x >>= fun a => pure (if optional then a.orStay i else a)) := by
  intro a s ok hs
  rw [Traced.outcome_bind_eq_ok] at ok
  obtain ⟨⟨_ | inner, frontier⟩, answer, ok⟩ := ok
  · cases ok
    cases optional with
    | false => cases hs
    | true =>
        cases hs
        exact .nil
  · cases ok
    have kept : s = inner := by
      cases optional with
      | false => exact (Option.some.inj hs).symm
      | true => exact (Option.some.inj hs).symm
    rw [kept]
    exact h _ _ answer rfl

theorem matchElement_recalls (e : Element) (i : Nat) :
    Recalls apply i (p.matchElement tokens apply e i) := by
  cases e with
  | reference name optional repeatable =>
      cases repeatable with
      | true => exact matchMany_recalls name i
      | false => exact (matchOnce_recalls name i).orStay optional
  | terminal t marked =>
      cases inverse : t.inverse with
      | true =>
          simp only [matchElement, inverse, if_true]
          exact matchUntil_recalls t i
      | false =>
          simp only [matchElement, inverse, Bool.false_eq_true, if_false]
          exact (matchToken_recalls t i).orStay marked

theorem matchProduction_recalls :
    ∀ (production : Production) (i : Nat),
      Recalls apply i (p.matchProduction tokens apply production i) := by
  intro production
  induction production with
  | nil =>
      intro i a s h hs
      cases h
      cases hs
      exact .nil
  | cons e rest ih =>
      intro i a s h hs
      rw [matchProduction, Traced.outcome_bind_eq_ok] at h
      obtain ⟨⟨_ | first, frontier⟩, element, h⟩ := h
      · cases h
        cases hs
      · simp only at h
        rw [Traced.outcome_bind_eq_ok] at h
        obtain ⟨⟨_ | others, frontier'⟩, sequence, h⟩ := h
        · cases h
          cases hs
        · cases h
          cases hs
          exact (matchElement_recalls e i _ _ element rfl).append
            (ih first.stop _ _ sequence rfl)

theorem matchAlternatives_recalls (label : Nat → String) (start : Nat) :
    ∀ (alternatives : List Production) (number : Nat),
      Recalls apply start (p.matchAlternatives tokens apply label start number alternatives) := by
  intro alternatives
  induction alternatives with
  | nil =>
      intro number a s h hs
      cases h
      cases hs
  | cons production rest ih =>
      intro number a s h hs
      rw [matchAlternatives, Traced.outcome_bind_eq_ok] at h
      obtain ⟨-, -, h⟩ := h
      rw [Traced.outcome_bind_eq_ok] at h
      obtain ⟨⟨_ | first, frontier⟩, decided, h⟩ := h
      · simp only at h
        rw [Traced.outcome_bind_eq_ok] at h
        obtain ⟨others, later, h⟩ := h
        cases h
        exact ih (number + 1) others s later hs
      · cases h
        cases hs
        exact matchProduction_recalls production start _ _ decided rfl

/-- The nodes of an answer are answers with one level less. -/
theorem applyRule_recalls (levels depth : Nat) (name : String) (i : Nat) :
    Recalls (p.applyRule tokens levels (depth + 1)) i
      (p.applyRule tokens (levels + 1) depth name i) := by
  intro a s h hs
  rw [applyRule] at h
  cases hr : p.grammar.rule? name with
  | none =>
      rw [hr] at h
      cases h
  | some r =>
      rw [hr] at h
      obtain ⟨answer, decided, noted⟩ := Traced.outcome_bind_eq_ok.mp h
      cases noted
      exact matchAlternatives_recalls _ i _ 1 _ _ decided hs

/-! ### Nodes below an answer -/

/-- **A node below an answer is the answer to its rule** at its own index, with fewer
levels of nesting left. -/
theorem applyRule_of_nodeAt :
    ∀ {levels depth : Nat} {name : String} {i stop : Nat} {children : List Tree}
      {frontier : Frontier},
      (p.applyRule tokens levels depth name i).outcome = .ok ⟨some ⟨children, stop⟩, frontier⟩ →
      ∀ {node : Term} {first : Nat}, Tree.NodeAt children i node first →
        node.failure = none ∧ ∃ fewer depth' last frontier', fewer ≤ levels ∧
          (p.applyRule tokens fewer depth' node.rule first).outcome =
            .ok ⟨some ⟨node.children, last⟩, frontier'⟩ := by
  intro levels
  induction levels with
  | zero =>
      intro depth name i stop children frontier h
      cases h
  | succ levels ih =>
      intro depth name i stop children frontier h node first below
      have answered := applyRule_recalls levels depth name i _ _ h rfl
      obtain ⟨rule, inner, frontier', start, last, answer, same | deeper⟩ :=
        answered.of_nodeAt (applyRule_sound p tokens levels (depth + 1)) below
      · obtain ⟨rfl, rfl⟩ := same
        exact ⟨rfl, levels, depth + 1, last, frontier', Nat.le_succ levels, answer⟩
      · obtain ⟨ok, fewer, depth', last', frontier'', le, answer'⟩ := ih answer deeper
        exact ⟨ok, fewer, depth', last', frontier'', Nat.le_succ_of_le le, answer'⟩

/-- **With all levels left its rule has the same answer.** -/
theorem attempt_of_nodeAt {name : String} {i stop : Nat} {children : List Tree}
    {frontier : Frontier}
    (h : (p.attempt tokens name i).outcome = .ok ⟨some ⟨children, stop⟩, frontier⟩)
    {node : Term} {first : Nat} (below : Tree.NodeAt children i node first) :
    node.failure = none ∧ ∃ last frontier', (p.attempt tokens node.rule first).outcome =
      .ok ⟨some ⟨node.children, last⟩, frontier'⟩ := by
  obtain ⟨ok, fewer, depth, last, frontier', le, answer⟩ := applyRule_of_nodeAt h below
  refine ⟨ok, last, frontier', ?_⟩
  -- an answer with fewer levels has not been cut short, so that more levels keep it
  rcases applyRule_upToLimit p tokens p.maxDepth le depth 0 node.rule first with
    ⟨limit, rule, ended⟩ | same
  · rw [answer] at ended
    cases ended
  · exact same.trans answer

/-! ### Tokens before an index -/

theorem blanksAt_drop (p : Parser) (tokens : List Token) (n j : Nat) :
    p.blanksAt (tokens.drop n) j = p.blanksAt tokens (n + j) := by
  rw [blanksAt, blanksAt, List.drop_drop]

theorem afterBlanks_drop (p : Parser) (tokens : List Token) (n j : Nat) :
    p.afterBlanks tokens (n + j) = n + p.afterBlanks (tokens.drop n) j := by
  rw [afterBlanks, afterBlanks, blanksAt_drop, Nat.add_assoc]

theorem passed_drop (tokens : List Token) (t : Terminal) (n j : Nat) :
    passed (tokens.drop n) t j = passed tokens t (n + j) := by
  rw [passed, passed, List.drop_drop]

/-- **A parse from an index on, beside one of the tokens from there on**: indices are
shifted, and trees are the same. -/
theorem exists_alignment_drop (p : Parser) (tokens : List Token) {n : Nat}
    (inside : n ≤ tokens.length) :
    ∃ c : Alignment p p tokens (tokens.drop n),
      (∀ i j, c.Here i j ↔ i = n + j) ∧ c.Like = Eq := by
  refine ⟨{ Here := fun i j => i = n + j, Like := Eq, grammar := rfl, maxDepth := rfl,
            last := ?last, skip := ?skip, blanks := ?blanks, order := ?order, token := ?token,
            search := ?search, nil := rfl, append := ?append, node := ?node },
          fun _ _ => Iff.rfl, rfl⟩
  case last =>
    rw [List.length_drop]
    omega
  case skip =>
    rintro _ j rfl
    exact p.afterBlanks_drop tokens n j
  case blanks =>
    rintro _ j rfl
    rw [blanksAt_drop]
  case order =>
    rintro _ j _ l rfl rfl
    rw [afterBlanks_drop]
    omega
  case token =>
    rintro _ j rfl
    rw [afterBlanks_drop, List.getElem?_drop]
    cases tokens[n + p.afterBlanks (tokens.drop n) j]? with
    | none => exact Or.inl ⟨rfl, rfl⟩
    | some t => exact Or.inr ⟨t, t, rfl, rfl, fun _ _ _ => rfl, rfl, Nat.add_assoc n _ 1⟩
  case search =>
    rintro t _ _ j _ _ rfl
    rw [passed_drop, List.length_drop]
    by_cases found : n + j + (passed tokens t (n + j)).length < tokens.length
    · exact Or.inr ⟨found, by omega, rfl, Nat.add_assoc n j _⟩
    · exact Or.inl ⟨found, by omega⟩
  case append =>
    rintro cs _ cs' _ rfl rfl
    rfl
  case node =>
    rintro name cs _ rfl
    rfl

/-- **The tokens before an index are not looked at**: a success from there on is the same
success on the tokens behind them, as many indices earlier. -/
theorem attempt_drop {name : String} {n j stop : Nat} {children : List Tree}
    {frontier : Frontier} (inside : n ≤ tokens.length)
    (h : (p.attempt tokens name (n + j)).outcome = .ok ⟨some ⟨children, stop⟩, frontier⟩) :
    ∃ last frontier', stop = n + last ∧ (p.attempt (tokens.drop n) name j).outcome =
      .ok ⟨some ⟨children, last⟩, frontier'⟩ := by
  obtain ⟨c, isHere, isLike⟩ := p.exists_alignment_drop tokens inside
  have here : c.Here (n + j) j := (isHere _ _).mpr rfl
  rcases c.attempt name here with ⟨e, e', faulty, -, -⟩ | ⟨a, b, ok, ok', agree⟩
  · rw [h] at faulty
    cases faulty
  · rw [h] at ok
    cases ok
    obtain ⟨_ | ⟨children', last⟩, frontier'⟩ := b
    · cases agree.segment
    · cases agree.segment with
      | some related =>
          obtain ⟨like, stops⟩ := related
          rw [isLike] at like
          cases like
          exact ⟨last, frontier', (isHere _ _).mp stops, ok'⟩

/-! ### Terms below a term -/

/-- A success of the parser is one by the rules of ordered choice. -/
theorem derives_of_attempt {name : String} {i stop : Nat} {children : List Tree}
    {frontier : Frontier}
    (h : (p.attempt tokens name i).outcome = .ok ⟨some ⟨children, stop⟩, frontier⟩) :
    Derives p tokens (.rule name) i (.success children stop) :=
  applyRule_sound p tokens _ _ name i _ (outcome?_of_ok h)

/-- An ok term of a whole parse is the answer to the root, with blanks behind it. -/
theorem attempt_of_parse {term : Term} (h : (p.parse tokens).outcome = .ok term)
    (isOk : term.ok = true) :
    ∃ body stop frontier, (p.attempt tokens p.grammar.root 0).outcome =
        .ok ⟨some ⟨body, stop⟩, frontier⟩ ∧
      term.children = body ++ (p.blanksAt tokens stop).map Tree.leaf := by
  obtain ⟨body, stop, derived, rfl⟩ := success_of_parse h isOk
  have sound := applyRule_sound p tokens (p.maxDepth + 1).toNat 0 p.grammar.root 0
  cases hx : (p.attempt tokens p.grammar.root 0).outcome with
  | ok a =>
      obtain ⟨_ | s, frontier⟩ := a
      · cases derived.deterministic (sound _ (outcome?_of_ok hx))
      · cases derived.deterministic (sound _ (outcome?_of_ok hx))
        exact ⟨_, _, frontier, rfl, rfl⟩
  | error e =>
      cases e with
      | fault f =>
          rw [parse, conclude, Traced.outcome_recover, hx] at h
          cases h
      | unterminated start terminator =>
          have aborted : outcome? (p.attempt tokens p.grammar.root 0) =
              some (.abort start terminator) := by rw [outcome?, hx]
          cases derived.deterministic (sound _ aborted)

/-- The parse of a rule that matches has the term of the rule for an answer. -/
theorem parseRule_of_attempt {name : String} {start stop : Nat} {children : List Tree}
    {frontier : Frontier}
    (h : (p.attempt tokens name start).outcome = .ok ⟨some ⟨children, stop⟩, frontier⟩) :
    (p.parseRule name tokens start).outcome = .ok (⟨name, children, none⟩, stop - start) := by
  rw [parseRule, conclude, Traced.outcome_recover, h]
  rfl

/-- **Terms below a term are parses of their own.**  In an ok term of a whole parse, let a
node anywhere below the root stand at index `i`, with or without tokens of its own.  It
spans the tokens from there to some `j`, and it is exactly what its rule gives, with
`j - i` tokens consumed: on all tokens from index `i` on, and on the tokens from there
on alone. -/
theorem parse_reproducible {p : Parser} {tokens : List Token} {term : Term}
    (h : (p.parse tokens).outcome = .ok term) (isOk : term.ok = true) {node : Term} {i : Nat}
    (below : Tree.NodeAt term.children 0 node i) :
    ∃ j, i ≤ j ∧ j ≤ tokens.length ∧ node.ok = true ∧
      node.tokens = (tokens.drop i).take (j - i) ∧
      (p.parseRule node.rule tokens i).outcome = .ok (node, j - i) ∧
      (p.parseRule node.rule (tokens.drop i) 0).outcome = .ok (node, j - i) := by
  obtain ⟨body, stop, frontier, answer, children⟩ := attempt_of_parse h isOk
  have derived := derives_of_attempt answer
  rw [children] at below
  have inBody : Tree.NodeAt body 0 node i := by
    rcases derived.nodeAt_append below with before | behind
    · exact before
    · exact (Tree.not_nodeAt_leaves _ _ behind).elim
  obtain ⟨rule, inner, failure⟩ := node
  obtain ⟨rfl, j, frontier', answer'⟩ := attempt_of_nodeAt answer inBody
  have tiles : Tiles tokens inner i j := (derives_of_attempt answer').tiles rfl
  have inside : i ≤ j ∧ j ≤ tokens.length := by
    have whole := (derived.tiles rfl).bounds
    have part : 0 ≤ i ∧ i + (Tree.tokensIn inner).length ≤ stop :=
      (derived.tiles rfl).nodeAt_bounds inBody
    have length := tiles.stop_eq
    omega
  obtain ⟨last, frontier'', rfl, dropped⟩ := attempt_drop (n := i) (j := 0) (by omega) answer'
  refine ⟨_, inside.1, inside.2, rfl, tiles.tokensIn_eq, parseRule_of_attempt answer', ?_⟩
  rw [Nat.add_sub_cancel_left]
  exact parseRule_of_attempt dropped

/-- Two names with a blank between them, under a limit that leaves no level to spare: the
second one, nested in the first, is what its rule gives on its own. -/
theorem parse_reproducible_names :
    let p := namesInRow.withLimit 2
    let tokens := [⟨"IDENT", "a", 1, 1⟩, ⟨"WS", " ", 1, 2⟩, ⟨"IDENT", "b", 1, 3⟩]
    let node : Term := ⟨"names", [.leaf ⟨"IDENT", "b", 1, 3⟩], none⟩
    ∃ term, (p.parse tokens).outcome = .ok term ∧ term.ok = true ∧
      Tree.NodeAt term.children 0 node 2 ∧ ∃ j, node.tokens = (tokens.drop 2).take (j - 2) ∧
        (p.parseRule "names" tokens 2).outcome = .ok (node, j - 2) ∧
        (p.parseRule "names" (tokens.drop 2) 0).outcome = .ok (node, j - 2) := by
  intro p tokens node
  have parsed : (p.parse tokens).outcome = .ok ⟨"names", [.leaf ⟨"IDENT", "a", 1, 1⟩,
      .leaf ⟨"WS", " ", 1, 2⟩, .node "names" [.leaf ⟨"IDENT", "b", 1, 3⟩] none], none⟩ := by
    dsimp only [p, tokens]
    rfl
  have below : Tree.NodeAt [.leaf ⟨"IDENT", "a", 1, 1⟩, .leaf ⟨"WS", " ", 1, 2⟩,
      .node "names" [.leaf ⟨"IDENT", "b", 1, 3⟩] none] 0 node 2 := .later (.later .here)
  obtain ⟨j, -, -, -, spans, alone, dropped⟩ := parse_reproducible parsed rfl below
  exact ⟨_, parsed, rfl, below, j, spans, alone, dropped⟩

end Parser

end GrammarKit
