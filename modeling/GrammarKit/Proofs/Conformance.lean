import GrammarKit.Proofs.Conservation
import GrammarKit.Query.Words

/-!
# Trees conform to their grammar

Every node of an ok term is made by a production of its rule: its children split,
in order, into one **segment** for each element.  A reference gives blanks and one
node, a terminal gives blanks and one token, and a consume-until terminal gives
the tokens up to one that it accepts.

## Main Definitions

* `Tree.NodeAt` — a node anywhere below some trees, with the index of its first token
* `Parser.Fills` — the trees that an element may have for its segment
* `Parser.Splits` — trees that split into the segments of a production
* `Parser.Conforms` — a node whose children split so

## Main Statements

* `Parser.Derives.of_nodeAt` — a node below a success is itself a success of its
  rule, at its own index
* `Parser.Derives.shaped` — the trees of a success have the shape of its goal
* `Parser.parse_conforms` — every node of an ok term conforms to the grammar

## Design Notes

Nothing is said about how blanks are found or how alternatives are chosen: the
predicates speak about trees and the token behind a segment alone.  What is proved
by induction is that nodes are successes; that each of them conforms is then a
matter of one derivation, whatever is above it.
-/

namespace GrammarKit

/-! ### Nodes and where they start -/

/-- **A node anywhere below some trees**, with the index of its first token if the
trees start at a given index. -/
inductive Tree.NodeAt : List Tree → Nat → Term → Nat → Prop where
  | here {rule : String} {children rest : List Tree} {failure : Option Failure} {i : Nat} :
      NodeAt (.node rule children failure :: rest) i ⟨rule, children, failure⟩ i
  | inside {rule : String} {children rest : List Tree} {failure : Option Failure} {i k : Nat}
      {node : Term} :
      NodeAt children i node k → NodeAt (.node rule children failure :: rest) i node k
  | later {t : Tree} {rest : List Tree} {i k : Nat} {node : Term} :
      NodeAt rest (i + t.tokens.length) node k → NodeAt (t :: rest) i node k

namespace Tree

variable {ts us : List Tree} {i k : Nat} {node : Term}

/-- A node below trees side by side is below one of them. -/
theorem nodeAt_append (h : NodeAt (ts ++ us) i node k) :
    NodeAt ts i node k ∨ NodeAt us (i + (tokensIn ts).length) node k := by
  induction ts generalizing i with
  | nil => exact Or.inr h
  | cons t rest ih =>
      rw [List.cons_append] at h
      cases h with
      | here => exact Or.inl .here
      | inside below => exact Or.inl (.inside below)
      | later below =>
          rcases ih below with first | second
          · exact Or.inl (.later first)
          · refine Or.inr ?_
            rwa [tokensIn, List.length_append, ← Nat.add_assoc]

/-- There is no node below leaves. -/
theorem not_nodeAt_leaves (tokens : List Token) (i : Nat) :
    ¬ NodeAt (tokens.map leaf) i node k := by
  induction tokens generalizing i with
  | nil => intro h; cases h
  | cons t rest ih =>
      intro h
      cases h with
      | later below => exact ih _ below

end Tree

/-- A tiling covers as many tokens as it has leaves. -/
theorem Tiles.stop_eq {tokens : List Token} {ts : List Tree} {i j : Nat}
    (h : Tiles tokens ts i j) : j = i + (Tree.tokensIn ts).length := by
  have bounds := h.bounds
  rw [h.tokensIn_eq, List.length_take, List.length_drop]
  omega

namespace Parser

/-! ### Segments -/

/-- Blanks that may stand in front of what an element matches. -/
structure Leads (p : Parser) (blanks : List Token) : Prop where
  blank : ∀ t ∈ blanks, t.isBlank p.blankTypes = true
  solid : p.skipBlanks = false → blanks = []

/-- Blanks and then one node of a rule. -/
def Round (p : Parser) (name : String) (ts : List Tree) : Prop :=
  ∃ blanks children, p.Leads blanks ∧ ts = blanks.map Tree.leaf ++ [.node name children none]

/-- **The segment of an element.**  `stop` is the index behind it. -/
inductive Fills (p : Parser) (tokens : List Token) (stop : Nat) : Element → List Tree → Prop where
  | reference {name : String} {optional : Bool} {ts : List Tree} :
      p.Round name ts → Fills p tokens stop (.reference name optional false) ts
  | leftOut {name : String} : Fills p tokens stop (.reference name true false) []
  | repeated {name : String} {marked : Bool} {rounds : List (List Tree)} :
      (∀ round ∈ rounds, p.Round name round) →
      Fills p tokens stop (.reference name marked true) rounds.flatten
  | token {t : Terminal} {marked : Bool} {blanks : List Token} {found : Token} :
      t.inverse = false → p.Leads blanks → t.accepts found = true →
      (p.skipBlanks = true → found.isBlank p.blankTypes = false) →
      Fills p tokens stop (.terminal t marked) (blanks.map Tree.leaf ++ [.leaf found])
  | omitted {t : Terminal} : t.inverse = false → Fills p tokens stop (.terminal t true) []
  | upTo {t : Terminal} {marked : Bool} {body : List Token} {next : Token} :
      t.inverse = true → (∀ passed ∈ body, t.accepts passed = false) →
      tokens[stop]? = some next → t.accepts next = true →
      Fills p tokens stop (.terminal t marked) (body.map Tree.leaf)

/-- **Trees that split into the segments of a production**, the first of which
starts at an index. -/
inductive Splits (p : Parser) (tokens : List Token) : Nat → Production → List Tree → Prop where
  | nil {i : Nat} : Splits p tokens i [] []
  | cons {e : Element} {rest : Production} {ts us : List Tree} {i : Nat} :
      p.Fills tokens (i + (Tree.tokensIn ts).length) e ts →
      Splits p tokens (i + (Tree.tokensIn ts).length) rest us →
      Splits p tokens i (e :: rest) (ts ++ us)

/-- **A node that conforms to the grammar**, with its first token at an index. -/
structure Conforms (p : Parser) (tokens : List Token) (first : Nat) (node : Term) : Prop where
  ok : node.failure = none
  /-- The leaves are the tokens from there on. -/
  leaves : node.tokens = (tokens.drop first).take node.tokens.length
  /-- The rule is declared and has a production that the children split into. -/
  splits : ∃ r, p.grammar.rule? node.rule = some r ∧
    ∃ production ∈ r.alternatives, p.Splits tokens first production node.children

/-- The trees of a goal from an index on. -/
def Goal.Shaped (p : Parser) (tokens : List Token) : Goal → Nat → List Tree → Prop
  | .rule name, i, ts => ∃ r, p.grammar.rule? name = some r ∧
      ∃ production ∈ r.alternatives, p.Splits tokens i production ts
  | .alternatives productions, i, ts =>
      ∃ production ∈ productions, p.Splits tokens i production ts
  | .sequence elements, i, ts => p.Splits tokens i elements ts
  | .element e, i, ts => p.Fills tokens (i + (Tree.tokensIn ts).length) e ts
  | .once name, _, ts => p.Round name ts
  | .many name, _, ts => ∃ rounds : List (List Tree), ts = rounds.flatten ∧
      ∀ round ∈ rounds, p.Round name round

variable {p : Parser} {tokens : List Token}

/-- What is skipped are blanks, and only where blanks are skipped. -/
theorem leads_blanksAt (p : Parser) (tokens : List Token) (i : Nat) :
    p.Leads (p.blanksAt tokens i) where
  blank := by
    intro t mem
    unfold blanksAt at mem
    split at mem
    · exact List.all_eq_true.mp List.all_takeWhile t mem
    · cases mem
  solid := fun solid => blanksAt_of_solid solid i

/-! ### Successes -/

namespace Derives

/-- **The trees of a success have the shape of its goal.** -/
theorem shaped {goal : Goal} {i : Nat} {o : Outcome} (h : Derives p tokens goal i o) :
    ∀ {children : List Tree} {j : Nat}, o = .success children j →
      goal.Shaped p tokens i children := by
  induction h with
  | rule hr _ ih =>
      intro children j same
      exact ⟨_, hr, ih same⟩
  | exhausted => intro children j same; cases same
  | taken _ _ ih =>
      intro children j same
      exact ⟨_, List.mem_cons_self, ih same⟩
  | passed _ _ _ ih =>
      intro children j same
      obtain ⟨production, mem, splits⟩ := ih same
      exact ⟨production, List.mem_cons_of_mem _ mem, splits⟩
  | done => intro children j same; cases same; exact .nil
  | next first _ ihFirst ihRest =>
      intro children j same
      obtain ⟨more, rfl, rfl⟩ := Outcome.after_eq_success.mp same
      have rest := ihRest rfl
      rw [(first.tiles rfl).stop_eq] at rest
      exact .cons (ihFirst rfl) rest
  | stuck _ fails _ =>
      intro children j same
      rw [same] at fails
      exact (fails trivial).elim
  | @once name i _ _ _ =>
      intro children j same
      obtain ⟨inner, rfl, rfl⟩ := Outcome.node_eq_success.mp same
      exact ⟨_, inner, leads_blanksAt p tokens i, rfl⟩
  | plain _ ih => intro children j same; exact .reference (ih same)
  | optional _ ih =>
      intro children j same
      rcases Outcome.orStay_eq_success.mp same with rfl | ⟨-, rfl, -⟩
      · exact .reference (ih rfl)
      · exact .leftOut
  | repeatable _ ih =>
      intro children j same
      obtain ⟨rounds, rfl, each⟩ := ih same
      exact .repeated each
  | again _ _ _ ihFirst ihRest =>
      intro children j same
      obtain ⟨more, rfl, rfl⟩ := Outcome.after_eq_success.mp same
      obtain ⟨rounds, rfl, each⟩ := ihRest rfl
      exact ⟨_ :: rounds, rfl, List.forall_mem_cons.mpr ⟨ihFirst rfl, each⟩⟩
  | last _ ih =>
      intro children j same
      exact ⟨[children], by simp, List.forall_mem_singleton.mpr (ih same)⟩
  | ended _ fails _ =>
      intro children j same
      rcases Outcome.orStay_eq_success.mp same with rfl | ⟨-, rfl, -⟩
      · exact (fails trivial).elim
      · exact ⟨[], rfl, List.forall_mem_nil _⟩
  | @token t marked i found direct stands accepted =>
      intro children j same
      cases same
      exact .token direct (leads_blanksAt p tokens i) accepted
        fun skips => not_isBlank_afterBlanks skips stands
  | @mismatch t marked i direct _ =>
      intro children j same
      cases marked with
      | true => cases same; exact .omitted direct
      | false => cases same
  | @upTo t marked i j found inverse le stands accepted before =>
      intro children k same
      cases same
      -- the body ends where the token stands that is accepted
      have inside := (List.getElem?_eq_some_iff.mp stands).1
      have stop :
          i + (Tree.tokensIn (((tokens.drop i).take (j - i)).map Tree.leaf)).length = j := by
        rw [Tree.tokensIn_map_leaf, List.length_take, List.length_drop]
        omega
      refine .upTo inverse ?_ (by rwa [stop]) accepted
      intro passed mem
      obtain ⟨k, lt, rfl⟩ := List.mem_iff_getElem.mp mem
      rw [List.length_take, List.length_drop] at lt
      refine before (i + k) (Nat.le_add_right i k) (by omega) _ ?_
      rw [List.getElem_take, List.getElem_drop]
      exact List.getElem?_eq_getElem (by omega)
  | unterminated _ _ => intro children j same; cases same

/-- What follows the trees of a success starts where the success ended. -/
theorem nodeAt_append {goal : Goal} {i k : Nat} {ts us : List Tree} {node : Term} {first : Nat}
    (front : Derives p tokens goal i (.success ts k))
    (below : Tree.NodeAt (ts ++ us) i node first) :
    Tree.NodeAt ts i node first ∨ Tree.NodeAt us k node first := by
  rw [(front.tiles rfl).stop_eq]
  exact Tree.nodeAt_append below

/-- **A node below a success is itself a success** of its rule, at its own index. -/
theorem of_nodeAt {goal : Goal} {i : Nat} {o : Outcome} (h : Derives p tokens goal i o) :
    ∀ {children : List Tree} {j : Nat}, o = .success children j →
      ∀ {node : Term} {first : Nat}, Tree.NodeAt children i node first →
        node.failure = none ∧
          ∃ stop, Derives p tokens (.rule node.rule) first (.success node.children stop) := by
  induction h with
  | rule _ _ ih => exact ih
  | exhausted => intro children j same; cases same
  | taken _ _ ih => exact ih
  | passed _ _ _ ih => exact ih
  | done => intro children j same node first below; cases same; cases below
  | next front _ ihFirst ihRest =>
      intro children j same node first below
      obtain ⟨more, rfl, rfl⟩ := Outcome.after_eq_success.mp same
      rcases front.nodeAt_append below with before | behind
      · exact ihFirst rfl before
      · exact ihRest rfl behind
  | stuck _ _ ih => exact ih
  | @once name i o inner ih =>
      intro children j same node first below
      obtain ⟨trees, rfl, rfl⟩ := Outcome.node_eq_success.mp same
      rcases Tree.nodeAt_append below with blank | behind
      · exact (Tree.not_nodeAt_leaves _ _ blank).elim
      · rw [Tree.tokensIn_map_leaf] at behind
        cases behind with
        | here => exact ⟨rfl, j, inner⟩
        | inside deeper => exact ih rfl deeper
        | later none => cases none
  | plain _ ih => exact ih
  | optional _ ih =>
      intro children j same node first below
      rcases Outcome.orStay_eq_success.mp same with rfl | ⟨-, rfl, -⟩
      · exact ih rfl below
      · cases below
  | repeatable _ ih => exact ih
  | again front _ _ ihFirst ihRest =>
      intro children j same node first below
      obtain ⟨more, rfl, rfl⟩ := Outcome.after_eq_success.mp same
      rcases front.nodeAt_append below with before | behind
      · exact ihFirst rfl before
      · exact ihRest rfl behind
  | last _ ih => exact ih
  | ended _ fails _ =>
      intro children j same node first below
      rcases Outcome.orStay_eq_success.mp same with rfl | ⟨-, rfl, -⟩
      · exact (fails trivial).elim
      · cases below
  | token _ _ _ =>
      intro children j same node first below
      cases same
      rcases Tree.nodeAt_append below with blank | behind
      · exact (Tree.not_nodeAt_leaves _ _ blank).elim
      · exact (Tree.not_nodeAt_leaves [_] _ behind).elim
  | mismatch _ _ =>
      intro children j same node first below
      split at same
      · cases same
        cases below
      · cases same
  | upTo _ _ _ _ _ =>
      intro children j same node first below
      cases same
      exact (Tree.not_nodeAt_leaves _ _ below).elim
  | unterminated _ _ => intro children j same; cases same

/-- The node of a success of a rule conforms. -/
theorem conforms {name : String} {children : List Tree} {i j : Nat}
    (h : Derives p tokens (.rule name) i (.success children j)) :
    p.Conforms tokens i ⟨name, children, none⟩ where
  ok := rfl
  leaves := by
    have tiles := h.tiles rfl
    have leaves := tiles.tokensIn_eq
    rw [show j - i = (Tree.tokensIn children).length by rw [tiles.stop_eq]; omega] at leaves
    exact leaves
  splits := h.shaped rfl

/-- So do all nodes below it. -/
theorem conforms_below {name : String} {children : List Tree} {i j : Nat}
    (h : Derives p tokens (.rule name) i (.success children j)) {node : Term} {first : Nat}
    (below : Tree.NodeAt children i node first) : p.Conforms tokens first node := by
  obtain ⟨rule, inner, failure⟩ := node
  obtain ⟨rfl, stop, derived⟩ := h.of_nodeAt rfl below
  exact derived.conforms

end Derives

/-! ### Terms -/

/-- The nodes of an ok term of one rule conform. -/
theorem conforms_of_parseRule {name : String} {start consumed : Nat} {term : Term}
    (h : (p.parseRule name tokens start).outcome = .ok (term, consumed)) (isOk : term.ok = true)
    {node : Term} {first : Nat} (below : Tree.NodeAt [term.toTree] start node first) :
    p.Conforms tokens first node := by
  rcases p.parseRule_cases tokens name start with
    ⟨f, faulty, -⟩ | ⟨answer, o, answered, derived, reports⟩
  · rw [h] at faulty
    cases faulty
  · rw [h] at answered
    cases answered
    cases o with
    | success children stop =>
        obtain ⟨rfl, -⟩ := reports
        cases below with
        | here => exact derived.conforms
        | inside deeper => exact derived.conforms_below deeper
        | later none => cases none
    | failure =>
        obtain ⟨⟨frontier, rfl⟩, -⟩ := reports
        cases isOk
    | abort position terminator =>
        obtain ⟨rfl, -⟩ := reports
        cases isOk

/-- An ok term of a whole parse is a success of the root, with blanks behind it. -/
theorem success_of_parse {term : Term} (h : (p.parse tokens).outcome = .ok term)
    (isOk : term.ok = true) :
    ∃ body stop, Derives p tokens (.rule p.grammar.root) 0 (.success body stop) ∧
      term = ⟨p.grammar.root, body ++ (p.blanksAt tokens stop).map Tree.leaf, none⟩ := by
  rcases p.parse_cases tokens with ⟨f, faulty, -⟩ | ⟨term', o, answered, derived, concludes⟩
  · rw [h] at faulty
    cases faulty
  · rw [h] at answered
    cases answered
    cases o with
    | success body stop =>
        rw [Concludes] at concludes
        split at concludes
        · obtain ⟨frontier, rfl⟩ := concludes
          cases isOk
        · exact ⟨body, stop, derived, concludes⟩
    | failure =>
        obtain ⟨frontier, rfl⟩ := concludes
        cases isOk
    | abort position terminator =>
        obtain rfl := concludes
        cases isOk

/-- **Every tree conforms to its grammar.**  Each node of an ok term, the term itself
included, has a declared rule and children that split into the segments of one of
the rule's productions.  The term of a whole parse has further blanks behind its
segments, and no other node has. -/
theorem parse_conforms (p : Parser) (tokens : List Token) :
    (∀ name start consumed term,
      (p.parseRule name tokens start).outcome = .ok (term, consumed) → term.ok = true →
      ∀ node first, Tree.NodeAt [term.toTree] start node first → p.Conforms tokens first node) ∧
    ∀ term, (p.parse tokens).outcome = .ok term → term.ok = true →
      (∃ body trailing, term.children = body ++ trailing.map Tree.leaf ∧ p.Leads trailing ∧
        p.Conforms tokens 0 { term with children := body }) ∧
      ∀ node first, Tree.NodeAt term.children 0 node first → p.Conforms tokens first node := by
  refine ⟨fun name start consumed term h isOk node first => conforms_of_parseRule h isOk, ?_⟩
  intro term h isOk
  obtain ⟨body, stop, derived, rfl⟩ := success_of_parse h isOk
  refine ⟨⟨body, _, rfl, leads_blanksAt p tokens stop, derived.conforms⟩, ?_⟩
  intro node first below
  rcases derived.nodeAt_append below with inside | behind
  · exact derived.conforms_below inside
  · exact (Tree.not_nodeAt_leaves _ _ behind).elim

/-- The body of a comment up to its closing mark, as the parse of one rule, and a
sign and a numeral among blanks, as a whole parse: the sign starts at the second
token, and a blank is left behind the segments. -/
theorem parse_conforms_comment_sign :
    (let tokens := [⟨"PUNCT", "/*", 1, 1⟩, ⟨"IDENT", "x", 1, 3⟩, ⟨"PUNCT", "*/", 1, 4⟩]
      let term : Term := ⟨"block-comment", tokens.map Tree.leaf, none⟩
      (Query.words.parser.parseRule "block-comment" tokens 0).outcome = .ok (term, 3) ∧
        Query.words.parser.Conforms tokens 0 term) ∧
    let p : Parser := { grammar := { rules := Calculator.rules, root := "integer-constant" } }
    let tokens := [⟨"WS", " ", 1, 1⟩, ⟨"PUNCT", "-", 1, 2⟩, ⟨"NUMLIT", "1", 1, 3⟩,
      ⟨"WS", " ", 1, 4⟩]
    ∃ term node, (p.parse tokens).outcome = .ok term ∧ term.ok = true ∧
      (∃ body trailing, term.children = body ++ trailing.map Tree.leaf ∧ p.Leads trailing ∧
        p.Conforms tokens 0 { term with children := body }) ∧
      Tree.NodeAt term.children 0 node 1 ∧ node.rule = "sign" ∧ p.Conforms tokens 1 node := by
  constructor
  · intro tokens term
    have parsed : (Query.words.parser.parseRule "block-comment" tokens 0).outcome =
        .ok (term, 3) := rfl
    exact ⟨parsed, (parse_conforms _ _).1 _ _ _ _ parsed rfl _ _ .here⟩
  · intro p tokens
    have parsed : (p.parse tokens).outcome = .ok ⟨"integer-constant",
        [.leaf ⟨"WS", " ", 1, 1⟩, .node "sign" [.leaf ⟨"PUNCT", "-", 1, 2⟩] none,
          .leaf ⟨"NUMLIT", "1", 1, 3⟩, .leaf ⟨"WS", " ", 1, 4⟩], none⟩ := by
      dsimp only [p, tokens]
      rfl
    obtain ⟨segments, nodes⟩ := (parse_conforms p tokens).2 _ parsed rfl
    exact ⟨_, _, parsed, rfl, segments, .later .here, rfl, nodes _ _ (.later .here)⟩

end Parser

end GrammarKit
