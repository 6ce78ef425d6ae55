import GrammarKit.Proofs.BlankRemoval
import GrammarKit.Proofs.Conformance
import GrammarKit.Proofs.ParseTrees

/-!
# The children of a success

A success of a rule is told here by its children alone, wherever it started and ended.
The nodes among the children are successes themselves, so that what is to hold of all
nodes is shown for one node, given that it holds of those among its children.

## Main Definitions

* `Parser.Makes` — a rule makes some children of a part of the tokens

## Main Statements

* `Parser.Makes.induct` — induction from the nodes among the children to their parent
* `Parser.Splits.of_reference`, `Parser.Splits.of_terminal`, … — the children of a
  production, element by element, with the blanks in front of each
* `Parser.Makes.solid_word` — a family of languages that the productions do not lead
  out of holds the tokens of every success, apart from blanks

## Design Notes

Where no token is blank, trees are given by `Parser.Builds`, without a parse.  Here
blanks stay where they are, because a node may be asked for its text.
-/

namespace GrammarKit

namespace Tree

variable {ts : List Tree} {i k : Nat} {node : Term}

/-- A node among trees starts somewhere. -/
theorem exists_nodeAt_of_mem {rule : String} {children : List Tree} {failure : Option Failure}
    (mem : .node rule children failure ∈ ts) (i : Nat) :
    ∃ k, NodeAt ts i ⟨rule, children, failure⟩ k := by
  induction ts generalizing i with
  | nil => cases mem
  | cons t rest ih =>
      rcases List.mem_cons.mp mem with rfl | later
      · exact ⟨i, .here⟩
      · obtain ⟨k, stands⟩ := ih later (i + t.tokens.length)
        exact ⟨k, .later stands⟩

mutual

/-- So does a node that is found by its name in a tree. -/
theorem exists_nodeAt_of_findAll {name : String} : ∀ {t : Tree}, node ∈ t.findAll name →
    ∀ i rest, node.rule = name ∧ ∃ k, NodeAt (t :: rest) i node k
  | .leaf _, mem => by rw [findAll] at mem; cases mem
  | .node rule children failure, mem => by
      intro i rest
      rw [findAll, List.mem_append] at mem
      rcases mem with here | below
      · split at here
        · rename_i same
          rw [List.mem_singleton.mp here]
          exact ⟨same, i, .here⟩
        · cases here
      · obtain ⟨same, k, stands⟩ := exists_nodeAt_of_findAllIn below i
        exact ⟨same, k, .inside stands⟩

/-- So does a node that is found by its name in trees. -/
theorem exists_nodeAt_of_findAllIn {name : String} : ∀ {ts : List Tree},
    node ∈ findAllIn name ts → ∀ i, node.rule = name ∧ ∃ k, NodeAt ts i node k
  | [], mem => by rw [findAllIn] at mem; cases mem
  | t :: rest, mem => by
      intro i
      rw [findAllIn, List.mem_append] at mem
      rcases mem with here | later
      · exact exists_nodeAt_of_findAll here i rest
      · obtain ⟨same, k, stands⟩ := exists_nodeAt_of_findAllIn later (i + t.tokens.length)
        exact ⟨same, k, .later stands⟩

end

/-- The tokens of a node are among those of the trees that it is below. -/
theorem NodeAt.tokens_subset (h : NodeAt ts i node k) : node.tokens ⊆ tokensIn ts := by
  induction h with
  | here =>
      rw [tokensIn]
      exact List.subset_append_left _ _
  | inside _ ih =>
      rw [tokensIn]
      exact List.Subset.trans ih (List.subset_append_left _ _)
  | later _ ih =>
      rw [tokensIn]
      exact List.Subset.trans ih (List.subset_append_right _ _)

end Tree

/-- Tokens without blanks, in two parts. -/
theorem Token.solid_append (types : List String) (u v : List Token) :
    Token.solid types (u ++ v) = Token.solid types u ++ Token.solid types v :=
  List.filter_append ..

theorem Token.solid_blanks {types : List String} {blanks : List Token}
    (h : ∀ t ∈ blanks, t.isBlank types = true) : Token.solid types blanks = [] :=
  List.filter_eq_nil_iff.mpr fun t mem => by simp [h t mem]

namespace Parser

variable {p : Parser} {tokens : List Token} {name : String} {children : List Tree}

/-! ### Successes by their children -/

/-- **A rule makes some children** of a part of the tokens. -/
def Makes (p : Parser) (tokens : List Token) (name : String) (children : List Tree) : Prop :=
  ∃ first stop, Derives p tokens (.rule name) first (.success children stop)

namespace Makes

/-- The rule of a success is declared. -/
theorem exists_rule (h : p.Makes tokens name children) : ∃ r, p.grammar.rule? name = some r := by
  obtain ⟨first, stop, derived⟩ := h
  obtain ⟨r, found, -⟩ := derived.shaped rfl
  exact ⟨r, found⟩

/-- The children split into the segments of a production. -/
theorem splits (h : p.Makes tokens name children) {productions : List Production}
    (declared : (p.grammar.rule? name).map Rule.alternatives = some productions) :
    ∃ production ∈ productions, ∃ i, p.Splits tokens i production children := by
  obtain ⟨first, stop, derived⟩ := h
  obtain ⟨r, found, production, mem, splits⟩ := derived.shaped rfl
  rw [found] at declared
  cases declared
  exact ⟨production, mem, first, splits⟩

/-- **A node below a success is a success.** -/
theorem of_nodeAt (h : p.Makes tokens name children) {node : Term}
    (below : ∀ i, ∃ k, Tree.NodeAt children i node k) :
    node.failure = none ∧ p.Makes tokens node.rule node.children := by
  obtain ⟨first, stop, derived⟩ := h
  obtain ⟨k, stands⟩ := below first
  obtain ⟨ok, stop', derived'⟩ := derived.of_nodeAt rfl stands
  exact ⟨ok, k, stop', derived'⟩

theorem of_mem (h : p.Makes tokens name children) {inner : String} {ts : List Tree}
    {failure : Option Failure} (mem : .node inner ts failure ∈ children) :
    failure = none ∧ p.Makes tokens inner ts :=
  @of_nodeAt p tokens name children h ⟨inner, ts, failure⟩ (Tree.exists_nodeAt_of_mem mem)

/-- The leaves are tokens of the source. -/
theorem tokens_subset (h : p.Makes tokens name children) : Tree.tokensIn children ⊆ tokens := by
  obtain ⟨first, stop, derived⟩ := h
  rw [(derived.tiles rfl).tokensIn_eq]
  exact List.Subset.trans (List.take_subset _ _) (List.drop_subset _ _)

/-- **Induction over successes**, from the nodes among the children to their parent. -/
theorem induct {P : String → List Tree → Prop}
    (step : ∀ name children, p.Makes tokens name children →
      (∀ inner ts, .node inner ts none ∈ children → P inner ts) → P name children)
    {name : String} {children : List Tree} (h : p.Makes tokens name children) :
    P name children := by
  refine step name children h fun inner ts mem => ?_
  have smaller : sizeOf ts < sizeOf children := by
    have lt := List.sizeOf_lt_of_mem mem
    simp only [Tree.node.sizeOf_spec] at lt
    omega
  exact induct step (h.of_mem mem).2
termination_by sizeOf children

end Makes

/-- An ok term is what its root makes, with blanks behind it, and the nodes below it are
successes. -/
theorem makes_of_parse {term : Term} (h : (p.parse tokens).outcome = .ok term)
    (isOk : term.ok = true) :
    ∃ body trailing, p.Makes tokens p.grammar.root body ∧ p.Leads trailing ∧
      term = ⟨p.grammar.root, body ++ trailing.map Tree.leaf, none⟩ ∧
      ∀ node, (∀ i, ∃ k, Tree.NodeAt term.children i node k) →
        node.failure = none ∧ p.Makes tokens node.rule node.children := by
  obtain ⟨body, stop, derived, rfl⟩ := success_of_parse h isOk
  have makes : p.Makes tokens p.grammar.root body := ⟨_, _, derived⟩
  refine ⟨body, _, makes, leads_blanksAt p tokens stop, rfl, fun node below => ?_⟩
  refine makes.of_nodeAt fun i => ?_
  obtain ⟨k, stands⟩ := below i
  rcases Tree.nodeAt_append stands with inside | behind
  · exact ⟨k, inside⟩
  · exact (Tree.not_nodeAt_leaves _ _ behind).elim

/-! ### Elements -/

namespace Splits

variable {i : Nat} {rest : Production} {ts : List Tree}

theorem of_nil (h : p.Splits tokens i [] ts) : ts = [] := by
  cases h with
  | nil => rfl

/-- A reference comes first. -/
theorem of_reference {inner : String} (h : p.Splits tokens i (.rule inner :: rest) ts) :
    ∃ gap us vs, p.Leads gap ∧ ts = gap.map Tree.leaf ++ .node inner us none :: vs ∧
      ∃ j, p.Splits tokens j rest vs := by
  cases h with
  | cons fills others =>
      cases fills with
      | reference round =>
          obtain ⟨gap, us, leads, rfl⟩ := round
          exact ⟨gap, us, _, leads, by rw [List.append_assoc]; rfl, _, others⟩

/-- A terminal comes first. -/
theorem of_terminal {t : Terminal} (skips : p.skipBlanks = true) (direct : t.inverse = false)
    (h : p.Splits tokens i (.one t :: rest) ts) :
    ∃ gap found vs, p.Leads gap ∧ ts = gap.map Tree.leaf ++ .leaf found :: vs ∧
      t.accepts found = true ∧ found.isBlank p.blankTypes = false ∧
      ∃ j, p.Splits tokens j rest vs := by
  cases h with
  | cons fills others =>
      cases fills with
      | token _ leads accepted solid =>
          exact ⟨_, _, _, leads, by rw [List.append_assoc]; rfl, accepted, solid skips, _, others⟩
      | upTo inverse _ _ _ =>
          rw [direct] at inverse
          cases inverse

/-- A repetition comes last. -/
theorem of_many {inner : String} (h : p.Splits tokens i [.many inner] ts) :
    ∃ rounds : List (List Tree), ts = rounds.flatten ∧ ∀ round ∈ rounds, p.Round inner round := by
  cases h with
  | cons fills others =>
      cases fills with
      | repeated each => exact ⟨_, by rw [others.of_nil, List.append_nil], each⟩

end Splits

/-! ### Words -/

section Words

variable {words : String → List Token → Prop} {e : Element} {production : Production}
variable {ts : List Tree} {i stop : Nat}

theorem Round.solid_word (h : p.Round name ts)
    (below : ∀ us, .node name us none ∈ ts →
      words name (Token.solid p.blankTypes (Tree.tokensIn us))) :
    words name (Token.solid p.blankTypes (Tree.tokensIn ts)) := by
  obtain ⟨gap, us, leads, rfl⟩ := h
  have leaf := below us (by simp)
  rwa [Tree.tokensIn_append, Tree.tokensIn_map_leaf, Token.solid_append,
    Token.solid_blanks leads.blank, Tree.tokensIn, Tree.tokens, Tree.tokensIn, List.append_nil]

/-- **The segment of an element is one of its words**, apart from blanks. -/
theorem Fills.solid_spells (skips : p.skipBlanks = true) (h : p.Fills tokens stop e ts)
    (direct : ∀ t marked, e = .terminal t marked → t.inverse = false)
    (below : ∀ inner us, .node inner us none ∈ ts →
      words inner (Token.solid p.blankTypes (Tree.tokensIn us))) :
    e.Spells words (Token.solid p.blankTypes (Tree.tokensIn ts)) := by
  cases h with
  | reference round => exact Or.inl (round.solid_word (below _))
  | leftOut => exact Or.inr ⟨rfl, rfl⟩
  | @repeated inner _ rounds each =>
      refine ⟨rounds.map fun round => Token.solid p.blankTypes (Tree.tokensIn round), ?_, ?_⟩
      · clear each below
        induction rounds with
        | nil => rfl
        | cons round others ih =>
            rw [List.flatten_cons, Tree.tokensIn_append, Token.solid_append, ih, List.map_cons,
              List.flatten_cons]
      · intro w mem
        obtain ⟨round, inside, rfl⟩ := List.mem_map.mp mem
        exact (each round inside).solid_word fun us here =>
          below inner us (List.mem_flatten.mpr ⟨round, inside, here⟩)
  | @token t marked gap found _ leads accepted solid =>
      refine Or.inl ⟨found, ?_, accepted⟩
      rw [Tree.tokensIn_append, Tree.tokensIn_map_leaf, Token.solid_append,
        Token.solid_blanks leads.blank]
      simp [Token.solid, Tree.tokensIn, Tree.tokens, solid skips]
  | omitted _ => exact Or.inr ⟨rfl, rfl⟩
  | upTo inverse _ _ _ =>
      rw [direct _ _ rfl] at inverse
      cases inverse

/-- The children of a production are one of its words, apart from blanks. -/
theorem Splits.solid_spells (skips : p.skipBlanks = true) (h : p.Splits tokens i production ts)
    (direct : ∀ e ∈ production, ∀ t marked, e = .terminal t marked → t.inverse = false)
    (below : ∀ inner us, .node inner us none ∈ ts →
      words inner (Token.solid p.blankTypes (Tree.tokensIn us))) :
    production.Spells words (Token.solid p.blankTypes (Tree.tokensIn ts)) := by
  induction h with
  | nil => rfl
  | cons fills _ ih =>
      rw [List.forall_mem_cons] at direct
      rw [Tree.tokensIn_append, Token.solid_append]
      refine ⟨_, _, rfl, fills.solid_spells skips direct.1 fun inner us mem => ?_,
        ih direct.2 fun inner us mem => ?_⟩
      · exact below inner us (List.mem_append_left _ mem)
      · exact below inner us (List.mem_append_right _ mem)

/-- **The words of successes.**  A family of languages that the productions do not lead
out of holds the tokens of every success, apart from blanks. -/
theorem Makes.solid_word (skips : p.skipBlanks = true) (untilFree : p.grammar.UntilFree)
    (closed : p.grammar.Closed words) (h : p.Makes tokens name children) :
    words name (Token.solid p.blankTypes (Tree.tokensIn children)) := by
  refine Makes.induct (P := fun name children =>
    words name (Token.solid p.blankTypes (Tree.tokensIn children)))
    (fun name children made below => ?_) h
  obtain ⟨r, found⟩ := made.exists_rule
  have declared : (p.grammar.rule? name).map Rule.alternatives = some r.alternatives := by
    rw [found, Option.map_some]
  obtain ⟨production, mem, i, splits⟩ := made.splits declared
  refine closed name _ declared production mem _ (splits.solid_spells skips ?_ below)
  rintro e inside t marked rfl
  exact untilFree r (Grammar.mem_rules_of_rule? found) production mem _ inside

end Words

end Parser

end GrammarKit
