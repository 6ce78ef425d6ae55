import GrammarKit.Language
import GrammarKit.Proofs.RuleSuccesses

/-!
# Alias rules are transparent to evaluation

A rule without an evaluator passes on the value of its only part.  If each such rule
is an **alias**, with nothing but single references for its productions, then every
ok term stands for a node whose rule has an evaluator: it lies below the term at the
end of a chain of only parts, and evaluating the term is to call that evaluator on
that node.

## Main Definitions

* `Tree.isSolid` — whether a tree is a part that evaluation looks at
* `Language.StandsFor` — the first node with an evaluator along the only parts
* `Language.SilentRulesAlias` — every rule without an evaluator is an alias
* `Language.Calls` — evaluating a term is to call an evaluator

## Main Statements

* `Evaluation.evaluate_through` — a term without an evaluator has the value of its
  only part
* `Language.StandsFor.solid_tokens` — a term and the node it stands for have the same
  tokens apart from blanks
* `Language.evaluate_alias` — evaluating an ok term calls the evaluator of the node it
  stands for

## Design Notes

A chain of aliases cannot go round in circles, because each part lies below the one
before it; so the recursion is on the tree, and neither the grammar's order of rules
nor its freedom from left recursion is asked for.  Blanks may stand on either side
of a part: before it where the parser skipped them, and behind it at the root alone.
-/

namespace GrammarKit

/-- Whether a tree is more than a blank leaf. -/
def Tree.isSolid (blanks : List String) : Tree → Bool
  | .leaf t => !t.isBlank blanks
  | .node _ _ _ => true

namespace Tree

variable {blanks : List String}

theorem filter_isSolid_leaves {gap : List Token} (h : ∀ t ∈ gap, t.isBlank blanks = true) :
    (gap.map leaf).filter (isSolid blanks) = [] := by
  refine List.filter_eq_nil_iff.mpr fun tree mem => ?_
  obtain ⟨t, inGap, rfl⟩ := List.mem_map.mp mem
  simp [isSolid, h t inGap]

/-- Leaves that are left out are blanks. -/
theorem solid_tokensIn_filter (ts : List Tree) :
    Token.solid blanks (tokensIn (ts.filter (isSolid blanks))) =
      Token.solid blanks (tokensIn ts) := by
  induction ts with
  | nil => rfl
  | cons t rest ih =>
      simp only [Token.solid] at ih
      by_cases solid : isSolid blanks t = true
      · simp only [List.filter_cons_of_pos solid, tokensIn, Token.solid, List.filter_append, ih]
      · cases t with
        | leaf token =>
            have blank : token.isBlank blanks = true := by simpa [isSolid] using solid
            simp only [List.filter_cons_of_neg solid, tokensIn, tokens, Token.solid,
              List.filter_append, ih]
            simp [blank]
        | node rule children failure => exact (solid rfl).elim

end Tree

namespace Evaluation

variable {ε α : Type} {sem : Semantics ε α} {blanks : List String} {term inner : Term}

/-- The parts that count are those of the trees that count. -/
theorem filter_isSolid_partsIn (semantics : Option (Semantics ε α)) (ts : List Tree) :
    (partsIn semantics blanks ts).filter Part.isSolid =
      partsIn semantics blanks (ts.filter (Tree.isSolid blanks)) := by
  induction ts with
  | nil => rfl
  | cons t rest ih =>
      cases t with
      | leaf token =>
          by_cases blank : token.isBlank blanks = true
          · rw [partsIn, partOf, if_pos blank, List.filter_cons_of_neg (by simp [Part.isSolid]),
              List.filter_cons_of_neg (by simp [Tree.isSolid, blank]), ih]
          · rw [partsIn, partOf, if_neg blank, List.filter_cons_of_pos rfl,
              List.filter_cons_of_pos (by simp [Tree.isSolid, blank]), partsIn, partOf,
              if_neg blank, ih]
      | node rule children failure =>
          rw [partsIn, partOf, List.filter_cons_of_pos rfl, List.filter_cons_of_pos rfl, partsIn,
            partOf, ih]

/-- A term whose rule has an evaluator has the value that the evaluator gives. -/
theorem evaluate_own {evaluator : Evaluator ε α} (ok : term.failure = none)
    (declared : sem.grammar.declares term.rule = true)
    (found : sem.evaluator? term.rule = some evaluator) :
    evaluate (some sem) blanks term = evaluator (subject (some sem) blanks term) := by
  have here : (subject (some sem) blanks term).term = term := rfl
  simp only [evaluate, Subject.evaluate, here, ok, declared, found, if_true]

/-- **A term whose rule has no evaluator has the value of its only part.** -/
theorem evaluate_through (ok : term.failure = none)
    (declared : sem.grammar.declares term.rule = true)
    (silent : sem.evaluator? term.rule = none)
    (only : term.children.filter (Tree.isSolid blanks) = [inner.toTree]) :
    evaluate (some sem) blanks term = evaluate (some sem) blanks inner := by
  have here : (subject (some sem) blanks term).term = term := rfl
  have part : (subject (some sem) blanks term).onlyPhrase = evaluate (some sem) blanks inner := by
    rw [Subject.onlyPhrase, subject, filter_isSolid_partsIn, only, Term.toTree, partsIn, partOf,
      partsIn]
    rfl
  simp only [evaluate, Subject.evaluate, here, ok, declared, silent, if_true, part]

end Evaluation

namespace Language

variable {ε α : Type} {l : Language ε α}

/-! ### What a term stands for -/

/-- **What a term stands for**: the first node whose rule has an evaluator, from the
term down along parts that are the only ones of their kind. -/
inductive StandsFor (l : Language ε α) : Term → Term → Prop where
  | itself {term : Term} : (l.evaluator? term.rule).isSome = true → StandsFor l term term
  | through {term inner node : Term} : l.evaluator? term.rule = none →
      term.children.filter (Tree.isSolid l.parser.blankTypes) = [inner.toTree] →
      StandsFor l inner node → StandsFor l term node

/-- **Every rule without an evaluator is an alias**: each of its productions is one
reference, neither optional nor repeatable. -/
def SilentRulesAlias (l : Language ε α) : Prop :=
  ∀ r ∈ l.grammar.rules, l.evaluator? r.name = none →
    ∀ production ∈ r.alternatives, ∃ name, production = [Element.rule name]

/-- A term and the node it stands for differ by blanks. -/
theorem StandsFor.solid_tokens {term node : Term} (h : l.StandsFor term node) :
    Token.solid l.parser.blankTypes node.tokens = Token.solid l.parser.blankTypes term.tokens := by
  induction h with
  | itself _ => rfl
  | @through term inner node _ only _ ih =>
      have same := @Tree.solid_tokensIn_filter l.parser.blankTypes term.children
      rw [only, Term.toTree, Tree.tokensIn, Tree.tokens, Tree.tokensIn, List.append_nil] at same
      exact ih.trans same

/-! ### Chains of aliases -/

/-- The children of an alias are blanks and one node. -/
theorem only_node_of_alias {tokens : List Token} {r : Rule} {name : String}
    {children : List Tree} (made : l.parser.Makes tokens name children)
    (found : l.parser.grammar.rule? name = some r)
    (aliases : ∀ production ∈ r.alternatives, ∃ name, production = [Element.rule name]) :
    ∃ inner below, .node inner below none ∈ children ∧
      children.filter (Tree.isSolid l.parser.blankTypes) = [.node inner below none] := by
  obtain ⟨production, mem, i, splits⟩ := made.splits (by rw [found, Option.map_some])
  obtain ⟨inner, rfl⟩ := aliases production mem
  obtain ⟨gap, below, rest, leads, rfl, j, others⟩ := splits.of_reference
  rw [others.of_nil]
  refine ⟨inner, below, by simp, ?_⟩
  rw [List.filter_append, Tree.filter_isSolid_leaves leads.blank]
  rfl

/-- **Evaluating a term is to call an evaluator** on the node that it stands for. -/
def Calls (l : Language ε α) (term : Term) : Prop :=
  ∃ node evaluator, l.StandsFor term node ∧ l.evaluator? node.rule = some evaluator ∧
    l.evaluate term = evaluator (Evaluation.subject (some l.semantics) l.parser.blankTypes node)

/-- **A success of a rule calls an evaluator**, also if further blanks are put among its
children. -/
theorem calls_of_makes (aliases : l.SilentRulesAlias) {tokens : List Token} {name : String}
    {children : List Tree} (made : l.parser.Makes tokens name children) :
    ∀ all : List Tree, all.filter (Tree.isSolid l.parser.blankTypes) =
      children.filter (Tree.isSolid l.parser.blankTypes) → l.Calls ⟨name, all, none⟩ := by
  -- the only part of an alias is one of its children, so chains come to an end
  refine Parser.Makes.induct (P := fun name children => ∀ all : List Tree,
    all.filter (Tree.isSolid l.parser.blankTypes) =
      children.filter (Tree.isSolid l.parser.blankTypes) → l.Calls ⟨name, all, none⟩)
    (fun name children made below all same => ?_) made
  obtain ⟨r, found⟩ := made.exists_rule
  have declared : l.semantics.grammar.declares name = true :=
    Option.isSome_iff_exists.mpr ⟨r, found⟩
  cases own : l.evaluator? name with
  | some evaluator =>
      refine ⟨_, evaluator, .itself (by rw [own]; rfl), own, ?_⟩
      exact Evaluation.evaluate_own rfl declared own
  | none =>
      have silent : l.evaluator? r.name = none := by rw [Grammar.name_of_rule? found, own]
      obtain ⟨inner, parts, mem, only⟩ := only_node_of_alias made found
        (aliases r (Grammar.mem_rules_of_rule? found) silent)
      obtain ⟨node, evaluator, stands, has, value⟩ := below inner parts mem parts rfl
      have part : all.filter (Tree.isSolid l.parser.blankTypes) =
          [Term.toTree ⟨inner, parts, none⟩] := same.trans only
      refine ⟨node, evaluator, .through own part stands, has, ?_⟩
      rw [← value]
      exact Evaluation.evaluate_through rfl declared own part

/-- **Alias rules are transparent to evaluation.**  If every rule without an evaluator
is an alias, then an ok term of a whole parse stands for a node whose rule has an
evaluator, and the value of the term is what that evaluator gives for that node, so no
error of evaluation itself comes first.  The two have the same tokens apart from
blanks. -/
theorem evaluate_alias (aliases : l.SilentRulesAlias) {tokens : List Token} {term : Term}
    (parsed : (l.parser.parse tokens).outcome = .ok term) (isOk : term.ok = true) :
    ∃ node evaluator, l.StandsFor term node ∧ l.evaluator? node.rule = some evaluator ∧
      l.evaluate term =
        evaluator (Evaluation.subject (some l.semantics) l.parser.blankTypes node) ∧
      Token.solid l.parser.blankTypes node.tokens =
        Token.solid l.parser.blankTypes term.tokens := by
  obtain ⟨body, trailing, made, leads, rfl, -⟩ := Parser.makes_of_parse parsed isOk
  have same : (body ++ trailing.map Tree.leaf).filter (Tree.isSolid l.parser.blankTypes) =
      body.filter (Tree.isSolid l.parser.blankTypes) := by
    rw [List.filter_append, Tree.filter_isSolid_leaves leads.blank, List.append_nil]
  obtain ⟨node, evaluator, stands, has, value⟩ := calls_of_makes aliases made _ same
  exact ⟨node, evaluator, stands, has, value, stands.solid_tokens⟩

/-- A document that is an entry, which is a label, or a number in parentheses; only
labels and numbers have a value, which is their text. -/
def entries : Language Empty String where
  parser := { grammar := { rules := [
    { name := "document", alternatives := [[.rule "entry"]], valid := by decide },
    { name := "entry", alternatives := [[.rule "label"], [.rule "number"]], valid := by decide },
    { name := "label", alternatives := [[.ofType "IDENT"]], valid := by decide },
    { name := "number", alternatives := [[.literal "(", .ofType "NUMLIT", .literal ")"]],
      valid := by decide }], root := "document" } }
  evaluator? := fun rule =>
    [("label", fun s => .ok s.text), ("number", fun s => .ok s.text)].lookup rule

/-- A number behind a blank and before another one: the blank in front goes to the
document, whose only other part is the entry. -/
theorem evaluate_alias_number :
    let tokens : List Token := [⟨"WS", " ", 1, 1⟩, ⟨"PUNCT", "(", 1, 2⟩, ⟨"NUMLIT", "7", 1, 3⟩,
      ⟨"PUNCT", ")", 1, 4⟩, ⟨"WS", " ", 1, 5⟩]
    ∃ term node evaluator, (entries.parser.parse tokens).outcome = .ok term ∧ term.ok = true ∧
      entries.StandsFor term node ∧ entries.evaluator? node.rule = some evaluator ∧
      entries.evaluate term =
        evaluator (Evaluation.subject (some entries.semantics) entries.parser.blankTypes node) ∧
      Token.solid entries.parser.blankTypes node.tokens =
        Token.solid entries.parser.blankTypes term.tokens := by
  intro tokens
  have aliases : entries.SilentRulesAlias := by
    intro r mem silent production offered
    simp only [grammar, entries, List.mem_cons, List.not_mem_nil, or_false] at mem
    rcases mem with rfl | rfl | rfl | rfl
    · exact ⟨"entry", List.mem_singleton.mp offered⟩
    · simp only [List.mem_cons, List.not_mem_nil, or_false] at offered
      rcases offered with rfl | rfl
      · exact ⟨"label", rfl⟩
      · exact ⟨"number", rfl⟩
    · cases silent
    · cases silent
  have computed : (entries.parser.parse tokens).outcome.toOption.map Term.ok = some true := by
    decide +kernel
  cases parsed : (entries.parser.parse tokens).outcome with
  | error e => simp [parsed, Except.toOption] at computed
  | ok term =>
      have isOk : term.ok = true := by simpa [parsed, Except.toOption] using computed
      obtain ⟨node, evaluator, result⟩ := evaluate_alias aliases parsed isOk
      exact ⟨term, node, evaluator, rfl, isOk, result⟩

end Language

end GrammarKit
