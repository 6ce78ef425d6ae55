import GrammarKit.Term

/-!
# Queries of a tree agree

A node below a term has an **address**, the indices of the children on the way down to
it, and pre-order is the lexicographic order of addresses.  Told by addresses, the
queries of a term are one search: `findAll` goes on inside the nodes that it finds,
`words` does not, and `find?` takes the first of them.

## Main Definitions

* `Tree.node?`, `Term.node?` — the node at an address
* `Term.Matches` — an address below a term of a node with a rule name
* `Term.Outermost` — an address that matches, below none that does
* `Term.InPreorder` — the nodes at the addresses with a property, in pre-order
* `Tree.hits` — the addresses of a search, each with its node

## Main Statements

* `Tree.mem_hits_iff` — what a search finds, by address
* `Tree.sorted_hits` — a search finds addresses in their order
* `Tree.findAll_eq_hits`, `Tree.words_eq_hits` — the queries are searches
* `Term.queries_agree` — what the queries of a term have to do with each other

## Design Notes

The address of a tree's own node is empty, so that of a node below a term begins with the
index of a child.  What is at an address is defined by recursion on the address and knows
nothing of the order in which trees are searched; the two meet in `mem_hits_iff`.
-/

namespace GrammarKit

/-! ### Addresses -/

/-- **The node at an address** of a tree: an index for each step down to a child. -/
def Tree.node? : Tree → List Nat → Option Term
  | .leaf _, _ => none
  | .node rule children failure, [] => some ⟨rule, children, failure⟩
  | .node _ children _, i :: address => children[i]?.bind fun child => child.node? address

namespace Tree

variable {name : String} {nested : Bool} {t : Tree} {ts : List Tree} {address : List Nat}
  {node : Term}

mutual

/-- **A search for a rule name**: each node that has it, with its address, before the nodes
below it.  Only if `nested` says so does the search go on below a node that it has found. -/
def hits (name : String) (nested : Bool) : Tree → List (List Nat × Term)
  | .leaf _ => []
  | .node rule children failure =>
    if rule = name then
      ([], ⟨rule, children, failure⟩) :: if nested then hitsIn name nested 0 children else []
    else hitsIn name nested 0 children

/-- A search in trees, the first of which has the given index. -/
def hitsIn (name : String) (nested : Bool) : Nat → List Tree → List (List Nat × Term)
  | _, [] => []
  | i, t :: rest =>
    (hits name nested t).map (fun hit => (i :: hit.1, hit.2)) ++ hitsIn name nested (i + 1) rest

end

/-! ### What a search finds -/

theorem mem_hitsIn_iff {k : Nat} :
    (address, node) ∈ hitsIn name nested k ts ↔ ∃ i below child, address = (k + i) :: below ∧
      ts[i]? = some child ∧ (below, node) ∈ hits name nested child := by
  induction ts generalizing k with
  | nil => simp [hitsIn]
  | cons t rest ih =>
      rw [hitsIn, List.mem_append, ih, List.mem_map]
      constructor
      · rintro (⟨⟨below, found⟩, mem, same⟩ | ⟨i, below, child, rfl, stands, mem⟩)
        · cases same
          exact ⟨0, below, t, rfl, rfl, mem⟩
        · exact ⟨i + 1, below, child, by rw [Nat.add_right_comm, Nat.add_assoc], stands, mem⟩
      · rintro ⟨i, below, child, rfl, stands, mem⟩
        cases i with
        | zero =>
            cases stands
            exact Or.inl ⟨(below, node), mem, rfl⟩
        | succ i =>
            exact Or.inr ⟨i, below, child, by rw [Nat.add_right_comm, Nat.add_assoc], stands, mem⟩

section Node

variable {rule : String} {children : List Tree} {failure : Option Failure} {i : Nat}

/-- A search finds a node that has the name, and no other node at the empty address. -/
theorem mem_hits_nil_iff :
    ([], node) ∈ hits name nested (.node rule children failure) ↔
      rule = name ∧ node = ⟨rule, children, failure⟩ := by
  have deeper : ([], node) ∉ hitsIn name nested 0 children := by
    rw [mem_hitsIn_iff]
    rintro ⟨i, below, child, same, -⟩
    cases same
  rw [hits]
  by_cases same : rule = name
  · cases nested <;> simp [same, deeper]
  · simp [same, deeper]

/-- A search goes on below a node that does not have the name, or in any case if it is
nested. -/
theorem mem_hits_cons_iff :
    (i :: address, node) ∈ hits name nested (.node rule children failure) ↔
      (rule = name → nested = true) ∧
        ∃ child, children[i]? = some child ∧ (address, node) ∈ hits name nested child := by
  have deeper : (i :: address, node) ∈ hitsIn name nested 0 children ↔
      ∃ child, children[i]? = some child ∧ (address, node) ∈ hits name nested child := by
    rw [mem_hitsIn_iff]
    constructor
    · rintro ⟨k, below, child, same, found⟩
      rw [Nat.zero_add] at same
      cases same
      exact ⟨child, found⟩
    · rintro ⟨child, found⟩
      exact ⟨i, address, child, by rw [Nat.zero_add], found⟩
  rw [hits, ← deeper]
  by_cases same : rule = name
  · cases nested <;> simp [same]
  · simp [same]

end Node

/-- Whether all addresses above one have a property, told by the first step. -/
theorem forall_above_cons_iff {P : List Nat → Prop} {i : Nat} :
    (∀ above, above <+: i :: address → above ≠ i :: address → P above) ↔
      P [] ∧ ∀ above, above <+: address → above ≠ address → P (i :: above) := by
  constructor
  · intro all
    refine ⟨all [] List.nil_prefix (by simp), fun above leads other => all _ ?_ ?_⟩
    · exact (List.prefix_cons_inj i).mpr leads
    · rintro ⟨⟩
      exact other rfl
  · rintro ⟨first, further⟩ above leads other
    rcases List.prefix_cons_iff.mp leads with rfl | ⟨rest, rfl, below⟩
    · exact first
    · refine further rest below ?_
      rintro rfl
      exact other rfl

/-- No node above an address has a rule name. -/
def Clear (t : Tree) (name : String) (address : List Nat) : Prop :=
  ∀ above, above <+: address → above ≠ address → (t.node? above).map Term.rule ≠ some name

theorem clear_nil (t : Tree) (name : String) : t.Clear name [] :=
  fun _ leads other => (other (List.prefix_nil.mp leads)).elim

theorem clear_cons_iff {rule : String} {children : List Tree} {failure : Option Failure}
    {i : Nat} :
    (Tree.node rule children failure).Clear name (i :: address) ↔
      rule ≠ name ∧ ∀ child ∈ children[i]?, child.Clear name address := by
  rw [Clear, forall_above_cons_iff]
  refine and_congr (by simp [node?]) ?_
  simp only [node?]
  cases children[i]? with
  | none => simp
  | some child => simp [Clear]

/-- **What a search finds**: the nodes that have the name and, unless it is nested, are
below none that has it. -/
theorem mem_hits_iff :
    (address, node) ∈ hits name nested t ↔
      t.node? address = some node ∧ node.rule = name ∧
        (nested = false → t.Clear name address) := by
  -- on the address, not on the tree: each step of it goes down to one child
  induction address generalizing t with
  | nil =>
      cases t with
      | leaf token => simp [hits, node?]
      | node rule children failure =>
          rw [mem_hits_nil_iff, node?]
          constructor
          · rintro ⟨same, rfl⟩
            exact ⟨rfl, same, fun _ => clear_nil _ name⟩
          · rintro ⟨⟨⟩, same, -⟩
            exact ⟨same, rfl⟩
  | cons i address ih =>
      cases t with
      | leaf token => simp [hits, node?]
      | node rule children failure =>
          rw [mem_hits_cons_iff, node?, clear_cons_iff, Option.bind_eq_some_iff]
          constructor
          · rintro ⟨goesOn, child, stands, mem⟩
            obtain ⟨found, named, clear⟩ := ih.mp mem
            refine ⟨⟨child, stands, found⟩, named, fun outer => ⟨fun same => ?_, ?_⟩⟩
            · rw [goesOn same] at outer
              cases outer
            · rw [stands]
              rintro _ ⟨⟩
              exact clear outer
          · rintro ⟨⟨child, stands, found⟩, named, clear⟩
            refine ⟨fun same => ?_, child, stands, ih.mpr ⟨found, named, fun outer => ?_⟩⟩
            · cases nested with
              | true => rfl
              | false => exact ((clear rfl).1 same).elim
            · exact (clear outer).2 child stands

/-! ### The order of a search -/

mutual

/-- **A search finds addresses in their order.** -/
theorem sorted_hits (name : String) (nested : Bool) :
    ∀ t : Tree, ((hits name nested t).map Prod.fst).Pairwise (List.Lex (· < ·))
  | .leaf _ => .nil
  | .node rule children failure => by
      have below := sorted_hitsIn name nested 0 children
      have first : ∀ address ∈ (hitsIn name nested 0 children).map Prod.fst,
          List.Lex (· < ·) [] address := by
        intro address mem
        obtain ⟨⟨_, node⟩, found, rfl⟩ := List.mem_map.mp mem
        obtain ⟨i, deeper, child, rfl, -⟩ := mem_hitsIn_iff.mp found
        exact .nil
      rw [hits]
      split
      · cases nested with
        | true => exact List.pairwise_cons.mpr ⟨first, below⟩
        | false => exact List.pairwise_singleton _ _
      · exact below

theorem sorted_hitsIn (name : String) (nested : Bool) :
    ∀ (i : Nat) (ts : List Tree),
      ((hitsIn name nested i ts).map Prod.fst).Pairwise (List.Lex (· < ·))
  | _, [] => .nil
  | i, t :: rest => by
      rw [hitsIn, List.map_append, List.map_map]
      -- what is found in the first tree begins with its index, all else with a greater one
      refine List.pairwise_append.mpr ⟨?_, sorted_hitsIn name nested (i + 1) rest, ?_⟩
      · have inside := sorted_hits name nested t
        rw [List.pairwise_map] at inside ⊢
        exact inside.imp .cons
      · intro address mem later mem'
        obtain ⟨hit, -, rfl⟩ := List.mem_map.mp mem
        obtain ⟨⟨_, node⟩, found, rfl⟩ := List.mem_map.mp mem'
        obtain ⟨k, deeper, child, rfl, -⟩ := mem_hitsIn_iff.mp found
        exact .rel (by omega)

end

/-! ### Queries are searches -/

mutual

/-- All nodes with a rule name are what a nested search finds. -/
theorem findAll_eq_hits (name : String) :
    ∀ t : Tree, findAll name t = (hits name true t).map Prod.snd
  | .leaf _ => rfl
  | .node rule children failure => by
      rw [findAll, hits, findAllIn_eq_hits name 0 children]
      split
      · rfl
      · rfl

theorem findAllIn_eq_hits (name : String) :
    ∀ (i : Nat) (ts : List Tree), findAllIn name ts = (hitsIn name true i ts).map Prod.snd
  | _, [] => rfl
  | i, t :: rest => by
      rw [findAllIn, hitsIn, findAll_eq_hits name t, findAllIn_eq_hits name (i + 1) rest,
        List.map_append, List.map_map]
      rfl

end

mutual

/-- The outermost nodes with a rule name are what a search finds that is not nested. -/
theorem words_eq_hits (blanks : List String) (name : String) :
    ∀ t : Tree, words blanks name t =
      (hits name false t).map fun hit => solidTexts blanks hit.2.tokens
  | .leaf _ => rfl
  | .node rule children failure => by
      rw [words, hits, wordsIn_eq_hits blanks name 0 children]
      split
      · rfl
      · rfl

theorem wordsIn_eq_hits (blanks : List String) (name : String) :
    ∀ (i : Nat) (ts : List Tree), wordsIn blanks name ts =
      (hitsIn name false i ts).map fun hit => solidTexts blanks hit.2.tokens
  | _, [] => rfl
  | i, t :: rest => by
      rw [wordsIn, hitsIn, words_eq_hits blanks name t, wordsIn_eq_hits blanks name (i + 1) rest,
        List.map_append, List.map_map]
      rfl

end

mutual

/-- The search that stops at the first node finds the first of all. -/
theorem find?_eq_head? (name : String) : ∀ t : Tree, find? name t = (findAll name t).head?
  | .leaf _ => rfl
  | .node rule children failure => by
      rw [find?, findAll, findIn?_eq_head? name children]
      split
      · rfl
      · rfl

theorem findIn?_eq_head? (name : String) :
    ∀ ts : List Tree, findIn? name ts = (findAllIn name ts).head?
  | [] => rfl
  | t :: rest => by
      rw [findIn?, findAllIn, find?_eq_head? name t, findIn?_eq_head? name rest,
        List.head?_append]
      cases (findAll name t).head? with
      | none => rfl
      | some term => rfl

end

/-- The words of single children are those of all leaves. -/
theorem flatten_directWords (blanks : List String) (ts : List Tree) :
    (ts.flatMap (directWords blanks)).flatten = solidTexts blanks (tokensIn ts) := by
  induction ts with
  | nil => rfl
  | cons t rest ih =>
      rw [List.flatMap_cons, List.flatten_append, ih, tokensIn, solidTexts, solidTexts,
        List.filter_append, List.map_append]
      congr 1
      cases t with
      | leaf token => cases blank : token.isBlank blanks <;> simp [directWords, tokens, blank]
      | node rule children failure => simp [directWords, tokens, solidTexts]

end Tree

namespace Term

variable {t : Term} {name : String} {address : List Nat} {node : Term}

/-! ### Queries of a term -/

/-- The node at an address, from a term down. -/
def node? (t : Term) (address : List Nat) : Option Term := t.toTree.node? address

/-- **The address of a node below a term** whose rule has the given name. -/
def Matches (t : Term) (name : String) (address : List Nat) : Prop :=
  address ≠ [] ∧ (t.node? address).map rule = some name

/-- **The address of an outermost node**: it matches and none above it does. -/
def Outermost (t : Term) (name : String) (address : List Nat) : Prop :=
  t.Matches name address ∧
    ∀ above, above <+: address → above ≠ address → ¬ t.Matches name above

/-- **The nodes at the addresses with a property, in pre-order.**  An address is before
those below it, and those below one child are before those below the next: this is the
lexicographic order. -/
def InPreorder (t : Term) (P : List Nat → Prop) (nodes : List Term) : Prop :=
  ∃ hits : List (List Nat × Term), (hits.map Prod.fst).Pairwise (List.Lex (· < ·)) ∧
    (∀ address node, (address, node) ∈ hits ↔ P address ∧ t.node? address = some node) ∧
    nodes = hits.map Prod.snd

theorem node?_cons {i : Nat} {child : Tree} (stands : t.children[i]? = some child) :
    t.node? (i :: address) = child.node? address := by
  rw [node?, toTree, Tree.node?, stands, Option.bind_some]

/-- No address above one below a child matches if none does below the child: the address of
the term itself does not count. -/
theorem forall_above_not_matches_iff {i : Nat} {child : Tree}
    (stands : t.children[i]? = some child) :
    (∀ above, above <+: i :: address → above ≠ i :: address → ¬ t.Matches name above) ↔
      child.Clear name address := by
  rw [Tree.forall_above_cons_iff]
  simp [Matches, node?_cons stands, Tree.Clear]

/-- **What a search below a term finds**: the nodes at the addresses that match or, if it is
not nested, at the outermost of them. -/
theorem mem_hitsIn_children_iff {nested : Bool} :
    (address, node) ∈ Tree.hitsIn name nested 0 t.children ↔
      (t.Matches name address ∧ (nested = false →
        ∀ above, above <+: address → above ≠ address → ¬ t.Matches name above)) ∧
      t.node? address = some node := by
  rw [Tree.mem_hitsIn_iff]
  constructor
  · rintro ⟨i, below, child, rfl, stands, mem⟩
    obtain ⟨found, named, clear⟩ := Tree.mem_hits_iff.mp mem
    rw [Nat.zero_add, Matches, node?_cons stands, found, forall_above_not_matches_iff stands]
    exact ⟨⟨⟨List.cons_ne_nil _ _, congrArg some named⟩, clear⟩, rfl⟩
  · rintro ⟨⟨⟨notRoot, named⟩, clear⟩, found⟩
    obtain ⟨i, below, rfl⟩ := List.exists_cons_of_ne_nil notRoot
    obtain ⟨child, stands, inside⟩ := Option.bind_eq_some_iff.mp found
    refine ⟨i, below, child, by rw [Nat.zero_add], stands, Tree.mem_hits_iff.mpr ?_⟩
    rw [found] at named
    rw [forall_above_not_matches_iff stands] at clear
    exact ⟨inside, Option.some.inj named, clear⟩

/-- **The queries of a term agree with each other.**  All terms with a rule name are those
below the term in pre-order, and the first term is the first of them, none if there is
none.  The words of a name other than the one for all children are the texts of the
outermost such terms, in the same order, each without its blanks; and those of the direct
children make up, one after the other, the texts of all tokens that are not blank. -/
theorem queries_agree (t : Term) (blanks : List String) (name : String) :
    t.InPreorder (t.Matches name) (t.findAll name) ∧
      t.find? name = (t.findAll name).head? ∧
      (name ≠ anyName → ∃ nodes, t.InPreorder (t.Outermost name) nodes ∧
        t.words blanks name = nodes.map fun node => Tree.solidTexts blanks node.tokens) ∧
      (t.words blanks anyName).flatten = Tree.solidTexts blanks t.tokens := by
  refine ⟨?all, Tree.findIn?_eq_head? name t.children, fun other => ?outermost, ?direct⟩
  case all =>
    refine ⟨_, Tree.sorted_hitsIn name true 0 t.children, fun address node => ?_,
      Tree.findAllIn_eq_hits name 0 t.children⟩
    rw [mem_hitsIn_children_iff]
    simp
  case outermost =>
    refine ⟨_, ⟨_, Tree.sorted_hitsIn name false 0 t.children, fun address node => ?_, rfl⟩, ?_⟩
    · rw [mem_hitsIn_children_iff, Outermost]
      simp
    · rw [words, if_neg other, Tree.wordsIn_eq_hits blanks name 0, List.map_map]
      rfl
  case direct =>
    rw [words, if_pos rfl]
    exact Tree.flatten_directWords blanks t.children

/-- A list in brackets, with another one and a blank inside, and a list behind it that is
part of an entry. -/
def listsInLists : Term where
  rule := "document"
  children := [
    .node "list" [.leaf ⟨"PUNCT", "[", 1, 1⟩, .leaf ⟨"WS", " ", 1, 2⟩,
      .node "list" [.leaf ⟨"IDENT", "a", 1, 3⟩] none, .leaf ⟨"PUNCT", "]", 1, 4⟩] none,
    .node "entry" [.node "list" [.leaf ⟨"IDENT", "b", 1, 5⟩] none] none]

/-- Of three lists two are outermost: the second is inside the first. -/
theorem queries_agree_lists :
    listsInLists.findAll "list" = [[0], [0, 2], [1, 0]].filterMap listsInLists.node? ∧
      listsInLists.find? "list" = listsInLists.node? [0] ∧
      "list" ≠ anyName ∧
      (∃ nodes, listsInLists.InPreorder (listsInLists.Outermost "list") nodes ∧
        listsInLists.words Token.blankTypes "list" =
          nodes.map fun node => Tree.solidTexts Token.blankTypes node.tokens) ∧
      listsInLists.words Token.blankTypes "list" = [["[", "a", "]"], ["b"]] := by
  have other : "list" ≠ anyName := by decide
  obtain ⟨-, first, outermost, -⟩ := queries_agree listsInLists Token.blankTypes "list"
  have all : listsInLists.findAll "list" = [[0], [0, 2], [1, 0]].filterMap listsInLists.node? := by
    decide
  exact ⟨all, by rw [first, all]; decide, other, outermost other, by decide⟩

end Term

end GrammarKit
