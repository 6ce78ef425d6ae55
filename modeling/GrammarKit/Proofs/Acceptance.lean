import GrammarKit.Calculator.Grammar
import GrammarKit.Proofs.NullableDerivations
import GrammarKit.Proofs.WellFormed
import Mathlib.Data.List.Chain
import Mathlib.Data.List.Nodup

/-!
# The checks accept exactly the well-formed grammars

Building a grammar makes five checks in a fixed order.  Here their conjunction is
said without them: rules are **well formed** if there are any, their names are
distinct, the root and all references are declared, and the graph of left
references has no cycle.  The last of these is what the depth-first search is for,
and both of its answers are right: the cycle it reports is one, and where it
reports none there is none.

## Main Definitions

* `LeftEdge` — references behind elements that vanish
* `Cyclic` — a path of a graph that comes back to where it began
* `Grammar.WellFormed` — what rules and a root must be

## Main Statements

* `LeftRecursion.search_cyclic` — the search reports a cycle of its graph
* `LeftRecursion.search_acyclic` — where it finds none there is none
* `Grammar.ofRules_accepts` — rules make up a grammar exactly if they are well
  formed, and a reported left recursion is a cycle of left references
-/

namespace GrammarKit

/-- **A path that comes back to where it began**: each name is joined to the next by
an edge, and the last one is the first. -/
structure Cyclic (Edge : String → String → Prop) (path : List String) : Prop where
  edges : path.IsChain Edge
  closes : ∃ name inner, path = name :: (inner ++ [name])

/-- A path along edges connects its ends. -/
theorem transGen_of_isChain {Edge : String → String → Prop} {last : String} :
    ∀ {first : String} {inner : List String}, (first :: (inner ++ [last])).IsChain Edge →
      Relation.TransGen Edge first last := by
  intro first inner
  induction inner generalizing first with
  | nil => intro chain; exact .single (List.isChain_cons_cons.mp chain).1
  | cons next rest ih =>
      intro chain
      obtain ⟨edge, others⟩ := List.isChain_cons_cons.mp chain
      exact (ih others).head edge

namespace LeftRecursion

variable {targets : String → List String} {names path : List String}

/-! ### Reported cycles -/

/-- A sequence of searches ends in an error if one of its parts does. -/
private theorem error_of_bind {x : Except (List String) (List String)}
    {f : List String → Except (List String) (List String)} {cycle : List String}
    (h : x >>= f = .error cycle) :
    x = .error cycle ∨ ∃ middle, x = .ok middle ∧ f middle = .error cycle := by
  cases x with
  | error other =>
      cases h
      exact Or.inl rfl
  | ok middle => exact Or.inr ⟨middle, rfl, h⟩

/-- A fold that ends in an error has a step that does. -/
private theorem exists_error_of_foldlM
    {step : List String → String → Except (List String) (List String)} {cycle : List String} :
    ∀ {todo finished : List String}, todo.foldlM step finished = .error cycle →
      ∃ next ∈ todo, ∃ finished, step finished next = .error cycle := by
  intro todo
  induction todo with
  | nil => intro finished h; cases h
  | cons next rest ih =>
      intro finished h
      rw [List.foldlM_cons] at h
      rcases error_of_bind h with failed | ⟨middle, -, others⟩
      · exact ⟨next, List.mem_cons_self, finished, failed⟩
      · obtain ⟨later, mem, reached, failed⟩ := ih others
        exact ⟨later, List.mem_cons_of_mem next mem, reached, failed⟩

/-- The part of a path from a name on, and the name again. -/
theorem cyclic_of_mem {Edge : String → String → Prop} {last next : String}
    (chain : (path ++ [last]).IsChain Edge) (edge : Edge last next) (mem : next ∈ path ++ [last]) :
    Cyclic Edge ((path ++ [last]).dropWhile (· ≠ next) ++ [next]) := by
  have extended : (path ++ [last] ++ [next]).IsChain Edge := by
    refine List.isChain_append.mpr ⟨chain, .singleton next, ?_⟩
    simpa using edge
  obtain ⟨before, after, split, fresh⟩ := List.eq_append_cons_of_mem mem
  have suffix : (path ++ [last]).dropWhile (· ≠ next) = next :: after := by
    rw [split, List.dropWhile_append_of_pos fun name hname => ?_,
      List.dropWhile_cons_of_neg (by simp)]
    simpa using fun same : name = next => fresh (same ▸ hname)
  rw [suffix]
  refine ⟨extended.suffix ⟨before, ?_⟩, next, after, rfl⟩
  rw [split, List.append_assoc]

/-- **A visit reports a cycle** if the path to its name follows the targets. -/
theorem visit_cyclic (targets : String → List String) :
    ∀ (depth : Nat) {path finished : List String} {name : String} {cycle : List String},
      (path ++ [name]).IsChain (fun a b => b ∈ targets a) →
      visit targets depth path finished name = .error cycle →
      Cyclic (fun a b => b ∈ targets a) cycle := by
  intro depth
  induction depth with
  | zero => intro path finished name cycle _ h; cases h
  | succ depth ih =>
      intro path finished name cycle chain h
      rw [visit] at h
      rcases error_of_bind h with hfold | ⟨last, -, finishes⟩
      · obtain ⟨next, isTarget, reached, failed⟩ := exists_error_of_foldlM hfold
        split at failed
        · rename_i onPath
          cases failed
          exact cyclic_of_mem chain isTarget onPath
        · split at failed
          · cases failed
          · refine ih (List.isChain_append.mpr ⟨chain, .singleton next, ?_⟩) failed
            simpa using isTarget
      · cases finishes

/-- **The search reports a cycle of its graph.** -/
theorem search_cyclic {cycle : List String} (h : search targets names = .error cycle) :
    Cyclic (fun a b => b ∈ targets a) cycle := by
  obtain ⟨name, -, finished, failed⟩ := exists_error_of_foldlM h
  split at failed
  · cases failed
  · exact visit_cyclic targets _ (.singleton name) failed

/-- **Where the search finds no cycle there is none.** -/
theorem search_acyclic (declared : ∀ n ∈ names, targets n ⊆ names) {final : List String}
    (h : search targets names = .ok final) {name : String} (mem : name ∈ names) :
    ¬ Relation.TransGen (fun a b => b ∈ targets a) name name := by
  obtain ⟨ordered, all⟩ := search_ordered declared h
  -- the place in the order falls along every edge
  have falls : ∀ {target}, Relation.TransGen (fun a b => b ∈ targets a) name target →
      target ∈ names ∧ final.idxOf target < final.idxOf name := by
    intro target path
    induction path with
    | single edge => exact ⟨declared name mem edge, ordered.idxOf_lt (all mem) edge⟩
    | tail _ edge ih =>
        exact ⟨declared _ ih.1 edge, Nat.lt_trans (ordered.idxOf_lt (all ih.1) edge) ih.2⟩
  exact fun cycle => Nat.lt_irrefl _ (falls cycle).2

end LeftRecursion

/-! ### Left references -/

/-- **A left reference**: some production of the rule has it behind elements that
vanish. -/
def LeftEdge (rules : List Rule) (source target : String) : Prop :=
  ∃ r ∈ rules, r.name = source ∧ ∃ production ∈ r.alternatives, ∃ before e after,
    production = before ++ e :: after ∧ (∀ b ∈ before, b.Vanishes rules) ∧ e.target? = some target

theorem Production.mem_leftReferences {rules : List Rule} {target : String} :
    ∀ {production : Production}, target ∈ production.leftReferences (nullableNames rules) ↔
      ∃ before e after, production = before ++ e :: after ∧
        (∀ b ∈ before, b.Vanishes rules) ∧ e.target? = some target := by
  intro production
  induction production with
  | nil => simp [leftReferences]
  | cons element rest ih =>
      rw [leftReferences, List.mem_append, Option.mem_toList]
      constructor
      · rintro (here | later)
        · exact ⟨[], element, rest, rfl, by simp, here⟩
        · split at later
          · rename_i nullable
            obtain ⟨before, e, after, rfl, vanish, isTarget⟩ := ih.mp later
            exact ⟨element :: before, e, after, rfl, List.forall_mem_cons.mpr
              ⟨Element.nullable_iff_vanishes.mp nullable, vanish⟩, isTarget⟩
          · cases later
      · rintro ⟨before, e, after, split, vanish, isTarget⟩
        cases before with
        | nil =>
            cases split
            exact Or.inl isTarget
        | cons first before =>
            cases split
            obtain ⟨vanishes, others⟩ := List.forall_mem_cons.mp vanish
            rw [if_pos (Element.nullable_iff_vanishes.mpr vanishes)]
            exact Or.inr (ih.mpr ⟨before, e, after, rfl, others, isTarget⟩)

/-- Where names are distinct, a rule is found by its name. -/
theorem find?_name_of_mem {rules : List Rule} (distinct : (rules.map Rule.name).Nodup) {r : Rule}
    (mem : r ∈ rules) : rules.find? (·.name = r.name) = some r := by
  obtain ⟨s, hs⟩ := Option.isSome_iff_exists.mp
    (List.find?_isSome.mpr ⟨r, mem, decide_eq_true rfl⟩ :
      (rules.find? (·.name = r.name)).isSome = true)
  have same : s.name = r.name := by simpa using List.find?_some hs
  rw [hs, List.inj_on_of_nodup_map distinct (List.mem_of_find?_eq_some hs) mem same]

/-- Where names are distinct, the left targets of a name are its left references. -/
theorem mem_leftTargets_iff {rules : List Rule} (distinct : (rules.map Rule.name).Nodup)
    {source target : String} :
    target ∈ leftTargets rules source ↔ LeftEdge rules source target := by
  constructor
  · intro h
    rw [leftTargets] at h
    split at h
    · rename_i r hr
      obtain ⟨production, isAlternative, left⟩ := Rule.mem_leftReferences.mp h
      exact ⟨r, List.mem_of_find?_eq_some hr, by simpa using List.find?_some hr, production,
        isAlternative, Production.mem_leftReferences.mp left⟩
    · cases h
  · rintro ⟨r, isRule, rfl, production, isAlternative, left⟩
    rw [leftTargets, find?_name_of_mem distinct isRule]
    exact Rule.mem_leftReferences.mpr ⟨production, isAlternative,
      Production.mem_leftReferences.mpr left⟩

namespace Grammar

variable {rules : List Rule}

/-! ### The other checks -/

theorem findDuplicate?_eq_none_iff :
    ∀ {names seen : List String}, findDuplicate? seen names = none ↔
      names.Nodup ∧ ∀ name ∈ names, name ∉ seen := by
  intro names
  induction names with
  | nil => intro seen; simp [findDuplicate?]
  | cons name rest ih =>
      intro seen
      rw [findDuplicate?]
      split
      · rename_i known
        simp [known]
      · rename_i fresh
        rw [ih]
        simp only [List.nodup_cons, List.mem_append, List.mem_singleton, not_or]
        constructor
        · rintro ⟨nodup, apart⟩
          refine ⟨⟨fun mem => (apart name mem).2 rfl, nodup⟩, List.forall_mem_cons.mpr ⟨fresh, ?_⟩⟩
          exact fun other later => (apart other later).1
        · rintro ⟨⟨notLater, nodup⟩, apart⟩
          refine ⟨nodup, fun other later => ⟨apart other (List.mem_cons_of_mem name later), ?_⟩⟩
          exact fun same => notLater (same ▸ later)

theorem findUndeclared?_eq_none_iff :
    findUndeclared? rules = none ↔
      ∀ r ∈ rules, ∀ name ∈ r.references, name ∈ rules.map Rule.name := by
  simp only [findUndeclared?, List.findSome?_eq_none_iff, Option.map_eq_none_iff,
    List.find?_eq_none, decide_eq_true_eq, not_not]

/-- **What rules and a root must be.** -/
structure WellFormed (rules : List Rule) (root : Option String) : Prop where
  filled : rules ≠ []
  distinct : (rules.map Rule.name).Nodup
  /-- The root, or the first rule if none is named, is declared. -/
  rooted : ∃ name, root.or (rules.head?.map Rule.name) = some name ∧ name ∈ rules.map Rule.name
  declared : ∀ r ∈ rules, ∀ production ∈ r.alternatives, ∀ e ∈ production, ∀ name,
    e.target? = some name → name ∈ rules.map Rule.name
  acyclic : ∀ name, ¬ Relation.TransGen (LeftEdge rules) name name

/-- The checks in the order in which they are made. -/
theorem findDefect?_eq_none_iff {root : String} :
    findDefect? rules root = none ↔
      (rules.map Rule.name).Nodup ∧ rules ≠ [] ∧ root ∈ rules.map Rule.name ∧
        findUndeclared? rules = none ∧ findCycle? rules = none := by
  have duplicates := @findDuplicate?_eq_none_iff (rules.map Rule.name) []
  unfold findDefect?
  split
  · rename_i name found
    refine iff_of_false (by simp) fun sound => ?_
    rw [duplicates.mpr ⟨sound.1, by simp⟩] at found
    cases found
  · rename_i none
    have nodup := (duplicates.mp none).1
    split
    · rename_i empty
      simp [List.isEmpty_iff.mp empty]
    · rename_i filled
      have filled : rules ≠ [] := fun empty => filled (List.isEmpty_iff.mpr empty)
      split
      · rename_i undeclared
        simp [undeclared]
      · rename_i declared
        have declared : root ∈ rules.map Rule.name := by simpa using declared
        split
        · rename_i undeclared
          simp [undeclared]
        · rename_i references
          rw [Option.map_eq_none_iff]
          exact ⟨fun acyclic => ⟨nodup, filled, declared, references, acyclic⟩, fun h => h.2.2.2.2⟩

/-- References that are all declared, rule by rule. -/
theorem references_declared_iff :
    (∀ r ∈ rules, ∀ name ∈ r.references, name ∈ rules.map Rule.name) ↔
      ∀ r ∈ rules, ∀ production ∈ r.alternatives, ∀ e ∈ production, ∀ name,
        e.target? = some name → name ∈ rules.map Rule.name := by
  constructor
  · intro h r isRule production isAlternative e mem name isTarget
    exact h r isRule name (Rule.mem_references.mpr ⟨production, isAlternative, e, mem, isTarget⟩)
  · intro h r isRule name reference
    obtain ⟨production, isAlternative, e, mem, isTarget⟩ := Rule.mem_references.mp reference
    exact h r isRule production isAlternative e mem name isTarget

/-- A left reference is the reference of a rule, so it is declared with them. -/
theorem leftTargets_subset
    (declared : ∀ r ∈ rules, ∀ name ∈ r.references, name ∈ rules.map Rule.name)
    (name : String) : leftTargets rules name ⊆ rules.map Rule.name := by
  intro target h
  rw [leftTargets] at h
  split at h
  · rename_i r hr
    exact declared r (List.mem_of_find?_eq_some hr) target (r.leftReferences_subset _ h)
  · cases h

/-- The edges that the search follows are the left references. -/
theorem edges_eq (distinct : (rules.map Rule.name).Nodup) :
    (fun a b => b ∈ leftTargets rules a) = LeftEdge rules := by
  funext source target
  exact propext (mem_leftTargets_iff distinct)

/-- **No cycle is found exactly if there is none.** -/
theorem findCycle?_eq_none_iff (distinct : (rules.map Rule.name).Nodup)
    (declared : ∀ r ∈ rules, ∀ name ∈ r.references, name ∈ rules.map Rule.name) :
    findCycle? rules = none ↔ ∀ name, ¬ Relation.TransGen (LeftEdge rules) name name := by
  rw [findCycle?, ← edges_eq distinct]
  cases found : LeftRecursion.search (leftTargets rules) (rules.map Rule.name) with
  | ok order =>
      refine iff_of_true rfl fun name cycle => ?_
      have mem : name ∈ rules.map Rule.name := by
        cases cycle with
        | single edge => exact leftTargets_subset declared _ edge
        | tail _ edge => exact leftTargets_subset declared _ edge
      exact LeftRecursion.search_acyclic (fun name _ => leftTargets_subset declared name) found mem
        cycle
  | error cycle =>
      refine iff_of_false (by simp) fun acyclic => ?_
      obtain ⟨edges, name, inner, rfl⟩ := LeftRecursion.search_cyclic found
      exact acyclic name (transGen_of_isChain edges)

/-! ### Building a grammar -/

theorem ofRules_eq_ok_iff {root : Option String} {g : Grammar} :
    ofRules rules root = .ok g ↔
      g.rules = rules ∧ g.root = root.getD ((rules.map Rule.name).headD "") := by
  rw [ofRules]
  split
  · rename_i sound
    constructor
    · rintro ⟨⟩
      exact ⟨rfl, rfl⟩
    · obtain ⟨rules', root', sound'⟩ := g
      rintro ⟨same, same'⟩
      dsimp only at same same'
      subst same same'
      rfl
  · rename_i e found
    refine iff_of_false nofun ?_
    rintro ⟨rfl, same⟩
    rw [← same, g.sound] at found
    cases found

/-- The root of rules that there are. -/
theorem getD_root {root : Option String} (filled : rules ≠ []) :
    root.or (rules.head?.map Rule.name) = some (root.getD ((rules.map Rule.name).headD "")) := by
  cases root with
  | some name => rfl
  | none =>
      cases rules with
      | nil => exact (filled rfl).elim
      | cons r rest => rfl

theorem findDefect?_eq_none_iff_wellFormed {root : Option String} :
    findDefect? rules (root.getD ((rules.map Rule.name).headD "")) = none ↔
      WellFormed rules root := by
  rw [findDefect?_eq_none_iff, findUndeclared?_eq_none_iff]
  constructor
  · rintro ⟨distinct, filled, rooted, declared, acyclic⟩
    exact ⟨filled, distinct, ⟨_, getD_root filled, rooted⟩, references_declared_iff.mp declared,
      (findCycle?_eq_none_iff distinct declared).mp acyclic⟩
  · rintro ⟨filled, distinct, ⟨name, isRoot, rooted⟩, declared, acyclic⟩
    have declared := references_declared_iff.mpr declared
    rw [getD_root filled] at isRoot
    cases isRoot
    exact ⟨distinct, filled, rooted, declared,
      (findCycle?_eq_none_iff distinct declared).mpr acyclic⟩

/-- A left recursion is reported only where a cycle is found, among distinct names. -/
theorem findCycle?_of_leftRecursion {root : String} {cycle : List String}
    (h : findDefect? rules root = some (.leftRecursion cycle)) :
    (rules.map Rule.name).Nodup ∧ findCycle? rules = some cycle := by
  unfold findDefect? at h
  split at h
  · cases h
  · rename_i none
    refine ⟨(findDuplicate?_eq_none_iff.mp none).1, ?_⟩
    split at h
    · cases h
    · split at h
      · cases h
      · split at h
        · cases h
        · obtain ⟨other, found, same⟩ := Option.map_eq_some_iff.mp h
          cases same
          exact found

/-- **The checks accept exactly the well-formed grammars.**  Rules make up a grammar,
and it is the one with these rules and this root, exactly if they are well formed.
If they are refused for left recursion, the path that the message shows is a cycle
of left references. -/
theorem ofRules_accepts (rules : List Rule) (root : Option String) :
    ((∃ g, ofRules rules root = .ok g) ↔ WellFormed rules root) ∧
    (∀ g, ofRules rules root = .ok g →
      g.rules = rules ∧ root.or (rules.head?.map Rule.name) = some g.root) ∧
    ∀ cycle, ofRules rules root = .error (.leftRecursion cycle) →
      Cyclic (LeftEdge rules) cycle ∧
      ∃ name inner, cycle = name :: (inner ++ [name]) ∧
        (Error.leftRecursion cycle).message = "Left recursion is found in syntax rule " ++ name ++
          ": " ++ " -> ".intercalate cycle := by
  refine ⟨?_, ?_, ?_⟩
  · rw [← findDefect?_eq_none_iff_wellFormed]
    constructor
    · rintro ⟨g, ok⟩
      obtain ⟨rfl, same⟩ := ofRules_eq_ok_iff.mp ok
      rw [← same]
      exact g.sound
    · intro sound
      exact ⟨⟨rules, _, sound⟩, ofRules_eq_ok_iff.mpr ⟨rfl, rfl⟩⟩
  · intro g ok
    obtain ⟨rfl, same⟩ := ofRules_eq_ok_iff.mp ok
    have sound := g.sound
    rw [findDefect?_eq_none_iff] at sound
    exact ⟨rfl, by rw [getD_root sound.2.1, ← same]⟩
  · intro cycle refused
    rw [ofRules] at refused
    split at refused
    · cases refused
    · rename_i e found
      cases refused
      obtain ⟨distinct, reported⟩ := findCycle?_of_leftRecursion found
      rw [findCycle?] at reported
      split at reported
      · cases reported
      · rename_i path error
        cases reported
        have cyclic := LeftRecursion.search_cyclic error
        rw [edges_eq distinct] at cyclic
        obtain ⟨name, inner, closes⟩ := cyclic.closes
        exact ⟨cyclic, name, inner, closes, by rw [closes]; rfl⟩

/-- Rules with a cycle that hides behind an optional reference. -/
def hiddenCycle : List Rule :=
  [{ name := "list", alternatives := [[.optionalRule "mark", .rule "items"]] },
   { name := "mark", alternatives := [[.literal "!"]] },
   { name := "items", alternatives := [[.rule "list", .literal ","]] }]

/-- The cycle behind an optional reference is reported and is one; the rules of the
calculator make up a grammar, so they are well formed. -/
theorem ofRules_accepts_hiddenCycle :
    ofRules hiddenCycle none = .error (.leftRecursion ["list", "items", "list"]) ∧
      Cyclic (LeftEdge hiddenCycle) ["list", "items", "list"] ∧
      ofRules Calculator.rules none = .ok Calculator.grammar ∧
      WellFormed Calculator.rules none := by
  have refused : ofRules hiddenCycle none = .error (.leftRecursion ["list", "items", "list"]) := by
    have found : findDefect? hiddenCycle "list" =
        some (.leftRecursion ["list", "items", "list"]) := by
      decide +kernel
    rw [ofRules]
    split
    · rename_i sound
      exact absurd (found.symm.trans sound) nofun
    · rename_i e defect
      rw [Option.some.inj (defect.symm.trans found)]
  have accepted : ofRules Calculator.rules none = .ok Calculator.grammar :=
    ofRules_eq_ok_iff.mpr ⟨rfl, rfl⟩
  exact ⟨refused, ((ofRules_accepts hiddenCycle none).2.2 _ refused).1, accepted,
    (ofRules_accepts Calculator.rules none).1.mp ⟨_, accepted⟩⟩

end Grammar

end GrammarKit
