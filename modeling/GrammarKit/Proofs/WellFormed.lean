import GrammarKit.Grammar.Basic
import GrammarKit.Proofs.LeftOrder
import GrammarKit.Proofs.NullableClosure

/-!
# What every grammar is promised

A `Grammar` carries only the fact that no defect was found.  This file turns that
fact into what the parser relies on: the root and all references are declared,
and the rules have a rank that falls along left references.

## Main Definitions

* `Grammar.leftOrder` — the names in the order in which the check for left
  recursion finished them
* `Grammar.leftRank` — the place of a name in that order

## Main Statements

* `Grammar.declared_of_reference` — every reference of a rule is declared
* `Grammar.leftRank_lt` — the rank falls along left references
* `Grammar.leftRank_lt_length` — there are as many ranks as rules
-/

namespace GrammarKit

/-! ### Names listed once -/

/-- Listing names once keeps the names. -/
@[simp] theorem Rule.mem_distinct {name : String} {l : List String} :
    name ∈ Rule.distinct l ↔ name ∈ l := by
  have fold : ∀ (l seen : List String),
      name ∈ l.foldl (fun seen name => if name ∈ seen then seen else seen ++ [name]) seen ↔
        name ∈ seen ∨ name ∈ l := by
    intro l
    induction l with
    | nil => intro seen; simp
    | cons m rest ih =>
        intro seen
        rw [List.foldl_cons, ih]
        split
        · rename_i known
          constructor
          · rintro (h | h)
            · exact Or.inl h
            · exact Or.inr (List.mem_cons_of_mem m h)
          · rintro (h | h)
            · exact Or.inl h
            · rcases List.mem_cons.mp h with rfl | later
              · exact Or.inl known
              · exact Or.inr later
        · simp [or_assoc]
  simpa [distinct] using fold l []

theorem Rule.mem_references {name : String} {r : Rule} :
    name ∈ r.references ↔
      ∃ production ∈ r.alternatives, ∃ element ∈ production, element.target? = some name := by
  simp only [references, mem_distinct, List.mem_filterMap, List.mem_flatten]
  constructor
  · rintro ⟨element, ⟨production, hp, he⟩, ht⟩
    exact ⟨production, hp, element, he, ht⟩
  · rintro ⟨production, hp, element, he, ht⟩
    exact ⟨element, ⟨production, hp, he⟩, ht⟩

/-- A left reference is a reference. -/
theorem Production.exists_of_mem_leftReferences {nullable : List String} {name : String} :
    ∀ {production : Production}, name ∈ production.leftReferences nullable →
      ∃ element ∈ production, element.target? = some name := by
  intro production
  induction production with
  | nil => intro h; exact absurd h List.not_mem_nil
  | cons element rest ih =>
      intro h
      rw [leftReferences] at h
      rcases List.mem_append.mp h with here | later
      · exact ⟨element, List.mem_cons_self, by simpa using here⟩
      · split at later
        · obtain ⟨e, he, ht⟩ := ih later
          exact ⟨e, List.mem_cons_of_mem element he, ht⟩
        · exact absurd later List.not_mem_nil

theorem Rule.mem_leftReferences {nullable : List String} {name : String} {r : Rule} :
    name ∈ r.leftReferences nullable ↔
      ∃ production ∈ r.alternatives, name ∈ production.leftReferences nullable := by
  simp [leftReferences]

/-- The left references of a rule are among its references. -/
theorem Rule.leftReferences_subset (nullable : List String) (r : Rule) :
    r.leftReferences nullable ⊆ r.references := by
  intro name h
  obtain ⟨production, hp, hn⟩ := mem_leftReferences.mp h
  obtain ⟨element, he, ht⟩ := Production.exists_of_mem_leftReferences hn
  exact mem_references.mpr ⟨production, hp, element, he, ht⟩

namespace Grammar

/-! ### Declared names -/

/-- The checks that a grammar has passed, in the order in which they are made. -/
theorem checks_of_findDefect?_eq_none {rules : List Rule} {root : String}
    (h : findDefect? rules root = none) :
    root ∈ rules.map Rule.name ∧ findUndeclared? rules = none ∧ findCycle? rules = none := by
  unfold findDefect? at h
  split at h
  · simp at h
  · split at h
    · simp at h
    · split at h
      · simp at h
      · rename_i declared
        split at h
        · simp at h
        · rename_i references
          exact ⟨by simpa using declared, references, by simpa using h⟩

variable (g : Grammar)

theorem root_mem_names : g.root ∈ g.names :=
  (checks_of_findDefect?_eq_none g.sound).1

/-- A name is declared exactly if it is the name of a rule. -/
theorem mem_names_iff {name : String} : name ∈ g.names ↔ ∃ r, g.rule? name = some r := by
  rw [← Option.isSome_iff_exists, rule?, List.find?_isSome, names, List.mem_map]
  simp

theorem declares_iff {name : String} : g.declares name = true ↔ name ∈ g.names := by
  rw [mem_names_iff, declares, Option.isSome_iff_exists]

variable {g}

theorem mem_rules_of_rule? {name : String} {r : Rule} (h : g.rule? name = some r) :
    r ∈ g.rules :=
  List.mem_of_find?_eq_some h

theorem name_of_rule? {name : String} {r : Rule} (h : g.rule? name = some r) :
    r.name = name := by
  simpa using List.find?_some h

/-- **Every reference of a rule is declared.** -/
theorem declared_of_reference {name : String} {r : Rule} (hr : r ∈ g.rules)
    (h : name ∈ r.references) : name ∈ g.names := by
  have checked := (checks_of_findDefect?_eq_none g.sound).2.1
  rw [findUndeclared?, List.findSome?_eq_none_iff] at checked
  have none := checked r hr
  rw [Option.map_eq_none_iff, List.find?_eq_none] at none
  simpa [names] using none name h

theorem leftTargets_eq {name : String} {r : Rule} (h : g.rule? name = some r) :
    leftTargets g.rules name = r.leftReferences g.nullable := by
  rw [rule?] at h
  rw [leftTargets, h]
  rfl

theorem leftTargets_subset_names (name : String) : leftTargets g.rules name ⊆ g.names := by
  intro target h
  cases hr : g.rule? name with
  | none =>
      rw [rule?] at hr
      simp [leftTargets, hr] at h
  | some r =>
      rw [leftTargets_eq hr] at h
      exact declared_of_reference (mem_rules_of_rule? hr) (r.leftReferences_subset _ h)

/-! ### The rank of a rule -/

/-- The names in the order in which the check for left recursion finished them. -/
def leftOrder (g : Grammar) : List String :=
  match LeftRecursion.search (leftTargets g.rules) g.names with
  | .ok order => order
  | .error _ => []

/-- The place of a name among the finished ones. -/
def leftRank (g : Grammar) (name : String) : Nat :=
  g.leftOrder.idxOf name

theorem search_eq_ok (g : Grammar) :
    LeftRecursion.search (leftTargets g.rules) g.names = .ok g.leftOrder := by
  have acyclic := (checks_of_findDefect?_eq_none g.sound).2.2
  rw [findCycle?] at acyclic
  rw [leftOrder, names]
  split at acyclic
  · rename_i order h
    rw [h]
  · simp at acyclic

theorem leftOrder_ordered (g : Grammar) :
    LeftRecursion.Ordered (leftTargets g.rules) g.names g.leftOrder ∧
      g.names ⊆ g.leftOrder :=
  LeftRecursion.search_ordered (fun name _ => leftTargets_subset_names name) g.search_eq_ok

/-- **The rank falls along left references.** -/
theorem leftRank_lt {name target : String} (mem : name ∈ g.names)
    (h : target ∈ leftTargets g.rules name) : g.leftRank target < g.leftRank name := by
  obtain ⟨ordered, all⟩ := g.leftOrder_ordered
  exact ordered.idxOf_lt (all mem) h

/-- There are as many ranks as rules. -/
theorem leftRank_lt_length {name : String} (mem : name ∈ g.names) :
    g.leftRank name < g.rules.length := by
  obtain ⟨ordered, all⟩ := g.leftOrder_ordered
  have place : g.leftRank name < g.leftOrder.length := List.idxOf_lt_length_of_mem (all mem)
  have bound := ordered.nodup.length_le_of_subset ordered.subset
  rw [names, List.length_map] at bound
  omega

end Grammar

end GrammarKit
