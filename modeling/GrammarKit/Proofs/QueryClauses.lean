import GrammarKit.Proofs.ParseTrees
import GrammarKit.Query.Projection

/-!
# The clauses of a query

A query that matches is a list of clauses, each a keyword with a part behind it,
and what is read off the term is the text of these parts.

## Main Definitions

* `Query.Clause` — a keyword and a part
* `Query.Clauses` — the clauses of a query, in order

## Main Statements

* `Query.clauses_of_builds` — the trees of a query are clauses
* `Query.project_clauses` — the query of a term is read off its clauses
* `Query.forall₂_clauses` — terms of the same shape have the same clauses, with as
  many tokens in each
-/

namespace GrammarKit.Query

open Element (rule optionalRule many literal ofType)
open GrammarKit.Parser

/-! ### Clauses -/

/-- A keyword and the part behind it. -/
structure Clause where
  name : String
  keyword : Token
  part : String
  body : List Tree

namespace Clause

/-- The children of a clause. -/
def children (c : Clause) : List Tree :=
  [.leaf c.keyword, .node c.part c.body none]

/-- The tree of a clause. -/
def tree (c : Clause) : Tree :=
  .node c.name c.children none

/-- The tokens of a clause. -/
def tokens (c : Clause) : List Token :=
  c.keyword :: Tree.tokensIn c.body

/-- The texts of the part, joined by a separator. -/
def text (separator : String) (c : Clause) : String :=
  separator.intercalate ((Tree.tokensIn c.body).map Token.text)

end Clause

/-- What a clause is made of. -/
structure ClauseKind where
  name : String
  keyword : String
  part : String
deriving DecidableEq

namespace ClauseKind

def select : ClauseKind := ⟨"select-clause", "SELECT", "key-list"⟩

def table : ClauseKind := ⟨"from-clause", "FROM", "table-name"⟩

def condition : ClauseKind := ⟨"where-key-clause", "WHERE", "condition-expression"⟩

def filter : ClauseKind := ⟨"filter-clause", "FILTER", "condition-expression"⟩

def limit : ClauseKind := ⟨"limit-clause", "LIMIT", "limit-count"⟩

/-- The kinds of clauses, in order. -/
def all : List ClauseKind :=
  [select, table, condition, filter, limit]

end ClauseKind

/-- A clause of a kind: its keyword is accepted, and its part is built by the grammar. -/
structure Clause.IsA (c : Clause) (kind : ClauseKind) : Prop where
  name : c.name = kind.name
  part : c.part = kind.part
  keyword : (Terminal.literal kind.keyword).accepts c.keyword = true
  body : Builds clauseGrammar (.rule kind.part) c.body

/-- The clauses of a query, in order. -/
structure Clauses where
  select : Option Clause
  table : Clause
  condition : Clause
  filter : Option Clause
  limit : Option Clause

/-- All clauses that are present. -/
def Clauses.list (cs : Clauses) : List Clause :=
  cs.select.toList ++ cs.table :: cs.condition :: (cs.filter.toList ++ cs.limit.toList)

/-- Each clause is of its kind. -/
structure Clauses.Valid (cs : Clauses) : Prop where
  select : ∀ c, cs.select = some c → c.IsA .select
  table : cs.table.IsA .table
  condition : cs.condition.IsA .condition
  filter : ∀ c, cs.filter = some c → c.IsA .filter
  limit : ∀ c, cs.limit = some c → c.IsA .limit

section Trees

variable {ts : List Tree}

/-- A clause is a keyword and a part. -/
theorem clause_of_builds {kind : ClauseKind} (mem : kind ∈ ClauseKind.all)
    (h : Builds clauseGrammar (.rule kind.name) ts) :
    ∃ c : Clause, c.IsA kind ∧ ts = c.children ∧ c.tree = .node kind.name ts none := by
  have declared : ∀ kind ∈ ClauseKind.all, (clauseGrammar.rule? kind.name).map Rule.alternatives =
      some [[literal kind.keyword, rule kind.part]] := by
    decide
  obtain ⟨keyword, us, rfl, accepted, others⟩ := (h.of_only (declared kind mem)).of_terminal
  obtain ⟨body, vs, rfl, built, nothing⟩ := others.of_reference
  rw [nothing.of_nil]
  exact ⟨⟨kind.name, keyword, kind.part, body⟩, ⟨rfl, rfl, accepted, built⟩, rfl, rfl⟩

/-- A clause comes first. -/
theorem single_clause {kind : ClauseKind} (mem : kind ∈ ClauseKind.all) {rest : Production}
    (h : Builds clauseGrammar (.sequence (rule kind.name :: rest)) ts) :
    ∃ (c : Clause) (us : List Tree), c.IsA kind ∧ ts = c.tree :: us ∧
      Builds clauseGrammar (.sequence rest) us := by
  obtain ⟨inner, us, rfl, built, others⟩ := h.of_reference
  obtain ⟨c, isA, -, tree⟩ := clause_of_builds mem built
  exact ⟨c, us, isA, by rw [tree], others⟩

/-- A clause that may be left out comes first. -/
theorem optional_clause {kind : ClauseKind} (mem : kind ∈ ClauseKind.all) {rest : Production}
    (h : Builds clauseGrammar (.sequence (optionalRule kind.name :: rest)) ts) :
    ∃ (c? : Option Clause) (us : List Tree), (∀ c, c? = some c → c.IsA kind) ∧
      ts = c?.toList.map Clause.tree ++ us ∧ Builds clauseGrammar (.sequence rest) us := by
  rcases h.of_optional with others | ⟨inner, us, rfl, built, others⟩
  · exact ⟨none, ts, nofun, rfl, others⟩
  · obtain ⟨c, isA, -, tree⟩ := clause_of_builds mem built
    refine ⟨some c, us, fun other same => ?_, by rw [← tree]; rfl, others⟩
    cases same
    exact isA

/-- **The trees of a query are clauses.** -/
theorem clauses_of_builds (h : Builds clauseGrammar (.rule "sqlish-query") ts) :
    ∃ cs : Clauses, cs.Valid ∧ ts = cs.list.map Clause.tree := by
  have declared : (clauseGrammar.rule? "sqlish-query").map Rule.alternatives =
      some [[optionalRule "select-clause", rule "from-clause", rule "where-key-clause",
        optionalRule "filter-clause", optionalRule "limit-clause"]] := by
    decide
  obtain ⟨select, us₁, isSelect, split₁, fromTable⟩ :=
    @optional_clause _ .select (by decide) _ (h.of_only declared)
  obtain ⟨table, us₂, isTable, split₂, fromCondition⟩ :=
    @single_clause _ .table (by decide) _ fromTable
  obtain ⟨condition, us₃, isCondition, split₃, fromFilter⟩ :=
    @single_clause _ .condition (by decide) _ fromCondition
  obtain ⟨filter, us₄, isFilter, split₄, fromLimit⟩ :=
    @optional_clause _ .filter (by decide) _ fromFilter
  obtain ⟨limit, us₅, isLimit, split₅, nothing⟩ :=
    @optional_clause _ .limit (by decide) _ fromLimit
  refine ⟨⟨select, table, condition, filter, limit⟩,
    ⟨isSelect, isTable, isCondition, isFilter, isLimit⟩, ?_⟩
  rw [split₁, split₂, split₃, split₄, split₅, nothing.of_nil]
  simp [Clauses.list]

/-- Each clause that is present is of some kind. -/
theorem Clauses.Valid.isA {cs : Clauses} (valid : cs.Valid) :
    ∀ c ∈ cs.list, ∃ kind ∈ ClauseKind.all, c.IsA kind := by
  intro c mem
  simp only [Clauses.list, List.mem_append, List.mem_cons, Option.mem_toList] at mem
  rcases mem with here | rfl | rfl | here | here
  · exact ⟨.select, by decide, valid.select c here⟩
  · exact ⟨.table, by decide, valid.table⟩
  · exact ⟨.condition, by decide, valid.condition⟩
  · exact ⟨.filter, by decide, valid.filter c here⟩
  · exact ⟨.limit, by decide, valid.limit c here⟩

@[simp] theorem tokensIn_clauses (cs : List Clause) :
    Tree.tokensIn (cs.map Clause.tree) = cs.flatMap Clause.tokens := by
  induction cs with
  | nil => rfl
  | cons c rest ih =>
      rw [List.map_cons, Tree.tokensIn, ih, List.flatMap_cons]
      simp [Clause.tree, Clause.children, Clause.tokens, Tree.tokens, Tree.tokensIn]

end Trees

/-! ### The query of a term -/

section Projection

variable {cs : List Clause}

/-- The names of the root and of the clauses. -/
def upperNames : List String :=
  clauseGrammar.root :: ClauseKind.all.map ClauseKind.name

/-- Clauses are not below other clauses. -/
theorem findIn?_body {c : Clause} {kind kind' : ClauseKind} (mem : kind ∈ ClauseKind.all)
    (mem' : kind' ∈ ClauseKind.all) (isA : c.IsA kind) :
    Tree.findIn? kind'.name c.children = none := by
  -- no rule below the parts leads back to a clause
  have closed : ∀ r ∈ clauseGrammar.rules, r.name ∉ upperNames →
      ∀ target ∈ r.references, target ∉ upperNames := by
    decide
  have outside : ∀ kind ∈ ClauseKind.all, kind.part ∉ upperNames := by decide
  have isName : kind'.name ∈ upperNames := List.mem_cons_of_mem _ (List.mem_map_of_mem mem')
  have inner : Tree.findIn? kind'.name c.body = none :=
    @Builds.findIn?_eq_none _ _ _ (· ∉ upperNames) isA.body closed (outside kind mem) _
      fun notName => notName isName
  have different : c.part ≠ kind'.name := by
    rw [isA.part]
    intro same
    exact outside kind mem (same ▸ isName)
  simp [Clause.children, Tree.findIn?, Tree.find?, different, inner]

/-- The first clause of a name is found. -/
theorem findIn?_clauses {kind : ClauseKind} (mem : kind ∈ ClauseKind.all)
    (valid : ∀ c ∈ cs, ∃ kind ∈ ClauseKind.all, c.IsA kind) :
    Tree.findIn? kind.name (cs.map Clause.tree) =
      (cs.find? fun c => c.name = kind.name).map fun c => ⟨c.name, c.children, none⟩ := by
  induction cs with
  | nil => rfl
  | cons c rest ih =>
      simp only [List.forall_mem_cons] at valid
      obtain ⟨kind', mem', isA⟩ := valid.1
      rw [List.map_cons, Tree.findIn?, Clause.tree, Tree.find?, ih valid.2]
      by_cases same : c.name = kind.name
      · rw [if_pos same, List.find?_cons_of_pos (by simpa using same)]
        rfl
      · rw [if_neg same, findIn?_body mem' mem isA, List.find?_cons_of_neg (by simpa using same)]

/-- The part of a clause is read off. -/
theorem joined_clause {c : Clause} {blanks : List String}
    (noBlank : ∀ t ∈ c.tokens, t.isBlank blanks = false) (notAny : c.part ≠ Term.anyName)
    (separator : String) :
    joined blanks (some ⟨c.name, c.children, none⟩) c.part separator = some (c.text separator) := by
  have solid : Tree.solidTexts blanks (Tree.tokensIn c.body) =
      (Tree.tokensIn c.body).map Token.text := by
    rw [Tree.solidTexts, List.filter_eq_self.mpr fun t mem => by
      rw [noBlank t (List.mem_cons_of_mem _ mem)]
      rfl]
  simp [joined, Term.words, notAny, Clause.children, Tree.wordsIn, Tree.words, solid, Clause.text]

/-- The clause of a name. -/
def clause? (cs : List Clause) (kind : ClauseKind) : Option Clause :=
  cs.find? fun c => c.name = kind.name

/-- **What is read off a term is the text of its clauses.** -/
theorem joined_clauses {kind : ClauseKind} (mem : kind ∈ ClauseKind.all)
    (valid : ∀ c ∈ cs, ∃ kind ∈ ClauseKind.all, c.IsA kind) {blanks : List String}
    (noBlank : ∀ c ∈ cs, ∀ t ∈ c.tokens, t.isBlank blanks = false) (separator : String) :
    joined blanks (Term.find? ⟨clauseGrammar.root, cs.map Clause.tree, none⟩ kind.name) kind.part
      separator = (clause? cs kind).map (Clause.text separator) := by
  have injective : ∀ a ∈ ClauseKind.all, ∀ b ∈ ClauseKind.all, a.name = b.name → a = b := by
    decide
  have parts : ∀ kind ∈ ClauseKind.all, kind.part ≠ Term.anyName := by decide
  rw [Term.find?, findIn?_clauses mem valid, ← clause?]
  cases found : clause? cs kind with
  | none => rfl
  | some c =>
      have isHere := List.mem_of_find?_eq_some found
      obtain ⟨kind', mem', isA⟩ := valid c isHere
      have named : c.name = kind.name := by simpa using List.find?_some found
      obtain rfl := injective kind' mem' kind mem (isA.name.symm.trans named)
      rw [Option.map_some, Option.map_some, ← isA.part]
      exact joined_clause (noBlank c isHere) (isA.part ▸ parts _ mem) separator

/-- The query that clauses make up. -/
def queryOf (cs : List Clause) : Except Error Query := do
  let limit ← limitOf ((clause? cs .limit).map (Clause.text ""))
  return {
    table := (clause? cs .table).map (Clause.text "")
    keyCondition := (clause? cs .condition).map (Clause.text " ")
    projection := (clause? cs .select).map (Clause.text "")
    filter := (clause? cs .filter).map (Clause.text " ")
    limit := limit }

/-- **The query of a term is read off its clauses.** -/
theorem project_clauses (valid : ∀ c ∈ cs, ∃ kind ∈ ClauseKind.all, c.IsA kind)
    {blanks : List String} (noBlank : ∀ c ∈ cs, ∀ t ∈ c.tokens, t.isBlank blanks = false) :
    project blanks ⟨clauseGrammar.root, cs.map Clause.tree, none⟩ = queryOf cs := by
  have each : ∀ kind ∈ ClauseKind.all, ∀ separator, joined blanks
      (Term.find? ⟨clauseGrammar.root, cs.map Clause.tree, none⟩ kind.name) kind.part separator =
        (clause? cs kind).map (Clause.text separator) :=
    fun kind mem separator => joined_clauses mem valid noBlank separator
  have select := each .select (by decide) ""
  have table := each .table (by decide) ""
  have condition := each .condition (by decide) " "
  have filter := each .filter (by decide) " "
  have limit := each .limit (by decide) ""
  simp only [ClauseKind.select, ClauseKind.table, ClauseKind.condition, ClauseKind.filter,
    ClauseKind.limit] at select table condition filter limit
  simp only [project, queryOf, ClauseKind.select, ClauseKind.table, ClauseKind.condition,
    ClauseKind.filter, ClauseKind.limit, select, table, condition, filter, limit]

end Projection

/-! ### Clauses that correspond -/

section Correspondence

variable {cs cs' : List Clause} {R : Clause → Clause → Prop}

/-- **Terms of the same shape have the same clauses**, with as many tokens in each. -/
theorem forall₂_clauses :
    ∀ {cs cs' : List Clause}, Tree.shapeIn (cs.map Clause.tree) = Tree.shapeIn (cs'.map Clause.tree) →
      List.Forall₂ (fun c c' => c.name = c'.name ∧ c.tokens.length = c'.tokens.length) cs cs'
  | [], [], _ => .nil
  | [], _ :: _, h => by cases h
  | _ :: _, [], h => by cases h
  | c :: cs, c' :: cs', h => by
      rw [List.map_cons, List.map_cons, Tree.shapeIn, Tree.shapeIn] at h
      obtain ⟨first, others⟩ := List.cons.inj h
      refine .cons ?_ (forall₂_clauses others)
      simp only [Clause.tree, Clause.children, Tree.shape, Tree.shapeIn, Tree.node.injEq,
        List.cons.injEq, and_true, true_and] at first
      refine ⟨first.1, ?_⟩
      rw [Clause.tokens, Clause.tokens, List.length_cons, List.length_cons,
        Tree.length_tokensIn_congr first.2.2]

/-- Corresponding lists have corresponding clauses of a kind. -/
theorem clause?_rel (h : List.Forall₂ R cs cs') (named : ∀ c c', R c c' → c.name = c'.name)
    (kind : ClauseKind) :
    Option.Rel (fun c c' => R c c' ∧ c.name = kind.name) (clause? cs kind) (clause? cs' kind) := by
  induction h with
  | nil => exact .none
  | @cons c c' cs cs' related _ ih =>
      by_cases same : c.name = kind.name
      · have same' : c'.name = kind.name := named c c' related ▸ same
        rw [clause?, clause?, List.find?_cons_of_pos (by simpa using same),
          List.find?_cons_of_pos (by simpa using same')]
        exact .some ⟨related, same⟩
      · have same' : c'.name ≠ kind.name := named c c' related ▸ same
        rw [clause?, clause?, List.find?_cons_of_neg (by simpa using same),
          List.find?_cons_of_neg (by simpa using same')]
        exact ih

/-- What is read off corresponding clauses. -/
theorem map_clause?_congr {α : Type} {kind : ClauseKind} {f : Clause → α}
    (h : List.Forall₂ R cs cs') (named : ∀ c c', R c c' → c.name = c'.name)
    (same : ∀ c c', R c c' → c.name = kind.name → f c' = f c) :
    (clause? cs' kind).map f = (clause? cs kind).map f := by
  have related := clause?_rel h named kind
  generalize clause? cs kind = found at related ⊢
  generalize clause? cs' kind = found' at related ⊢
  cases related with
  | none => rfl
  | some both => rw [Option.map_some, Option.map_some, same _ _ both.1 both.2]

/-- Clauses of the same name whose parts have the same texts, or spell the same limit. -/
structure Clause.Agrees (c c' : Clause) : Prop where
  name : c.name = c'.name
  text : c.name ≠ ClauseKind.limit.name → ∀ separator, c'.text separator = c.text separator
  limit : c.name = ClauseKind.limit.name →
    limitOf (some (c'.text "")) = limitOf (some (c.text ""))

/-- **Clauses that agree make up the same query.** -/
theorem queryOf_congr (h : List.Forall₂ Clause.Agrees cs cs') : queryOf cs' = queryOf cs := by
  have others : ∀ kind ∈ ClauseKind.all, kind ≠ .limit → kind.name ≠ ClauseKind.limit.name := by
    decide
  have texts : ∀ kind ∈ ClauseKind.all, kind ≠ .limit → ∀ separator,
      (clause? cs' kind).map (Clause.text separator) =
        (clause? cs kind).map (Clause.text separator) :=
    fun kind mem notLimit separator => map_clause?_congr h (fun _ _ agrees => agrees.name)
      fun c c' agrees isNamed => agrees.text (isNamed ▸ others kind mem notLimit) separator
  have limits : limitOf ((clause? cs' .limit).map (Clause.text "")) =
      limitOf ((clause? cs .limit).map (Clause.text "")) := by
    have related := clause?_rel h (fun _ _ agrees => agrees.name) .limit
    generalize clause? cs .limit = found at related ⊢
    generalize clause? cs' .limit = found' at related ⊢
    cases related with
    | none => rfl
    | some both => exact both.1.limit both.2
  rw [queryOf, queryOf, limits, texts .table (by decide) (by decide),
    texts .condition (by decide) (by decide), texts .select (by decide) (by decide),
    texts .filter (by decide) (by decide)]

end Correspondence

end GrammarKit.Query
