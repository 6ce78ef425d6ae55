import GrammarKit.Proofs.QueryRoundTrip

/-!
# A query uses every word of its source once

What is read off a term is found by name: the first clause of a name, and in it the
first part of a name.  Conditions occur in two clauses and inside each other, and
keywords may be names.  Still every word of a source belongs to one clause, in the
order of the clauses, and the query has nothing but these words.

## Main Definitions

* `Query.Wording` — the texts of a query, clause by clause
* `Query.Wording.Spells` — the query that a wording gives

## Main Statements

* `Query.Clauses.texts_wording` — the wording of clauses has all their words
* `Query.Clauses.spells_wording` — and spells their query
* `Query.ofSource_spelled` — a query uses every word of its source once
-/

namespace GrammarKit.Query

open GrammarKit.Parser

/-! ### Wordings -/

/-- **The texts of a query, clause by clause**: each keyword and what stands behind
it. -/
structure Wording where
  select : Option (String × List String)
  fromWord : String
  table : String
  whereWord : String
  condition : List String
  filter : Option (String × List String)
  limit : Option (String × String)

namespace Wording

/-- All texts, one clause after the other. -/
def texts (w : Wording) : List String :=
  ((w.select.map fun s => s.1 :: s.2).getD []) ++
    w.fromWord :: w.table :: w.whereWord ::
      (w.condition ++ ((w.filter.map fun s => s.1 :: s.2).getD [] ++
        (w.limit.map fun s => [s.1, s.2]).getD []))

/-- **The query that a wording gives.**  Keywords are in any case; columns are put
together without a separator and conditions with a blank between their words, and a
limit is an integer. -/
structure Spells (w : Wording) (q : Query) : Prop where
  selectKeyword : ∀ s ∈ w.select, Text.upper s.1 = "SELECT"
  fromKeyword : Text.upper w.fromWord = "FROM"
  whereKeyword : Text.upper w.whereWord = "WHERE"
  filterKeyword : ∀ s ∈ w.filter, Text.upper s.1 = "FILTER"
  limitKeyword : ∀ s ∈ w.limit, Text.upper s.1 = "LIMIT"
  conditionFilled : w.condition ≠ []
  filterFilled : ∀ s ∈ w.filter, s.2 ≠ []
  table : q.table = some w.table
  keyCondition : q.keyCondition = some (" ".intercalate w.condition)
  projection : q.projection = w.select.map fun s => String.join s.2
  filter : q.filter = w.filter.map fun s => " ".intercalate s.2
  limit : q.limit.map some = w.limit.map fun s => Numeral.int? s.2

end Wording

/-! ### The wording of clauses -/

section Clauses

variable {c : Clause} {cs : Clauses} {kind : ClauseKind} {q : Query}

/-- The keyword of a clause and the texts behind it. -/
def Clause.wording (c : Clause) : String × List String :=
  (c.keyword.text, (Tree.tokensIn c.body).map Token.text)

theorem Clause.map_text_tokens (c : Clause) :
    c.tokens.map Token.text = c.wording.1 :: c.wording.2 := rfl

/-- The keyword of a clause is in some case. -/
theorem Clause.IsA.upper_keyword (isA : c.IsA kind) (mem : kind ∈ ClauseKind.all) :
    Text.upper c.wording.1 = kind.keyword := by
  have fixed : ∀ kind ∈ ClauseKind.all, Text.upper kind.keyword = kind.keyword := by decide
  have accepted := isA.keyword
  simp only [Terminal.accepts, Terminal.literal, Terminal.valueOf, beq_iff_eq] at accepted
  exact accepted.trans (fixed kind mem)

/-- Behind a keyword stands something. -/
theorem Clause.IsA.filled (isA : c.IsA kind) (mem : kind ∈ ClauseKind.all) : c.wording.2 ≠ [] := by
  have consumes : ∀ kind ∈ ClauseKind.all, kind.part ∉ clauseGrammar.nullable := by decide
  intro empty
  exact consumes kind mem (isA.body.nullable (List.map_eq_nil_iff.mp empty))

theorem Clause.text_eq_intercalate (c : Clause) (separator : String) :
    c.text separator = separator.intercalate c.wording.2 := rfl

/-- Without a separator a text is its words put together. -/
theorem Clause.text_eq_join (c : Clause) : c.text "" = String.join c.wording.2 := by
  rw [Clause.text_eq_intercalate]
  refine String.toList_inj.mp ?_
  rw [String.toList_intercalate, String.toList_join]
  induction c.wording.2 with
  | nil => rfl
  | cons first rest ih =>
      cases rest with
      | nil => simp
      | cons second others =>
          rw [List.flatMap_cons, ← ih]
          simp [List.intercalate_cons_cons]

/-- Tables and limits are single words. -/
theorem Clause.IsA.single (isA : c.IsA kind) (mem : kind ∈ [.table, .limit]) :
    c.wording.2 = [c.text ""] := by
  have declared : ∀ kind ∈ [ClauseKind.table, .limit], ∃ x,
      (clauseGrammar.rule? kind.part).map Rule.alternatives = some [[.one x]] := by
    simp only [List.forall_mem_cons]
    exact ⟨⟨.ofType Token.wordType, by decide⟩, ⟨.ofType Token.numberType, by decide⟩, nofun⟩
  obtain ⟨x, only⟩ := declared kind mem
  obtain ⟨t, body, -⟩ := single_of_builds only isA.body
  have single : c.wording.2 = [t.text] := by
    rw [Clause.wording, body]
    rfl
  rw [Clause.text_eq_join, single]
  simp

/-- The wording of clauses. -/
def Clauses.wording (cs : Clauses) : Wording where
  select := cs.select.map Clause.wording
  fromWord := cs.table.wording.1
  table := cs.table.text ""
  whereWord := cs.condition.wording.1
  condition := cs.condition.wording.2
  filter := cs.filter.map Clause.wording
  limit := cs.limit.map fun c => (c.wording.1, c.text "")

/-- A clause that may be left out has the words of its wording. -/
theorem texts_option (c? : Option Clause) :
    (c?.toList.flatMap Clause.tokens).map Token.text =
      ((c?.map Clause.wording).map fun s => s.1 :: s.2).getD [] := by
  cases c? with
  | none => rfl
  | some c => simp [Clause.map_text_tokens]

/-- **The wording of clauses has all their words**, in the same order. -/
theorem Clauses.texts_wording (valid : cs.Valid) :
    (cs.list.flatMap Clause.tokens).map Token.text = cs.wording.texts := by
  have limit : (cs.limit.toList.flatMap Clause.tokens).map Token.text =
      (cs.wording.limit.map fun s => [s.1, s.2]).getD [] := by
    rw [texts_option, Clauses.wording]
    cases present : cs.limit with
    | none => rfl
    | some c =>
        have single := (valid.limit c present).single (by decide)
        simp [single]
  have table := valid.table.single (by decide)
  rw [Clauses.list]
  simp only [List.flatMap_append, List.flatMap_cons, List.map_append, texts_option, limit,
    Clause.map_text_tokens, table]
  simp [Wording.texts, Clauses.wording]

/-- What is read off the text of a limit. -/
theorem limitOf_eq_ok {text? : Option String} {n? : Option Int} (h : limitOf text? = .ok n?) :
    n?.map some = text?.map Numeral.int? := by
  cases text? with
  | none =>
      cases h
      rfl
  | some text =>
      rw [limitOf] at h
      split at h
      · rename_i n spelled
        cases h
        simp [spelled]
      · cases h

/-- What holds of the wording of all clauses of a kind holds of one that may be left
out. -/
theorem forall_wording {α : Type} {c? : Option Clause} {f : Clause → α} {P : α → Prop}
    (isA : ∀ c, c? = some c → c.IsA kind) (worded : ∀ c, c.IsA kind → P (f c)) :
    ∀ s ∈ c?.map f, P s := by
  intro s mem
  obtain ⟨c, present, rfl⟩ := Option.map_eq_some_iff.mp mem
  exact worded c (isA c present)

/-- **The wording of clauses spells their query.** -/
theorem Clauses.spells_wording (valid : cs.Valid) (h : queryOf cs.list = .ok q) :
    cs.wording.Spells q := by
  obtain ⟨projection, table, keyCondition, filter, limit⟩ := queryOf_list valid h
  exact {
    selectKeyword := forall_wording valid.select fun _ isA => isA.upper_keyword (by decide)
    fromKeyword := valid.table.upper_keyword (by decide)
    whereKeyword := valid.condition.upper_keyword (by decide)
    filterKeyword := forall_wording valid.filter fun _ isA => isA.upper_keyword (by decide)
    limitKeyword := forall_wording valid.limit fun _ isA => isA.upper_keyword (by decide)
    conditionFilled := valid.condition.filled (by decide)
    filterFilled := forall_wording valid.filter fun _ isA => isA.filled (by decide)
    table := table
    keyCondition := keyCondition
    projection := by
      rw [projection, Clauses.wording, Option.map_map]
      exact congrArg (cs.select.map ·) (funext Clause.text_eq_join)
    filter := by
      rw [filter, Clauses.wording, Option.map_map]
      rfl
    limit := by
      rw [limitOf_eq_ok limit, Clauses.wording, Option.map_map, Option.map_map]
      rfl }

end Clauses

/-! ### Sources -/

/-- **A query uses every word of its source once**: the words of a source with a query
are those of a wording, in the same order and no others, and the wording spells the
query. -/
theorem ofSource_spelled (source : String) (q : Query) (h : ofSource source = .ok q) :
    ∃ tokens w, (language.tokenize source false).outcome = .ok tokens ∧
      tokens.map Token.text = Wording.texts w ∧ w.Spells q := by
  obtain ⟨tokens, cs, reads, made⟩ := reads_of_ofSource h
  refine ⟨tokens, cs.wording, reads.words, ?_, cs.spells_wording reads.valid made⟩
  rw [← reads.leaves]
  exact cs.texts_wording reads.valid

/-- Keywords are names where a name is due, and a condition in brackets belongs to the
one around it. -/
theorem ofSource_spelled_keywords :
    let source := "select from from limit where (k=1) filter filter=2 limit 3"
    ∃ q tokens w, ofSource source = .ok q ∧
      (language.tokenize source false).outcome = .ok tokens ∧
      tokens.map Token.text = Wording.texts w ∧ w.Spells q ∧
      q = { table := "limit", keyCondition := "( k = 1 )", projection := "from",
            filter := "filter = 2", limit := some 3 } := by
  intro source
  have computed : (ofSource source).toOption =
      some { table := "limit", keyCondition := "( k = 1 )", projection := "from",
             filter := "filter = 2", limit := some 3 } := by
    decide +kernel
  cases h : ofSource source with
  | error e =>
      rw [h] at computed
      cases computed
  | ok q =>
      rw [h] at computed
      obtain ⟨tokens, w, words, texts, spells⟩ := ofSource_spelled _ _ h
      exact ⟨q, tokens, w, rfl, words, texts, spells, Option.some.inj computed⟩

end GrammarKit.Query
