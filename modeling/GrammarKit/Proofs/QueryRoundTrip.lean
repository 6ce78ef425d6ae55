import GrammarKit.Proofs.Conservation
import GrammarKit.Proofs.QueryRendering

/-!
# Queries are read back

A query that is read off a source can be written down again, and what is written
down is a source of the same query.

The words of the new source are known, since each clause is written down as a
text that is read as certain words.  No terminal can tell these words from those
of the source, so they match with trees of the same shape: clause for clause, with
as many words in each.

## Main Definitions

* `Query.render?` — a query written down
* `Query.Reads` — the words of a source and the clauses that they make up

## Main Statements

* `Query.reads_of_ofSource`, `Query.ofSource_of_reads` — the query of a source is that
  of its clauses
* `Query.exists_written` — a query is written down clause by clause
* `Query.ofSource_render` — what is written down has the same query
-/

namespace GrammarKit.Query

open GrammarKit.Parser

/-- **A query written down**, if it has a table and a condition. -/
def render? (q : Query) : Option String := do
  let table ← q.table
  let condition ← q.keyCondition
  let select := q.projection.elim "" fun columns => "SELECT " ++ columns ++ " "
  let filter := q.filter.elim "" fun condition => " FILTER " ++ condition
  let limit := q.limit.elim "" fun count => " LIMIT " ++ toString count
  return select ++ "FROM " ++ table ++ " WHERE " ++ condition ++ filter ++ limit

/-- What is written down are clauses with blanks between them. -/
theorem render?_eq_intercalate {q : Query} {table condition : String} (hTable : q.table = some table)
    (hCondition : q.keyCondition = some condition) :
    q.render? = some (" ".intercalate (q.projection.toList.map ("SELECT" ++ " " ++ ·) ++
      ("FROM" ++ " " ++ table) :: ("WHERE" ++ " " ++ condition) ::
        (q.filter.toList.map ("FILTER" ++ " " ++ ·) ++
          q.limit.toList.map fun count => "LIMIT" ++ " " ++ toString count))) := by
  simp only [render?, hTable, hCondition, Option.bind_eq_bind, Option.bind_some, Option.pure_def]
  refine congrArg some (String.toList_inj.mp ?_)
  cases q.projection <;> cases q.filter <;> cases q.limit <;>
    simp [String.intercalate_cons_cons]

/-! ### The clauses of a source -/

/-- **The words of a source and the clauses that they make up.** -/
structure Reads (source : String) (tokens : List Token) (cs : Clauses) : Prop where
  words : (language.tokenize source false).outcome = .ok tokens
  valid : cs.Valid
  parsed : (language.parser.parse tokens).outcome =
    .ok ⟨clauseGrammar.root, cs.list.map Clause.tree, none⟩
  leaves : cs.list.flatMap Clause.tokens = tokens

section Sources

variable {source : String} {tokens : List Token} {cs : Clauses}

/-- The words of a source are finished. -/
theorem finished_of_tokenize (h : (language.tokenize source false).outcome = .ok tokens) :
    ∀ t ∈ tokens, Finished t := by
  intro t mem
  obtain ⟨regular, spelled, typed⟩ := tokenize_spelled h t mem
  exact ⟨regular, spelled, typed⟩

theorem isBlank_of_finished {t : Token} (finished : Finished t) :
    t.isBlank language.parser.blankTypes = false := by
  have solid : ∀ type ∈ finishedTypes, type ∉ language.parser.blankTypes := by decide
  simpa [Token.isBlank] using solid t.type finished.typed

theorem clauseGrammar_untilFree : language.parser.grammar.UntilFree := by
  decide

/-- **Words that match are clauses.** -/
theorem reads_of_parse {term : Term} (words : (language.tokenize source false).outcome = .ok tokens)
    (parsed : (language.parser.parse tokens).outcome = .ok term) (isOk : term.ok = true) :
    ∃ cs : Clauses, Reads source tokens cs ∧
      term = ⟨clauseGrammar.root, cs.list.map Clause.tree, none⟩ := by
  have noBlank : ∀ t ∈ tokens, t.isBlank language.parser.blankTypes = false :=
    fun t mem => isBlank_of_finished (finished_of_tokenize words t mem)
  have leaves := ((spans_of_parse parsed).1 isOk).tokens_eq
  obtain ⟨children, rfl, built⟩ := builds_of_parse noBlank clauseGrammar_untilFree parsed isOk
  obtain ⟨cs, valid, rfl⟩ := clauses_of_builds built
  refine ⟨cs, ⟨words, valid, parsed, ?_⟩, rfl⟩
  rw [← tokensIn_clauses]
  exact leaves

/-- A source has words, or word building leaves a failed term. -/
theorem tokenize_cases (source : String) :
    (∃ tokens, (language.tokenize source false).outcome = .ok tokens) ∨
      ∃ term failure, (language.tokenize source false).outcome = .error (.failed term) ∧
        term.failure = some failure := by
  have regular : ∀ t ∈ Profile.standalone.tokens source, Regular t :=
    fun t mem => regular_of_fits (Profile.fits_of_mem_tokens mem)
  have room := weigh_le (Profile.standalone.tokens source)
  rw [outcome_tokenize]
  rcases WordBuilder.build_of_measure words_progresses rfl regular (by omega) false with
    ⟨-, tokens, -, -, built, -⟩ | ⟨e, failed, term, failure, rfl, isFailed, -⟩
  · exact Or.inl ⟨tokens, built⟩
  · exact Or.inr ⟨term, failure, failed, isFailed⟩

/-- Only words match. -/
theorem words_of_parse {term : Term} (h : (language.parse source).outcome = .ok term)
    (isOk : term.ok = true) :
    ∃ tokens, (language.tokenize source false).outcome = .ok tokens ∧
      (language.parser.parse tokens).outcome = .ok term := by
  rw [Language.parse, Traced.outcome_recover] at h
  rcases tokenize_cases source with ⟨tokens, built⟩ | ⟨term', failure, failed, isFailed⟩
  · rw [built] at h
    exact ⟨tokens, built, Language.outcome_parseTokens_eq_ok.mp h⟩
  · rw [failed] at h
    cases h
    rw [Term.ok, isFailed] at isOk
    cases isOk

/-- The query of a term is read off it. -/
theorem evaluate_root (children : List Tree) :
    language.evaluate ⟨clauseGrammar.root, children, none⟩ =
      (project language.parser.blankTypes ⟨clauseGrammar.root, children, none⟩).mapError
        .evaluator := by
  have declared : clauseGrammar.declares clauseGrammar.root = true := by decide
  simp only [language, Language.evaluate, Evaluation.evaluate, Evaluation.subject,
    Subject.evaluate, Language.semantics, Language.grammar, declared, if_true, evaluateQuery]

/-- The words of clauses are finished. -/
theorem Reads.finished (h : Reads source tokens cs) :
    ∀ c ∈ cs.list, ∀ t ∈ c.tokens, Finished t := by
  intro c isClause t mem
  refine finished_of_tokenize h.words t ?_
  rw [← h.leaves]
  exact List.mem_flatMap.mpr ⟨c, isClause, mem⟩

/-- **The query of a source is that of its clauses.** -/
theorem ofSource_of_reads (h : Reads source tokens cs) :
    ofSource source = ((queryOf cs.list).mapError .evaluator).mapError .evaluation := by
  have parsed : (language.parse source).outcome =
      .ok ⟨clauseGrammar.root, cs.list.map Clause.tree, none⟩ := by
    rw [Language.parse, Traced.outcome_recover, h.words]
    exact Language.outcome_parseTokens_eq_ok.mpr h.parsed
  have noBlank : ∀ c ∈ cs.list, ∀ t ∈ c.tokens, t.isBlank language.parser.blankTypes = false :=
    fun c isClause t mem => isBlank_of_finished (h.finished c isClause t mem)
  rw [ofSource, parsed]
  show (language.evaluate _).mapError _ = _
  rw [evaluate_root, project_clauses h.valid.isA noBlank]

/-- **A source with a query has clauses**, and they make up the query. -/
theorem reads_of_ofSource {q : Query} (h : ofSource source = .ok q) :
    ∃ tokens cs, Reads source tokens cs ∧ queryOf cs.list = .ok q := by
  obtain ⟨term, parsed, isOk⟩ : ∃ term, (language.parse source).outcome = .ok term ∧
      term.ok = true := by
    unfold ofSource at h
    split at h
    · cases h
    · rename_i term parsed
      split at h
      · exact ⟨term, parsed, ‹_›⟩
      · cases h
  obtain ⟨tokens, words, matched⟩ := words_of_parse parsed isOk
  obtain ⟨cs, reads, -⟩ := reads_of_parse words matched isOk
  refine ⟨tokens, cs, reads, ?_⟩
  rw [ofSource_of_reads reads] at h
  cases made : queryOf cs.list with
  | error e =>
      rw [made] at h
      cases h
  | ok other =>
      rw [made] at h
      cases h
      rfl

end Sources

/-! ### Clause by clause -/

section Rendering

variable {cs : Clauses} {q : Query}

/-- A clause that may be left out is found by its name. -/
theorem clause?_option {c? : Option Clause} {kind : ClauseKind}
    (isA : ∀ c, c? = some c → c.IsA kind) (kind' : ClauseKind) :
    clause? c?.toList kind' = if kind.name = kind'.name then c? else none := by
  cases c? with
  | none => simp [clause?]
  | some c => simp [clause?, (isA c rfl).name]

/-- **The clauses of a query are found by their names.** -/
theorem clause?_list (valid : cs.Valid) :
    clause? cs.list .select = cs.select ∧ clause? cs.list .table = some cs.table ∧
      clause? cs.list .condition = some cs.condition ∧ clause? cs.list .filter = cs.filter ∧
      clause? cs.list .limit = cs.limit := by
  have split : ∀ kind, clause? cs.list kind =
      (clause? cs.select.toList kind).or ((clause? (some cs.table).toList kind).or
        ((clause? (some cs.condition).toList kind).or
          ((clause? cs.filter.toList kind).or (clause? cs.limit.toList kind)))) := by
    intro kind
    simp only [clause?, ← List.find?_append]
    rfl
  have table := @clause?_option (some cs.table) .table (fun c same => by
    cases same
    exact valid.table)
  have condition := @clause?_option (some cs.condition) .condition (fun c same => by
    cases same
    exact valid.condition)
  simp only [split, clause?_option valid.select, table, condition, clause?_option valid.filter,
    clause?_option valid.limit]
  simp [ClauseKind.select, ClauseKind.table, ClauseKind.condition, ClauseKind.filter,
    ClauseKind.limit]

/-- What is read off the clauses of a query. -/
theorem queryOf_list (valid : cs.Valid) (h : queryOf cs.list = .ok q) :
    q.projection = cs.select.map (Clause.text "") ∧ q.table = some (cs.table.text "") ∧
      q.keyCondition = some (cs.condition.text " ") ∧ q.filter = cs.filter.map (Clause.text " ") ∧
      limitOf (cs.limit.map (Clause.text "")) = .ok q.limit := by
  obtain ⟨select, table, condition, filter, limit⟩ := clause?_list valid
  rw [queryOf, select, table, condition, filter, limit] at h
  cases read : limitOf (cs.limit.map (Clause.text "")) with
  | error e =>
      rw [read] at h
      cases h
  | ok n? =>
      rw [read] at h
      cases h
      exact ⟨rfl, rfl, rfl, rfl, rfl⟩

/-- The text and the words of a clause that is no limit. -/
def ClauseKind.written (kind : ClauseKind) (c : Clause) : String × List (String × String) :=
  (kind.keyword ++ " " ++ c.text kind.separator,
    ("IDENT", kind.keyword) :: (Tree.tokensIn c.body).map key)

/-- The text and the words of a limit. -/
def writtenLimit (n : Int) : String × List (String × String) :=
  ("LIMIT" ++ " " ++ toString n, [("IDENT", "LIMIT"), ("NUMLIT", toString n)])

/-- Clauses written down one after the other. -/
def Written : List Clause → List (String × List (String × String)) → Prop :=
  List.Forall₂ fun c w => Anew c w.1 w.2

theorem written_option {c? : Option Clause} {kind : ClauseKind} (mem : kind ∈ ClauseKind.all)
    (notLimit : kind ≠ .limit) (isA : ∀ c, c? = some c → c.IsA kind)
    (finished : ∀ c ∈ c?.toList, ∀ t ∈ c.tokens, Finished t) :
    Written c?.toList (c?.toList.map kind.written) := by
  cases c? with
  | none => exact .nil
  | some c =>
      exact .cons (anew_clause mem notLimit (isA c rfl) (finished c List.mem_cons_self)) .nil

theorem written_limit {c? : Option Clause} {n? : Option Int}
    (isA : ∀ c, c? = some c → c.IsA .limit)
    (finished : ∀ c ∈ c?.toList, ∀ t ∈ c.tokens, Finished t)
    (h : limitOf (c?.map (Clause.text "")) = .ok n?) :
    Written c?.toList (n?.toList.map writtenLimit) := by
  cases c? with
  | none =>
      cases h
      exact .nil
  | some c =>
      rw [Option.map_some, limitOf] at h
      split at h
      · rename_i n spelled
        cases h
        exact .cons (anew_limit (isA c rfl) (finished c List.mem_cons_self) spelled) .nil
      · cases h

/-- **A query is written down clause by clause.** -/
theorem exists_written (valid : cs.Valid) (finished : ∀ c ∈ cs.list, ∀ t ∈ c.tokens, Finished t)
    (h : queryOf cs.list = .ok q) :
    ∃ ws : List (String × List (String × String)), ws ≠ [] ∧ Written cs.list ws ∧
      q.render? = some (" ".intercalate (ws.map Prod.fst)) := by
  obtain ⟨projection, table, keyCondition, filter, limit⟩ := queryOf_list valid h
  simp only [Clauses.list, List.forall_mem_append, List.forall_mem_cons] at finished
  obtain ⟨ofSelect, ofTable, ofCondition, ofFilter, ofLimit⟩ := finished
  refine ⟨cs.select.toList.map ClauseKind.select.written ++
    ClauseKind.table.written cs.table :: ClauseKind.condition.written cs.condition ::
      (cs.filter.toList.map ClauseKind.filter.written ++ q.limit.toList.map writtenLimit),
    by simp, ?_, ?_⟩
  · refine List.rel_append (written_option (by decide) (by decide) valid.select ofSelect) ?_
    refine .cons (anew_clause (by decide) (by decide) valid.table ofTable) ?_
    refine .cons (anew_clause (by decide) (by decide) valid.condition ofCondition) ?_
    exact List.rel_append (written_option (by decide) (by decide) valid.filter ofFilter)
      (written_limit valid.limit ofLimit limit)
  · rw [render?_eq_intercalate table keyCondition, projection, filter]
    simp only [List.map_append, List.map_cons, List.map_map, Option.toList_map]
    rfl

end Rendering

/-! ### The round trip -/

section RoundTrip

variable {cs cs' : List Clause} {ws : List (String × List (String × String))}

theorem Written.pieces (h : Written cs ws) : ∀ w ∈ ws, Piece w.2 w.1.toList := by
  induction h with
  | nil => nofun
  | cons first _ ih => exact List.forall_mem_cons.mpr ⟨first.piece, ih⟩

/-- The words that are written down can take the places of the words of the clauses. -/
theorem Written.replaces (h : Written cs ws) :
    List.Forall₂ Replaces (cs.flatMap Clause.tokens) (ws.flatMap Prod.snd) := by
  induction h with
  | nil => exact .nil
  | cons first _ ih => exact List.rel_append first.replaces ih

/-- Clauses of the words that are written down agree with those that they were written for. -/
theorem Written.agrees (h : Written cs ws)
    (shapes : List.Forall₂ (fun c c' => c.name = c'.name ∧ c.tokens.length = c'.tokens.length) cs cs')
    (keys : (cs'.flatMap Clause.tokens).map key = ws.flatMap Prod.snd) :
    List.Forall₂ Clause.Agrees cs cs' := by
  induction h generalizing cs' with
  | nil =>
      cases shapes
      exact .nil
  | @cons c w cs ws first _ ih =>
      obtain _ | ⟨⟨named, length⟩, others⟩ := shapes
      -- as many words in each clause, so the words fall to the clauses in the same way
      rw [List.flatMap_cons, List.flatMap_cons, List.map_append] at keys
      obtain ⟨here, later⟩ := List.append_inj keys (by
        rw [List.length_map, ← length, first.replaces.length_eq])
      exact .cons (first.agrees _ named here) (ih others later)

/-- **What is written down has the same query.**  A query that is read off a source
has a table and a condition, and what is written down for it is a source of the
query. -/
theorem ofSource_render (source : String) (q : Query) (h : ofSource source = .ok q) :
    ∃ r, q.render? = some r ∧ ofSource r = .ok q := by
  obtain ⟨tokens, cs, reads, made⟩ := reads_of_ofSource h
  obtain ⟨ws, filled, written, rendered⟩ := exists_written reads.valid reads.finished made
  refine ⟨_, rendered, ?_⟩
  -- the words of what is written down
  obtain ⟨tokens', words', keys⟩ := tokenize_of_piece (piece_spaced filled written.pieces)
  have finished := finished_of_tokenize reads.words
  have finished' := finished_of_tokenize words'
  have alike : List.Forall₂ (Alike clauseGrammar) tokens tokens' := by
    refine alike_of_replaces finished' ?_
    rw [keys, ← reads.leaves]
    exact written.replaces
  -- their clauses
  obtain ⟨children, children', same, parsed', shapes⟩ := parse_alike
    (fun t mem => isBlank_of_finished (finished t mem))
    (fun t mem => isBlank_of_finished (finished' t mem)) clauseGrammar_untilFree alike
    reads.parsed rfl
  obtain ⟨cs', reads', same'⟩ := reads_of_parse words' parsed' rfl
  cases same
  cases same'
  have agrees := written.agrees (forall₂_clauses shapes) (by rw [reads'.leaves, keys])
  rw [ofSource_of_reads reads', queryOf_congr agrees, made]
  rfl

/-- Keywords in lower case, blanks and a sign are gone from what is written down. -/
theorem ofSource_render_limit :
    ∃ q, ofSource "select a, b from t where k<1 limit +07" = .ok q ∧
      q.render? = some "SELECT a,b FROM t WHERE k < 1 LIMIT 7" ∧
      ofSource "SELECT a,b FROM t WHERE k < 1 LIMIT 7" = .ok q := by
  have computed : (ofSource "select a, b from t where k<1 limit +07").toOption =
      some { table := "t", keyCondition := "k < 1", projection := "a,b", limit := some 7 } := by
    decide +kernel
  cases h : ofSource "select a, b from t where k<1 limit +07" with
  | error e =>
      rw [h] at computed
      cases computed
  | ok q =>
      rw [h] at computed
      obtain rfl := Option.some.inj computed
      obtain ⟨r, rendered, back⟩ := ofSource_render _ _ h
      have written : some r = some "SELECT a,b FROM t WHERE k < 1 LIMIT 7" := by
        rw [← rendered]
        decide +kernel
      cases written
      exact ⟨_, rfl, rendered, back⟩

end RoundTrip

end GrammarKit.Query
