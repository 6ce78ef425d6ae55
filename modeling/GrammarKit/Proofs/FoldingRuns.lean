import GrammarKit.Proofs.Coarsening
import GrammarKit.Proofs.Termination
import GrammarKit.Proofs.Tracing

/-!
# Runs that only fold converge

Passes never add a token.  So the only passes that can keep a word builder busy
are those that **retype**: they give back as many tokens as they got, but other
ones.  Where every pass that changes something also shortens the tokens, there
are at most as many of them as there were tokens, and one more pass ends the run.

## Main Definitions

* `WordBuilder.Run` — what is reached by a number of passes that each change
  something
* `WordBuilder.Makes` — the passes that word building makes of some tokens
* `WordBuilder.Ends` — how the last pass of a run that is not cut off ends

## Main Statements

* `WordBuilder.settle_run` — settling follows the run, to its end or to the limit
* `WordBuilder.Run.length_add_le` — each pass of a run that only folds costs a token
* `WordBuilder.build_converges` — runs that only fold end before the default limit,
  and a run that does not end has a pass that retypes

## Design Notes

The limit is computed once, from the tokens that word building begins with, and the
count of passes is compared with the same tokens.  So a run keeps its beginning: it
grows at its end, as the loop does.
-/

namespace GrammarKit.WordBuilder

variable {b : WordBuilder} {tokens current next : List Token} {made : Nat}

/-! ### Runs -/

/-- **What is reached by a number of passes**, each of which changes something. -/
inductive Run (b : WordBuilder) (tokens : List Token) : Nat → List Token → Prop where
  | start : Run b tokens 0 tokens
  | change {made : Nat} {current next : List Token} :
      Run b tokens made current → (b.pass current).outcome = .ok next → next ≠ current →
      Run b tokens (made + 1) next

/-- **A pass that word building makes** of some tokens: what it is given, and what it
gives back. -/
def Makes (b : WordBuilder) (tokens current next : List Token) : Prop :=
  ∃ made : Nat, (made : Int) < b.limit tokens ∧ b.Run tokens made current ∧
    (b.pass current).outcome = .ok next

/-- **How the last pass ends**: it changes nothing, its tokens do not match the grammar,
or its rules nest too deeply. -/
inductive Ends (b : WordBuilder) (last : List Token) : Except Error (List Token) → Prop where
  | fixed : (b.pass last).outcome = .ok last → Ends b last (.ok last)
  | failed {term : Term} : (b.pass last).outcome = .error (.failed term) →
      Ends b last (.error (.failed term))
  | tooDeep {rule : String} : (b.pass last).outcome = .error (.fault (.tooDeep b.maxDepth rule)) →
      Ends b last (.error (.fault (.tooDeep b.maxDepth rule)))

/-- A pass has no error but that of a failed term or of rules that nest too deeply: its
parser starts with a rule that is declared. -/
theorem ends_of_error {e : Error} (h : (b.pass current).outcome = .error e) :
    b.Ends current (.error e) := by
  rcases b.parser.parse_cases current with ⟨f, faulty, attempted⟩ | ⟨term, -, parsed, -, -⟩
  · obtain ⟨rule, rfl⟩ := Parser.applyRule_faultsIn_tooDeep _ _ _ _
      b.parser.grammar.root_mem_names f attempted
    have deep : (b.pass current).outcome = .error (.fault (.tooDeep b.maxDepth rule)) := by
      rw [pass, Traced.outcome_bind, Traced.outcome_mapError, faulty]
      rfl
    rw [h] at deep
    cases deep
    exact .tooDeep h
  · have passed := outcome_pass parsed
    rw [h] at passed
    split at passed
    · cases passed
    · cases passed
      exact .failed h

/-- **Settling follows the run.**  From tokens that a run has reached it goes on to the
end of the run, or it uses up the passes that are left, each of which changes
something. -/
theorem settle_run {limit : Int} (left : Nat) :
    ∀ {made : Nat} {current : List Token} (number : Nat), b.Run tokens made current →
      (∃ made' last, made' < made + left ∧ b.Run tokens made' last ∧
        b.Ends last (b.settle limit left number current).outcome) ∨
      (b.settle limit left number current).outcome = .error (.unsettled limit) ∧
        ∃ last, b.Run tokens (made + left) last := by
  induction left with
  | zero =>
      intro made current number run
      exact Or.inr ⟨rfl, current, run⟩
  | succ left ih =>
      intro made current number run
      rw [outcome_settle_succ]
      cases passed : (b.pass current).outcome with
      | error e => exact Or.inl ⟨made, current, by omega, run, ends_of_error passed⟩
      | ok next =>
          show (∃ made' last, _ ∧ _ ∧ b.Ends last (if next = current then _ else _)) ∨
            (if next = current then _ else _) = _ ∧ _
          by_cases same : next = current
          · rw [if_pos same]
            rw [same] at passed
            exact Or.inl ⟨made, current, by omega, run, .fixed passed⟩
          · rw [if_neg same]
            have further := ih (number + 1) (run.change passed same)
            rwa [show made + 1 + left = made + (left + 1) by omega] at further

/-! ### Counting -/

/-- No pass adds a token. -/
theorem length_le_of_pass (h : (b.pass current).outcome = .ok next) :
    next.length ≤ current.length :=
  (coarsens_of_pass h).length_le

/-- **Each pass of a run that only folds costs a token**, as far as the limit lets the
run go. -/
theorem Run.length_add_le (h : b.Run tokens made current) (inside : (made : Int) ≤ b.limit tokens)
    (folds : ∀ current next, b.Makes tokens current next → next ≠ current →
      next.length < current.length) :
    current.length + made ≤ tokens.length := by
  induction h with
  | start => exact Nat.le_refl _
  | @change made current next run passed changed ih =>
      have shorter := folds current next ⟨made, by omega, run, passed⟩ changed
      have before := ih (by omega)
      omega

/-- The default limit is more than twice the number of tokens. -/
theorem limit_of_unlimited (unlimited : b.maxPasses = none) (tokens : List Token) :
    b.limit tokens = 2 * tokens.length + 2 := by
  rw [limit, unlimited, Option.getD_none]

/-- **Passes that only fold settle** after at most as many changes as there are tokens. -/
theorem ends_of_folds (unlimited : b.maxPasses = none)
    (folds : ∀ current next, b.Makes tokens current next → next ≠ current →
      next.length < current.length) :
    ∃ made last, made ≤ tokens.length ∧ b.Run tokens made last ∧
      b.Ends last (b.settle (b.limit tokens) (b.limit tokens).toNat 1 tokens).outcome := by
  have limit := limit_of_unlimited unlimited tokens
  have shortened : ∀ {made last}, made ≤ (b.limit tokens).toNat → b.Run tokens made last →
      made ≤ tokens.length := by
    intro made last inside run
    have paid := run.length_add_le (by omega) folds
    omega
  rcases settle_run (b.limit tokens).toNat 1 (Run.start (b := b)) with
    ⟨made, last, inside, run, ends⟩ | ⟨-, last, run⟩
  · exact ⟨made, last, shortened (by omega) run, run, ends⟩
  · -- the passes would have used up the limit, which no run of that kind does
    have few := shortened (by omega) run
    omega

/-- **Word building that only folds converges.**  With the default limit no pass gives
back more tokens than it got.  If the passes are used up, one of them gave back as
many tokens as it got, but other ones.  If every pass that changes something gives
back fewer tokens, at most as many passes as there are tokens change something, and
the next one is the last: it finds the words, a failed term or rules that nest too
deeply. -/
theorem build_converges (b : WordBuilder) (tokens : List Token) (raw : Bool)
    (unlimited : b.maxPasses = none) :
    (∀ current next, b.Makes tokens current next → next.length ≤ current.length) ∧
    (∀ limit, (b.build tokens raw).outcome = .error (.unsettled limit) →
      ∃ current next, b.Makes tokens current next ∧ next ≠ current ∧
        next.length = current.length) ∧
    ((∀ current next, b.Makes tokens current next → next ≠ current →
        next.length < current.length) →
      ∃ made last outcome, made + 1 ≤ tokens.length + 1 ∧ b.Run tokens made last ∧
        b.Ends last outcome ∧
        (b.build tokens raw).outcome = outcome.map fun words =>
          if raw then words else words.filter fun t => !t.isBlank b.blankTypes) := by
  have noLonger : ∀ current next, b.Makes tokens current next → next.length ≤ current.length :=
    fun current next ⟨_, _, _, passed⟩ => length_le_of_pass passed
  refine ⟨noLonger, fun limit unsettled => ?_, fun folds => ?_⟩
  · refine Classical.byContradiction fun none => ?_
    -- without a pass that retypes, every change is a fold
    have folds : ∀ current next, b.Makes tokens current next → next ≠ current →
        next.length < current.length := by
      intro current next makes changed
      refine Nat.lt_of_le_of_ne (noLonger current next makes) fun same => ?_
      exact none ⟨current, next, makes, changed, same⟩
    obtain ⟨made, last, -, -, ends⟩ := ends_of_folds unlimited folds
    rw [outcome_build] at unsettled
    generalize (b.settle _ _ 1 tokens).outcome = outcome at ends unsettled
    cases ends with
    | fixed _ => cases unsettled
    | failed _ => cases unsettled
    | tooDeep _ => cases unsettled
  · obtain ⟨made, last, few, run, ends⟩ := ends_of_folds unlimited folds
    exact ⟨made, last, _, Nat.succ_le_succ few, run, ends, outcome_build b tokens raw⟩

/-- A word builder that folds a comparison of two characters, and that makes a name of
a word and a word of a name. -/
def restless : WordBuilder where
  grammar :=
    { rules :=
        [⟨"words", [[.rule "comparison"], [.rule "word"], [.rule "name"], [.ofType "PUNCT"]],
          by decide⟩,
         ⟨"comparison", [[.literal "<", .literal "="]], by decide⟩,
         ⟨"word", [[.ofType "IDENT"]], by decide⟩,
         ⟨"name", [[.ofType "NAME"]], by decide⟩]
      root := "words" }
  wordTypes := [("comparison", "PUNCT"), ("word", "NAME"), ("name", "IDENT")]

/-- A comparison is folded by the first pass and stays as it is in the second.  A word
changes its type in every pass until the passes are used up. -/
theorem build_converges_restless :
    restless.maxPasses = none ∧
    (let tokens := [⟨"PUNCT", "<", 1, 1⟩, ⟨"PUNCT", "=", 1, 2⟩];
     (∀ current next, restless.Makes tokens current next → next ≠ current →
        next.length < current.length) ∧
      ∃ made last outcome, made + 1 ≤ 3 ∧ restless.Run tokens made last ∧
        restless.Ends last outcome ∧ (restless.build tokens true).outcome = outcome) ∧
    (restless.build [⟨"IDENT", "a", 1, 1⟩] true).outcome = .error (.unsettled 4) ∧
    ∃ current next, restless.Makes [⟨"IDENT", "a", 1, 1⟩] current next ∧ next ≠ current ∧
      next.length = current.length := by
  refine ⟨rfl, ?_, ?_⟩
  · intro tokens
    have first : (restless.pass tokens).outcome = .ok [⟨"PUNCT", "<=", 1, 1⟩] := rfl
    have second : (restless.pass [⟨"PUNCT", "<=", 1, 1⟩]).outcome =
        .ok [⟨"PUNCT", "<=", 1, 1⟩] := rfl
    have reached : ∀ made current, restless.Run tokens made current →
        current = tokens ∨ current = [⟨"PUNCT", "<=", 1, 1⟩] := by
      intro made current run
      induction run with
      | start => exact Or.inl rfl
      | change _ passed changed ih =>
          rcases ih with rfl | rfl
          · rw [first] at passed
            cases passed
            exact Or.inr rfl
          · rw [second] at passed
            cases passed
            exact (changed rfl).elim
    have folds : ∀ current next, restless.Makes tokens current next → next ≠ current →
        next.length < current.length := by
      rintro current next ⟨made, -, run, passed⟩ changed
      rcases reached made current run with rfl | rfl
      · rw [first] at passed
        cases passed
        decide
      · rw [second] at passed
        cases passed
        exact (changed rfl).elim
    obtain ⟨made, last, outcome, few, run, ends, built⟩ :=
      (build_converges restless tokens true rfl).2.2 folds
    refine ⟨folds, made, last, outcome, few, run, ends, ?_⟩
    rw [built]
    cases outcome <;> rfl
  · have forth : (restless.pass [⟨"IDENT", "a", 1, 1⟩]).outcome = .ok [⟨"NAME", "a", 1, 1⟩] := rfl
    have back : (restless.pass [⟨"NAME", "a", 1, 1⟩]).outcome = .ok [⟨"IDENT", "a", 1, 1⟩] := rfl
    have unsettled :
        (restless.build [⟨"IDENT", "a", 1, 1⟩] true).outcome = .error (.unsettled 4) := by
      rw [outcome_build, show restless.limit [⟨"IDENT", "a", 1, 1⟩] = 4 from rfl]
      show ((restless.settle 4 4 1 _).outcome.map _) = _
      simp only [outcome_settle_succ, forth, back, Except.bind]
      rfl
    exact ⟨unsettled, (build_converges restless _ true rfl).2.1 4 unsettled⟩

end GrammarKit.WordBuilder
