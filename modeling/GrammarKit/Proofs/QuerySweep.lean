import GrammarKit.Proofs.QueryRoles

/-!
# A pass over the tokens of a query

What a pass makes of tokens can be said without parser and trees.  The word that
begins with a token is found from its role and the roles of the tokens ahead, and
a pass folds one word after the other.

## Main Definitions

* `Query.munch` — the word that begins with a token
* `Query.sweep` — one pass over a list of tokens
* `Query.Word`, `Query.Swept` — the words that a pass can fold, and a pass word by word

## Main Statements

* `Query.munch_eq_firstOf` — a word is the first that is not refused
* `Query.word_comes` — a word comes to what is folded from the tokens ahead
* `Query.pass_eq_ok_iff` — a pass is a sweep
* `Query.word_of_munch` — what begins with a token is one of the words

## Design Notes

`munch` looks at the role of the token first, so that it can be evaluated where
that role is known; the grammar tries its rules in order.  The two agree because
a token has one role.
-/

namespace GrammarKit.Query

open Element (rule ofType)
open GrammarKit.Parser

/-! ### One word -/

/-- How many tokens a full stop and a number take that are next. -/
def fraction (ahead : List Token) : Nat :=
  if nextAll [.dot, .number] ahead then 2 else 0

/-- The roles that a token is joined with to a comparison operator, a comment mark
or an escaped character. -/
def Role.partners : Role → List Role
  | .less => [.equal, .greater]
  | .greater => [.equal]
  | .slash => [.star, .slash]
  | .star => [.slash]
  | .minus => [.minus]
  | .backslash => [.backslash, .quote true, .quote false]
  | _ => []

/-- The type of a string between quotes. -/
def stringType : Bool → String
  | true => "STRLIT-DQ"
  | false => "STRLIT-SQ"

/-- The type of a quote that is marked. -/
def quoteType : Bool → String
  | true => "QUOTE-DQ"
  | false => "QUOTE-SQ"

/-- **The word that begins with a token**: the type it gets and how many of the
tokens ahead belong to it; nothing if its terminator is missing. -/
def munch (t : Token) (ahead : List Token) : Option (String × Nat) :=
  match role t with
  | none => some (t.type, 0)
  | some .name => some ("IDENT", steps ahead)
  | some .number => some ("NUMLIT", fraction ahead)
  | some .colon => some (if next .name ahead then ("IDENT", 1) else (t.type, 0))
  | some .blockOpen => (seek .blockClose ahead).map fun n => ("WS-BLOCK-COMMENT", n + 1)
  | some .dashes | some .slashes => (seek .lineFeed ahead).map fun n => ("WS-LINE-COMMENT", n)
  | some (.mark double) => (seek (.mark double) ahead).map fun n => (stringType double, n + 1)
  | some (.quote double) => some (quoteType double, 0)
  | some r =>
    some (if (r = .plus ∨ r = .minus) ∧ next .number ahead then
        ("NUMLIT", 1 + fraction (ahead.drop 1))
      else if r.partners.any (next · ahead) then ("PUNCT", 1)
      else (t.type, 0))

section Words

variable {t : Token} {ahead : List Token}

theorem fits_of_role {r : Role} (h : role t = some r) (r' : Role) :
    fits r' t = (r == r' || r.bare == r') := by
  rw [fits, h]
  rfl

theorem fits_of_role_none (h : role t = none) (r : Role) : fits r t = false := by
  rw [fits, h]
  rfl

/-- The first reading of some that is not refused: its type and how many tokens
behind the first it takes.  A token for which all are refused is kept. -/
def firstOf (kept : String) : List (String × Reach) → Option (String × Nat)
  | [] => some (kept, 0)
  | (type, .took n) :: _ => some (type, n - 1)
  | (_, .aborted) :: _ => none
  | (_, .refused) :: rest => firstOf kept rest

section First

variable {kept type : String} {rest : List (String × Reach)}

@[simp] theorem firstOf_nil : firstOf kept [] = some (kept, 0) := rfl

@[simp] theorem firstOf_took (n : Nat) :
    firstOf kept ((type, .took n) :: rest) = some (type, n - 1) := rfl

@[simp] theorem firstOf_refused : firstOf kept ((type, .refused) :: rest) = firstOf kept rest := rfl

@[simp] theorem firstOf_orElse (a b : Reach) :
    firstOf kept ((type, a.orElse b) :: rest) = firstOf kept ((type, a) :: (type, b) :: rest) := by
  cases a <;> rfl

@[simp] theorem firstOf_ite (c : Prop) [Decidable c] (a b : Reach) :
    firstOf kept ((type, if c then a else b) :: rest) =
      if c then firstOf kept ((type, a) :: rest) else firstOf kept ((type, b) :: rest) := by
  split <;> rfl

@[simp] theorem firstOf_foundReach (found : Option Nat) :
    firstOf kept ((type, foundReach found) :: rest) = found.map fun n => (type, n - 1) := by
  cases found <;> rfl

end First

/-- The readings of the rules of words, in the order in which they are tried. -/
def wordReadings (ahead : List Token) : List (String × String × Reach) :=
  [("num-literal", "NUMLIT",
      (readSigned [.number, .dot, .number] ahead).orElse (readSigned [.number] ahead)),
   ("comparison-operator", "PUNCT", readPhrases [[.less, .equal], [.less, .greater],
      [.greater, .equal], [.greater], [.equal], [.less]] ahead),
   ("attribute-value-placeholder", "IDENT", readPhrase [.colon, .name] ahead),
   ("attribute-path-name", "IDENT", readPath ahead),
   ("block-comment", "WS-BLOCK-COMMENT", readEnclosed .blockOpen .blockClose ahead),
   ("line-comment", "WS-LINE-COMMENT", readLine ahead),
   ("comment-mark", "PUNCT", readPhrases [[.slash, .star], [.star, .slash], [.slash, .slash],
      [.minus, .minus]] ahead),
   ("escaped-char", "PUNCT", readPhrases [[.backslash, .backslash], [.backslash, .quote true],
      [.backslash, .quote false]] ahead),
   ("string-literal-dq", "STRLIT-DQ", readEnclosed (.mark true) (.mark true) ahead),
   ("string-literal-sq", "STRLIT-SQ", readEnclosed (.mark false) (.mark false) ahead),
   ("quote-dq", "QUOTE-DQ", readPhrase [.quote true] ahead),
   ("quote-sq", "QUOTE-SQ", readPhrase [.quote false] ahead)]

theorem reading_of_mem (regular : ∀ u ∈ ahead, Regular u) :
    ∀ entry ∈ wordReadings ahead, words.parser.reading 3 entry.1 ahead = entry.2.2 := by
  simp only [wordReadings, List.forall_mem_cons, List.not_mem_nil]
  refine ⟨reading_number regular 0, reading_phrases _ (by decide) regular 2,
    reading_phrase _ (by decide) regular 2, reading_path regular 1,
    reading_enclosed _ _ (by decide) regular 2, reading_line regular 2,
    reading_phrases _ (by decide) regular 2, reading_phrases _ (by decide) regular 2,
    reading_enclosed _ _ (by decide) regular 2, reading_enclosed _ _ (by decide) regular 2,
    reading_phrase _ (by decide) regular 2, reading_phrase _ (by decide) regular 2, nofun⟩

/-- A path without steps ends at its first name. -/
theorem steps_of_not_next (h : nextAll [.dot, .name] ahead = false) : steps ahead = 0 := by
  match ahead with
  | [] => rfl
  | [d] => rfl
  | d :: n :: rest =>
      simp only [nextAll, next_cons, List.drop_succ_cons, List.drop_zero, Bool.and_true] at h
      rw [steps, h]
      rfl

/-- The type of a token of a role by type. -/
theorem type_of_role (regular : Regular t) {r : Role} (h : role t = some r) (mem : r ∈ Role.typed) :
    t.type = r.terminal.value :=
  (accepts_typed regular mem).mp (accepts_of_role h)

/-- A comparison character is punctuation. -/
theorem type_of_comparison (regular : Regular t) {r : Role} (h : role t = some r)
    (mem : r ∈ [.less, .equal, .greater]) : t.type = "PUNCT" := by
  have listed : ∀ r ∈ [Role.less, .equal, .greater], r ∈ Role.spelled ∧
      (r.terminal.value, ["PUNCT"]) ∈ markTypes := by
    decide
  obtain ⟨spelled, isMark⟩ := listed r mem
  have types := regular.marked _ isMark ((accepts_spelled spelled).mp (accepts_of_role h))
  exact List.mem_singleton.mp types

/-- **The word that begins with a token is the first that is not refused.** -/
theorem munch_eq_firstOf (regular : Regular t) :
    munch t ahead = firstOf t.type ((wordReadings (t :: ahead)).map Prod.snd) := by
  simp only [wordReadings, List.map_cons, List.map_nil, firstOf_orElse, readPhrases]
  cases hr : role t with
  | none =>
      simp [fits_of_role_none hr, readSigned, readPhrase, readPath, readLine, readEnclosed, nextAll,
        munch, hr]
  | some r =>
    -- all readings but those of the role are refused; what is next decides among them
    cases r
    all_goals
      simp [fits_of_role hr, readSigned, readPhrase, readPath, readLine, readEnclosed, nextAll,
        munch, hr, Role.bare, Role.partners]
    case name =>
      intro none
      refine ⟨(type_of_role regular hr (by decide)).symm, steps_of_not_next ?_⟩
      simpa [nextAll] using none
    case number =>
      cases hd : next .dot ahead <;> cases hn : next .number ahead.tail <;>
        simp [fraction, nextAll, hd, hn]
    case plus =>
      cases hs : next .number ahead <;> cases hd : next .dot ahead.tail <;>
        cases hn : next .number (ahead.drop 2) <;> simp [fraction, nextAll, hd, hn]
    case minus =>
      cases hs : next .number ahead <;> cases hm : next .minus ahead <;>
        cases hd : next .dot ahead.tail <;>
          cases hn : next .number (ahead.drop 2) <;> simp [fraction, nextAll, hd, hn]
    case colon => cases next .name ahead <;> rfl
    case less =>
      rw [type_of_comparison regular hr (by decide)]
      cases next .equal ahead <;> cases next .greater ahead <;> rfl
    case equal => exact type_of_comparison regular hr (by decide)
    case greater =>
      rw [type_of_comparison regular hr (by decide)]
      cases next .equal ahead <;> rfl
    case slash => cases next .star ahead <;> cases next .slash ahead <;> rfl
    case star => cases next .slash ahead <;> rfl
    case backslash =>
      cases next .backslash ahead <;> cases next (.quote true) ahead <;>
        cases next (.quote false) ahead <;> rfl
    case blockOpen => rfl
    case dashes => rfl
    case slashes => rfl
    case quote double => cases double <;> rfl
    case mark double => cases double <;> rfl

end Words

/-- A token folded with some of the tokens behind it. -/
def fold (type : String) (t : Token) (more : List Token) : Token :=
  ⟨type, Token.join (t :: more), t.line, t.column⟩

theorem fold_kept_eq (t : Token) : fold t.type t [] = t :=
  fold_single t

section Passing

variable {tokens : List Token} {i : Nat} {o : Outcome} {t : Token} {ahead : List Token}

/-- What a word comes to, given what its tokens are folded into. -/
def Comes (i : Nat) (t : Token) (ahead : List Token) (word : Option (String × Nat)) (o : Outcome) :
    Prop :=
  match word with
  | none => ∃ start terminator, o = .abort start terminator
  | some (type, n) => ∃ children, o = .success children (i + 1 + n) ∧
      words.rebuildIn children = [fold type t (ahead.take n)]

/-- References fall in rank. -/
theorem referenceRank_lt : ∀ r ∈ wordRules, ∀ target ∈ r.references,
    referenceRank target < referenceRank r.name := by
  decide

/-- A word rule gets as far as its reading says. -/
theorem reach_of_word {name type : String} {inner : Outcome} (isWord : (name, type) ∈ wordTypes)
    (h : Derives words.parser tokens (.rule name) i inner) :
    inner.reach i = words.parser.reading 3 name (tokens.drop i) := by
  have ranks : ∀ pair ∈ wordTypes, referenceRank pair.1 < 3 := by decide
  exact h.reach_eq solid referenceRank_lt 3 (ranks _ isWord)

/-- A token that is a word by itself is kept. -/
theorem comes_of_kept (front : tokens.drop i = t :: ahead)
    (decides : o ≠ .failure)
    (h : Derives words.parser tokens (.alternatives (settledTypes.map fun type => [ofType type])) i o) :
    Comes i t ahead (some (t.type, 0)) o := by
  have stands : tokens[i]? = some t := by rw [← List.head?_drop, front, List.head?_cons]
  rcases h.of_alternatives with ⟨-, production, mem, inner⟩ | ⟨fails, -⟩
  · obtain ⟨type, settled, rfl⟩ := List.mem_map.mp mem
    have element := inner.of_singleton
    cases o with
    | failure => exact (decides rfl).elim
    | abort start terminator => cases element with | unterminated inverse _ => cases inverse
    | success children stop =>
        obtain ⟨found, isThere, -, rfl, rfl⟩ := element.of_one_success rfl
        rw [afterBlanks_of_solid solid] at isThere ⊢
        obtain rfl : found = t := Option.some.inj (isThere.symm.trans stands)
        refine ⟨_, rfl, ?_⟩
        rw [blanksAt_of_solid solid, List.take_zero, fold_kept_eq]
        exact WordBuilder.rebuildIn_leaf words found
  · exact (decides fails).elim

/-- A rule of words that is not refused is folded into one token. -/
theorem comes_of_rule {name type : String} {inner : Outcome} {reach : Reach}
    (front : tokens.drop i = t :: ahead) (isWord : (name, type) ∈ wordTypes)
    (reads : words.parser.reading 3 name (t :: ahead) = reach) (decides : inner ≠ .failure)
    (h : Derives words.parser tokens (.rule name) i inner) (rest : List (String × Reach)) :
    Comes i t ahead (firstOf t.type ((type, reach) :: rest)) (inner.node name []) := by
  have consumes : ∀ pair ∈ wordTypes, pair.1 ∉ wordGrammar.nullable := by decide
  have lookup : ∀ pair ∈ wordTypes, wordTypes.lookup pair.1 = some pair.2 := by decide
  have reached := reach_of_word isWord h
  rw [front, reads] at reached
  rw [← reached]
  cases inner with
  | failure => exact (decides rfl).elim
  | abort start terminator => exact ⟨start, terminator, rfl⟩
  | success children stop =>
      have lt : i < stop := by
        rcases Nat.lt_or_eq_of_le h.le_stop with lt | rfl
        · exact lt
        · exact (consumes _ isWord (h.nullable rfl)).elim
      obtain ⟨n, rfl⟩ : ∃ n, stop = i + 1 + n := ⟨stop - i - 1, by omega⟩
      have leaves : Tree.tokensIn children = t :: ahead.take n := by
        rw [(h.tiles rfl).tokensIn_eq, front, show i + 1 + n - i = n + 1 by omega,
          List.take_succ_cons]
      have count : firstOf t.type ((type, Reach.took (i + 1 + n - i)) :: rest) = some (type, n) := by
        rw [firstOf_took, show i + 1 + n - i - 1 = n by omega]
      show Comes i t ahead (firstOf t.type ((type, Reach.took (i + 1 + n - i)) :: rest)) _
      rw [count]
      exact ⟨_, rfl, WordBuilder.rebuildIn_word (lookup _ isWord) leaves⟩

/-- The first rule that is not refused decides. -/
theorem comes_of_choice (front : tokens.drop i = t :: ahead)
    (decides : o ≠ .failure) :
    ∀ entries : List (String × String × Reach),
      (∀ entry ∈ entries, (entry.1, entry.2.1) ∈ wordTypes ∧
        words.parser.reading 3 entry.1 (t :: ahead) = entry.2.2) →
      Derives words.parser tokens (.alternatives (entries.map (fun entry => [rule entry.1]) ++
        settledTypes.map fun type => [ofType type])) i o →
      Comes i t ahead (firstOf t.type (entries.map Prod.snd)) o := by
  intro entries
  induction entries with
  | nil =>
      intro _ h
      exact comes_of_kept front decides h
  | cons entry rest ih =>
      intro known h
      obtain ⟨isWord, reads⟩ := known entry List.mem_cons_self
      cases h with
      | taken first _ =>
          obtain ⟨inner, derived, rfl⟩ := derives_reference first
          refine comes_of_rule front isWord reads (fun same => decides ?_) derived _
          rw [same]
          rfl
      | passed first others =>
          obtain ⟨inner, derived, same⟩ := derives_reference first
          have refused := reach_of_word isWord derived
          rw [front, reads, Outcome.node_eq_failure.mp same.symm] at refused
          obtain ⟨name, type, reach⟩ := entry
          obtain rfl : Reach.refused = reach := refused
          exact ih (fun other mem => known other (List.mem_cons_of_mem _ mem)) others

/-- **A word comes to what is folded from the tokens ahead.** -/
theorem word_comes (regular : ∀ u ∈ tokens, Regular u) (front : tokens.drop i = t :: ahead)
    (h : Derives words.parser tokens (.rule "word") i o) : Comes i t ahead (munch t ahead) o := by
  have here : ∀ u ∈ t :: ahead, Regular u := front ▸ regular_drop regular i
  have stands : tokens[i]? = some t := by rw [← List.head?_drop, front, List.head?_cons]
  have decides : o ≠ .failure := by
    rintro rfl
    exact word_not_failure (here t List.mem_cons_self) stands h
  have types : ∀ entry ∈ wordReadings (t :: ahead), (entry.1, entry.2.1) ∈ wordTypes := by
    simp [wordReadings, wordTypes]
  have alternatives := derives_rule word_alternatives h
  rw [← List.append_assoc, ← List.map_append] at alternatives
  rw [munch_eq_firstOf (here t List.mem_cons_self)]
  refine comes_of_choice front decides (wordReadings (t :: ahead))
    (fun entry mem => ⟨types entry mem, reading_of_mem here entry mem⟩) ?_
  exact alternatives

/-! ### One pass -/

/-- **One pass over a list of tokens**: each word is folded into one token; nothing
if a terminator is missing. -/
def sweep : List Token → Option (List Token)
  | [] => some []
  | t :: ahead =>
    match munch t ahead with
    | none => none
    | some (type, n) => (sweep (ahead.drop n)).map (fold type t (ahead.take n) :: ·)
termination_by tokens => tokens.length

/-- What words up to the end come to, given the sweep of the tokens there. -/
def Sweeps (tokens : List Token) (swept : Option (List Token)) (o : Outcome) : Prop :=
  match swept with
  | none => ∃ start terminator, o = .abort start terminator
  | some next => ∃ children, o = .success children tokens.length ∧ words.rebuildIn children = next

/-- At the end no word begins. -/
theorem sweeps_end {o : Outcome} (h : Derives words.parser tokens (.many "word") tokens.length o) :
    Sweeps tokens (some []) o := by
  have refused : words.parser.reading 4 "word" [] = .refused := by decide
  have reached : ∀ inner, Derives words.parser tokens (.rule "word") tokens.length inner →
      inner.reach tokens.length = .refused := by
    intro inner derived
    have reads := derived.reach_eq solid referenceRank_lt 4 (by decide : referenceRank "word" < 4)
    rwa [goalReading, List.drop_length, refused] at reads
  cases h with
  | again round further _ =>
      obtain ⟨inner, derived, same⟩ := round.of_once
      obtain ⟨trees, rfl, -⟩ := Outcome.node_eq_success.mp same.symm
      rw [afterBlanks_of_solid solid] at derived
      cases reached _ derived
  | last round =>
      obtain ⟨inner, derived, same⟩ := round.of_once
      obtain ⟨trees, rfl, -⟩ := Outcome.node_eq_success.mp same.symm
      rw [afterBlanks_of_solid solid] at derived
      cases reached _ derived
  | ended round _ =>
      obtain ⟨inner, derived, rfl⟩ := round.of_once
      rw [afterBlanks_of_solid solid] at derived
      cases inner with
      | failure => exact ⟨[], rfl, rfl⟩
      | success trees stop => cases reached _ derived
      | abort start terminator => cases reached _ derived

/-- **Words up to the end are a sweep of the tokens there.** -/
theorem many_sweeps (regular : ∀ t ∈ tokens, Regular t) (i : Nat) (le : i ≤ tokens.length)
    {o : Outcome} (h : Derives words.parser tokens (.many "word") i o) :
    Sweeps tokens (sweep (tokens.drop i)) o := by
  rcases Nat.lt_or_eq_of_le le with lt | rfl
  · have front : tokens.drop i = tokens[i] :: tokens.drop (i + 1) := List.drop_eq_getElem_cons lt
    cases h with
    | @again _ _ j children o round further rest =>
        obtain ⟨inner, derived, same⟩ := round.of_once
        obtain ⟨trees, rfl, rfl⟩ := Outcome.node_eq_success.mp same.symm
        rw [afterBlanks_of_solid solid] at derived further
        have inside := derived.stop_le further
        have comes := word_comes regular front derived
        rw [front, sweep]
        cases word : munch tokens[i] (tokens.drop (i + 1)) with
        | none =>
            rw [word] at comes
            obtain ⟨_, _, aborted⟩ := comes
            cases aborted
        | some folded =>
            obtain ⟨type, n⟩ := folded
            rw [word] at comes
            obtain ⟨_, succeeded, rebuilt⟩ := comes
            cases succeeded
            have tail := many_sweeps regular (i + 1 + n) inside rest
            show Sweeps tokens ((sweep ((tokens.drop (i + 1)).drop n)).map _) _
            rw [List.drop_drop]
            cases swept : sweep (tokens.drop (i + 1 + n)) with
            | none =>
                rw [swept] at tail
                obtain ⟨start, terminator, rfl⟩ := tail
                exact ⟨start, terminator, rfl⟩
            | some next =>
                rw [swept] at tail
                obtain ⟨more, rfl, rfl⟩ := tail
                refine ⟨_, rfl, ?_⟩
                rw [WordBuilder.rebuildIn_append, blanksAt_of_solid solid]
                show words.rebuildIn [.node "word" trees none] ++ _ = _
                rw [rebuildIn_unfolded, rebuilt]
                rfl
    | last round =>
        obtain ⟨inner, derived, same⟩ := round.of_once
        obtain ⟨trees, rfl, -⟩ := Outcome.node_eq_success.mp same.symm
        have consumes : "word" ∉ wordGrammar.nullable := by decide
        exact (consumes (derived.nullable rfl)).elim
    | ended round fails =>
        obtain ⟨inner, derived, rfl⟩ := round.of_once
        rw [afterBlanks_of_solid solid] at derived
        have comes := word_comes regular front derived
        rw [front, sweep]
        cases word : munch tokens[i] (tokens.drop (i + 1)) with
        | none =>
            rw [word] at comes
            obtain ⟨start, terminator, rfl⟩ := comes
            exact ⟨start, terminator, rfl⟩
        | some folded =>
            rw [word] at comes
            obtain ⟨_, rfl, -⟩ := comes
            exact (fails trivial).elim
  · rw [List.drop_length, sweep]
    exact sweeps_end h
termination_by tokens.length - i

/-- **A pass is a sweep of the tokens**, and fails where a terminator is missing. -/
theorem pass_eq_ok_iff (regular : ∀ t ∈ tokens, Regular t) {next : List Token} :
    (words.pass tokens).outcome = .ok next ↔ sweep tokens = some next := by
  rcases words.parser.parse_cases tokens with ⟨f, -, fault⟩ | ⟨term, o, answered, derived, concludes⟩
  · exact (attempt_faultless_of_rank referenceRank referenceRank_lt words.parser.grammar.root_mem_names 0
      (by decide) f fault).elim
  have sweeps := many_sweeps regular 0 (Nat.zero_le _) (derives_words derived)
  rw [List.drop_zero] at sweeps
  rw [WordBuilder.outcome_pass answered]
  cases swept : sweep tokens with
  | none =>
      rw [swept] at sweeps
      obtain ⟨start, terminator, rfl⟩ := sweeps
      rw [concludes]
      exact iff_of_false nofun nofun
  | some folded =>
      rw [swept] at sweeps
      obtain ⟨children, rfl, rfl⟩ := sweeps
      rw [Concludes, if_neg (by rw [afterBlanks_of_solid solid]; exact Nat.lt_irrefl _),
        blanksAt_of_solid solid, List.map_nil, List.append_nil] at concludes
      rw [concludes]
      show Except.ok _ = Except.ok next ↔ _
      rw [Except.ok.injEq, Option.some.injEq]

end Passing

/-! ### What a sweep folds -/

/-- Steps of a path: full stops and names in turn. -/
inductive Steps : List Token → Prop where
  | nil : Steps []
  | step {d n : Token} {more : List Token} :
      role d = some .dot → role n = some .name → Steps more → Steps (d :: n :: more)

/-- A full stop and a number, or nothing. -/
inductive Fraction : List Token → Prop where
  | nil : Fraction []
  | part {d n : Token} : role d = some .dot → role n = some .number → Fraction [d, n]

/-- A token that is kept as it is: nothing that it could be joined with is next. -/
structure Alone (t : Token) (rest : List Token) : Prop where
  unpaired : ∀ r, role t = some r → r.partners.any (next · rest) = false
  unsigned : role t = some .minus → next .number rest = false
  unquoted : ∀ double, role t ≠ some (.quote double) ∧ role t ≠ some (.mark double)

/-- **The words that begin with a token**: what is folded with it, and the type of
the word.  `rest` is what stands behind the word. -/
inductive Word (t : Token) (rest : List Token) : List Token → String → Prop where
  | kept : Alone t rest → Word t rest [] t.type
  | path {more : List Token} : role t = some .name → Steps more → Word t rest more "IDENT"
  | placeholder {n : Token} :
      role t = some .colon → role n = some .name → Word t rest [n] "IDENT"
  | number {more : List Token} :
      role t = some .number → Fraction more → Word t rest more "NUMLIT"
  | signed {sign : Role} {n : Token} {more : List Token} :
      sign ∈ [Role.plus, .minus] → role t = some sign → role n = some .number → Fraction more →
      Word t rest (n :: more) "NUMLIT"
  | pair {r r' : Role} {p : Token} :
      role t = some r → r' ∈ r.partners → fits r' p = true → Word t rest [p] "PUNCT"
  | comment {r : Role} {type : String} {more : List Token} :
      r ∈ [Role.blockOpen, .dashes, .slashes] → role t = some r → type ∈ Token.blankTypes →
      Word t rest more type
  | quote {double : Bool} : role t = some (.quote double) → Word t rest [] (quoteType double)
  | string {double : Bool} {body : List Token} {close : Token} :
      role t = some (.mark double) → (∀ u ∈ body, fits (.mark double) u = false) →
      role close = some (.mark double) → Word t rest (body ++ [close]) (stringType double)

section Inversion

variable {t : Token} {ahead : List Token}

/-- Having a role is a matter of the role alone, but for quotes. -/
theorem role_of_fits {r : Role} (h : fits r t = true) (notQuote : ∀ double, r ≠ .quote double) :
    role t = some r := by
  rw [fits, Option.any_eq_true] at h
  obtain ⟨r', found, same⟩ := h
  simp only [Bool.or_eq_true, beq_iff_eq] at same
  rcases same with rfl | same
  · exact found
  · cases r' with
    | mark double => exact (notQuote double same.symm).elim
    | _ => rw [found, ← same]; rfl

theorem fits_role {r : Role} (h : role t = some r) : fits r t = true := by
  rw [fits_of_role h, beq_self_eq_true, Bool.true_or]

/-- Tokens with roles one after the other. -/
theorem exists_of_next {r : Role} (h : next r ahead = true) :
    ∃ u rest, ahead = u :: rest ∧ fits r u = true := by
  cases ahead with
  | nil => cases h
  | cons u rest => exact ⟨u, rest, rfl, h⟩

theorem steps_take (ahead : List Token) : Steps (ahead.take (steps ahead)) := by
  match ahead with
  | [] => exact .nil
  | [d] => exact .nil
  | d :: n :: rest =>
      rw [steps]
      split
      · rename_i both
        rw [Bool.and_eq_true] at both
        rw [Nat.add_comm, List.take_succ_cons, List.take_succ_cons]
        exact .step (role_of_fits both.1 (by simp)) (role_of_fits both.2 (by simp))
          (steps_take rest)
      · exact .nil

theorem fraction_take (ahead : List Token) : Fraction (ahead.take (fraction ahead)) := by
  unfold fraction
  split
  · rename_i both
    simp only [nextAll, Bool.and_true, Bool.and_eq_true] at both
    obtain ⟨d, rest, rfl, isDot⟩ := exists_of_next both.1
    obtain ⟨n, rest, rfl, isNumber⟩ := exists_of_next both.2
    exact .part (role_of_fits isDot (by simp)) (role_of_fits isNumber (by simp))
  · exact .nil

/-- What a search passes, and what it was for. -/
theorem take_of_seek {r : Role} {n : Nat} (h : seek r ahead = some n) :
    ∃ close, ahead.take (n + 1) = ahead.take n ++ [close] ∧ fits r close = true ∧
      ∀ u ∈ ahead.take n, fits r u = false := by
  obtain ⟨inside, found, before⟩ := List.findIdx?_eq_some_iff_getElem.mp h
  refine ⟨ahead[n], (List.take_append_getElem inside).symm, found, fun u mem => ?_⟩
  obtain ⟨j, lt, rfl⟩ := List.getElem_of_mem mem
  rw [List.length_take] at lt
  rw [List.getElem_take]
  exact Bool.eq_false_iff.mpr (before j (by omega))

/-- A sign with a number, two partners, or a token as it is. -/
theorem word_of_joined {r : Role} {type : String} {n : Nat} (hr : role t = some r)
    (plain : ∀ double, r ≠ .quote double ∧ r ≠ .mark double)
    (h : (if (r = .plus ∨ r = .minus) ∧ next .number ahead then
        ("NUMLIT", 1 + fraction (ahead.drop 1))
      else if r.partners.any (next · ahead) then ("PUNCT", 1)
      else (t.type, 0)) = (type, n)) :
    Word t (ahead.drop n) (ahead.take n) type := by
  split at h
  · rename_i signed
    obtain ⟨rfl, rfl⟩ := Prod.mk.inj h
    obtain ⟨u, rest, rfl, isNumber⟩ := exists_of_next signed.2
    rw [Nat.add_comm, List.take_succ_cons]
    exact .signed (by simpa using signed.1) hr (role_of_fits isNumber nofun) (fraction_take rest)
  · rename_i unsigned
    split at h
    · rename_i paired
      obtain ⟨rfl, rfl⟩ := Prod.mk.inj h
      obtain ⟨r', isPartner, isNext⟩ := List.any_eq_true.mp paired
      obtain ⟨u, rest, rfl, isThere⟩ := exists_of_next isNext
      exact .pair hr isPartner isThere
    · rename_i unpaired
      obtain ⟨rfl, rfl⟩ := Prod.mk.inj h
      refine .kept ⟨fun r' same => ?_, fun same => ?_, fun double => ?_⟩
      · rw [hr] at same
        cases same
        exact Bool.eq_false_iff.mpr unpaired
      · rw [hr] at same
        cases same
        exact Bool.eq_false_iff.mpr fun isNext => unsigned ⟨Or.inr rfl, isNext⟩
      · rw [hr]
        exact ⟨fun same => (plain double).1 (Option.some.inj same),
          fun same => (plain double).2 (Option.some.inj same)⟩

/-- **What begins with a token is one of the words.** -/
theorem word_of_munch {type : String} {n : Nat} (h : munch t ahead = some (type, n)) :
    Word t (ahead.drop n) (ahead.take n) type := by
  unfold munch at h
  split at h
  · rename_i none
    cases h
    exact .kept ⟨by simp [none], by simp [none], by simp [none]⟩
  · rename_i hr
    cases h
    exact .path hr (steps_take ahead)
  · rename_i hr
    cases h
    exact .number hr (fraction_take ahead)
  · rename_i hr
    split at h
    · rename_i isNext
      cases h
      obtain ⟨u, rest, rfl, isName⟩ := exists_of_next isNext
      exact .placeholder hr (role_of_fits isName nofun)
    · cases h
      exact .kept ⟨by simp [hr, Role.partners], by simp [hr], by simp [hr]⟩
  · rename_i hr
    obtain ⟨m, found, same⟩ := Option.map_eq_some_iff.mp h
    cases same
    exact .comment (by decide) hr (by decide)
  · rename_i hr
    obtain ⟨m, found, same⟩ := Option.map_eq_some_iff.mp h
    cases same
    exact .comment (by decide) hr (by decide)
  · rename_i hr
    obtain ⟨m, found, same⟩ := Option.map_eq_some_iff.mp h
    cases same
    exact .comment (by decide) hr (by decide)
  · rename_i double hr
    obtain ⟨m, found, same⟩ := Option.map_eq_some_iff.mp h
    cases same
    obtain ⟨close, split, isMark, inside⟩ := take_of_seek found
    rw [split]
    exact .string hr inside (role_of_fits isMark nofun)
  · rename_i double hr
    cases h
    exact .quote hr
  · rename_i r _ _ _ _ _ _ notMark notQuote hr
    exact word_of_joined hr
      (fun double => ⟨fun same => notQuote double same, fun same => notMark double same⟩)
      (Option.some.inj h)

/-- **A sweep, word by word.** -/
inductive Swept : List Token → List Token → Prop where
  | nil : Swept [] []
  | cons {t : Token} {more rest swept : List Token} {type : String} :
      Word t rest more type → Swept rest swept →
      Swept (t :: (more ++ rest)) (fold type t more :: swept)

theorem swept_of_sweep {tokens swept : List Token} (h : sweep tokens = some swept) :
    Swept tokens swept := by
  match tokens with
  | [] =>
      rw [sweep] at h
      cases h
      exact .nil
  | t :: ahead =>
      rw [sweep] at h
      cases word : munch t ahead with
      | none =>
          rw [word] at h
          cases h
      | some folded =>
          obtain ⟨type, n⟩ := folded
          rw [word] at h
          obtain ⟨others, further, rfl⟩ := Option.map_eq_some_iff.mp h
          have behind := swept_of_sweep further
          have whole := Swept.cons (word_of_munch word) behind
          rwa [List.take_append_drop] at whole
termination_by tokens.length

end Inversion

/-- A sweep makes progress. -/
theorem sweep_progress {tokens next : List Token} (regular : ∀ t ∈ tokens, Regular t)
    (h : sweep tokens = some next) : Progress tokens next := by
  have passed := (pass_eq_ok_iff regular).mpr h
  rcases pass_progress regular with ⟨other, ok, progress⟩ | ⟨e, failed, -⟩
  · rw [passed] at ok
    cases ok
    exact progress
  · rw [passed] at failed
    cases failed

end GrammarKit.Query
