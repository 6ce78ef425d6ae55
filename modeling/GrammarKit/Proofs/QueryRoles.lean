import GrammarKit.Proofs.Lookahead
import GrammarKit.Proofs.QueryWords

/-!
# The roles of tokens in queries

To the rules of words a token is known by its **role**: a name, a number, a mark
such as a full stop or a minus, a quote, a quote that is marked.  Terminals ask
for roles, so the reading of each rule on the tokens ahead is a test of the roles
that come next.

## Main Definitions

* `Query.Role`, `Query.role` — the roles, and the role of a token
* `Query.fits` — whether a token has a role; a mark is also a quote
* `Query.nextAll`, `Query.seek`, `Query.steps` — tests and counts on the tokens ahead

## Main Statements

* `Query.accepts_eq_fits` — a terminal accepts the tokens that have its role
* `Query.reading_phrases`, `Query.reading_number`, `Query.reading_path`,
  `Query.reading_enclosed`, `Query.reading_line` — the readings of the rules

## Design Notes

A phrase is a production of terminals; most rules are a choice of phrases, and
their readings are found from the roles alone.  That a token has one role rests
on what is known of tokens between passes (`Query.Regular`).
-/

namespace GrammarKit.Query

open Element (rule optionalRule many literal ofType)
open GrammarKit.Parser

/-! ### Roles -/

/-- What a token can be to the rules of words. -/
inductive Role where
  | name
  | number
  | plus
  | minus
  | dot
  | colon
  | less
  | equal
  | greater
  | slash
  | star
  | backslash
  | blockOpen
  | blockClose
  | dashes
  | slashes
  | lineFeed
  /-- A bare quote. -/
  | quote (double : Bool)
  /-- A quote that is marked. -/
  | mark (double : Bool)
deriving DecidableEq, Repr

namespace Role

/-- The terminal that asks for a role. -/
def terminal : Role → Terminal
  | .name => .ofType "IDENT"
  | .number => .ofType "NUMLIT"
  | .plus => .literal "+"
  | .minus => .literal "-"
  | .dot => .literal "."
  | .colon => .literal ":"
  | .less => .literal "<"
  | .equal => .literal "="
  | .greater => .literal ">"
  | .slash => .literal "/"
  | .star => .literal "*"
  | .backslash => .literal "\\"
  | .blockOpen => .literal "/*"
  | .blockClose => .literal "*/"
  | .dashes => .literal "--"
  | .slashes => .literal "//"
  | .lineFeed => .literal "\n"
  | .quote true => .literal "\""
  | .quote false => .literal "\x27"
  | .mark true => .ofType "QUOTE-DQ"
  | .mark false => .ofType "QUOTE-SQ"

/-- The roles that a token has by its type. -/
def typed : List Role :=
  [.name, .number, .mark true, .mark false]

/-- The roles that a token of any other type has by its text. -/
def spelled : List Role :=
  [.plus, .minus, .dot, .colon, .less, .equal, .greater, .slash, .star, .backslash, .blockOpen,
   .blockClose, .dashes, .slashes, .lineFeed, .quote true, .quote false]

/-- The role that the text alone gives: a mark is a quote. -/
def bare : Role → Role
  | .mark double => .quote double
  | r => r

theorem mem_typed_or_mem_spelled (r : Role) : r ∈ typed ∨ r ∈ spelled := by
  cases r with
  | quote double => cases double <;> decide
  | mark double => cases double <;> decide
  | _ => decide

end Role

/-- The role of a token: its type decides, or else its text does. -/
def role (t : Token) : Option Role :=
  (Role.typed ++ Role.spelled).find? fun r => r.terminal.accepts t

section Roles

variable {t : Token} {r : Role}

/-- A terminal that asks for a type accepts the tokens of the type. -/
theorem accepts_typed (regular : Regular t) (mem : r ∈ Role.typed) :
    r.terminal.accepts t = true ↔ t.type = r.terminal.value := by
  have types : ∀ r ∈ Role.typed, r.terminal = .ofType r.terminal.value ∧
      r.terminal.value ∈ passTypes := by
    decide
  obtain ⟨same, known⟩ := types r mem
  rw [same]
  exact accepts_type_iff regular.typed known

/-- A terminal that asks for a mark accepts the tokens with that image. -/
theorem accepts_spelled (mem : r ∈ Role.spelled) :
    r.terminal.accepts t = true ↔ image t = r.terminal.value.toList := by
  have texts : ∀ r ∈ Role.spelled, r.terminal = .literal r.terminal.value ∧
      Text.upper r.terminal.value = r.terminal.value := by
    decide
  obtain ⟨same, fixed⟩ := texts r mem
  rw [image, String.toList_inj, same]
  simp [Terminal.accepts, Terminal.literal, Terminal.valueOf, fixed]

/-- A mark is a quote by its text. -/
theorem accepts_quote_of_mark (regular : Regular t) {double : Bool}
    (h : (Role.mark double).terminal.accepts t = true) :
    (Role.quote double).terminal.accepts t = true := by
  have marks : ∀ double : Bool, ∃ quote ∈ quoteMarks,
      quote.1 = (Role.mark double).terminal.value ∧
        quote.2 = (Role.quote double).terminal.value := by
    decide
  have typed : ∀ double : Bool, Role.mark double ∈ Role.typed := by decide
  have spelled : ∀ double : Bool, Role.quote double ∈ Role.spelled := by decide
  obtain ⟨quote, mem, type, text⟩ := marks double
  rw [accepts_typed regular (typed double), ← type] at h
  rw [accepts_spelled (spelled double), ← text]
  exact regular.quoted quote mem h

/-- The text of a token of a type has the bare role of the type, if any. -/
theorem bare_eq_of_typed (regular : Regular t) {r' : Role} (mem : r ∈ Role.typed)
    (mem' : r' ∈ Role.spelled) (h : r.terminal.accepts t = true)
    (h' : r'.terminal.accepts t = true) : r.bare = r' := by
  have unique : ∀ r ∈ Role.spelled, ∀ r' ∈ Role.spelled,
      r.terminal.value = r'.terminal.value → r = r' := by
    decide
  have kinds : ∀ r ∈ Role.typed, r.terminal.value ∈ ["IDENT", "NUMLIT"] ∨
      ∃ double, r = .mark double ∧ Role.quote double ∈ Role.spelled := by
    decide
  have plain : ∀ r ∈ Role.spelled, (r.terminal.value.toList.all fun c => !isWordChar c) = true := by
    decide
  rcases kinds r mem with lettered | ⟨double, rfl, isQuote⟩
  · rw [← (accepts_typed regular mem).mp h] at lettered
    obtain ⟨c, last, isWord⟩ := regular.lettered lettered
    rw [(accepts_spelled mem').mp h'] at last
    have notWord := List.all_eq_true.mp (plain r' mem') c (List.mem_of_getLast? last)
    rw [isWord] at notWord
    cases notWord
  · have text := (accepts_spelled isQuote).mp (accepts_quote_of_mark regular h)
    rw [(accepts_spelled mem').mp h'] at text
    exact (unique _ mem' _ isQuote (String.toList_inj.mp text)).symm

/-- **A token has one role**, but for marks, which are also quotes. -/
theorem bare_eq_of_accepts (regular : Regular t) {r' : Role} (h : r.terminal.accepts t = true)
    (h' : r'.terminal.accepts t = true) : r.bare = r'.bare := by
  have bare : ∀ r ∈ Role.spelled, r.bare = r := by decide
  rcases r.mem_typed_or_mem_spelled with mem | mem
  · rcases r'.mem_typed_or_mem_spelled with mem' | mem'
    · have unique : ∀ r ∈ Role.typed, ∀ r' ∈ Role.typed,
          r.terminal.value = r'.terminal.value → r = r' := by
        decide
      rw [accepts_typed regular mem] at h
      rw [accepts_typed regular mem'] at h'
      rw [unique r mem r' mem' (h.symm.trans h')]
    · rw [bare r' mem']
      exact bare_eq_of_typed regular mem mem' h h'
  · rcases r'.mem_typed_or_mem_spelled with mem' | mem'
    · rw [bare r mem]
      exact (bare_eq_of_typed regular mem' mem h' h).symm
    · have unique : ∀ r ∈ Role.spelled, ∀ r' ∈ Role.spelled,
          r.terminal.value = r'.terminal.value → r = r' := by
        decide
      rw [accepts_spelled mem] at h
      rw [accepts_spelled mem'] at h'
      rw [unique r mem r' mem' (String.toList_inj.mp (h.symm.trans h'))]

/-- The role of a token is one that its terminal accepts. -/
theorem accepts_of_role (h : role t = some r) : r.terminal.accepts t = true := by
  have accepted := List.find?_some h
  exact accepted

/-- A token that some role's terminal accepts has a role. -/
theorem exists_role (h : r.terminal.accepts t = true) : ∃ r', role t = some r' := by
  refine Option.isSome_iff_exists.mp (List.find?_isSome.mpr ⟨r, ?_, h⟩)
  exact List.mem_append.mpr r.mem_typed_or_mem_spelled

/-- Whether a token has a role; a mark is also a quote. -/
def fits (r : Role) (t : Token) : Bool :=
  (role t).any fun r' => r' == r || r'.bare == r

/-- **A terminal that asks for a role accepts the tokens that have it.** -/
theorem accepts_eq_fits (regular : Regular t) (r : Role) : r.terminal.accepts t = fits r t := by
  have typed : ∀ double : Bool, Role.mark double ∈ Role.typed := by decide
  have only : ∀ r ∈ Role.typed, ∀ double : Bool, r.bare = .quote double → r = .mark double := by
    decide
  rw [Bool.eq_iff_iff, fits, Option.any_eq_true]
  simp only [Bool.or_eq_true, beq_iff_eq]
  constructor
  · intro accepted
    obtain ⟨r', found⟩ := exists_role accepted
    have same := bare_eq_of_accepts regular (accepts_of_role found) accepted
    refine ⟨r', found, ?_⟩
    cases r with
    | mark double =>
        -- the type comes first, so a mark is never taken for a quote
        obtain ⟨r'', first⟩ : ∃ r'', Role.typed.find? (fun r => r.terminal.accepts t) = some r'' :=
          Option.isSome_iff_exists.mp (List.find?_isSome.mpr ⟨_, typed double, accepted⟩)
        rw [role, List.find?_append, first] at found
        obtain rfl : r'' = r' := Option.some.inj found
        exact Or.inl (only r'' (List.mem_of_find?_eq_some first) double same)
    | _ => exact Or.inr same
  · rintro ⟨r', found, rfl | rfl⟩
    · exact accepts_of_role found
    · cases r' with
      | mark double => exact accepts_quote_of_mark regular (accepts_of_role found)
      | _ => exact accepts_of_role found

end Roles

/-! ### What is next -/

/-- Whether the next token has a role. -/
def next (r : Role) : List Token → Bool
  | [] => false
  | t :: _ => fits r t

@[simp] theorem next_nil (r : Role) : next r [] = false := rfl

@[simp] theorem next_cons (r : Role) (t : Token) (ahead : List Token) :
    next r (t :: ahead) = fits r t := rfl

/-- Whether the next tokens have some roles. -/
def nextAll : List Role → List Token → Bool
  | [], _ => true
  | r :: rs, ahead => next r ahead && nextAll rs (ahead.drop 1)

theorem nextAll_append (rs rs' : List Role) (ahead : List Token) :
    nextAll (rs ++ rs') ahead = (nextAll rs ahead && nextAll rs' (ahead.drop rs.length)) := by
  induction rs generalizing ahead with
  | nil => rfl
  | cons r rs ih =>
      rw [List.cons_append, nextAll, nextAll, ih, List.drop_drop, List.length_cons,
        Nat.add_comm 1, Bool.and_assoc]

/-- How many tokens stand before the first that has a role. -/
def seek (r : Role) (ahead : List Token) : Option Nat :=
  ahead.findIdx? (fits r)

/-- How many tokens the steps of a path take that are next. -/
def steps : List Token → Nat
  | d :: n :: rest => if fits .dot d && fits .name n then 2 + steps rest else 0
  | _ => 0

/-! ### Phrases -/

/-- The reading of a phrase: all its roles are next, or it is refused. -/
def readPhrase (roles : List Role) (ahead : List Token) : Reach :=
  if nextAll roles ahead then .took roles.length else .refused

/-- A production of terminals that ask for roles. -/
def phrase (roles : List Role) : Production :=
  roles.map fun r => .one r.terminal

section Readings

variable {apply : String → List Token → Reach} {ahead : List Token}

theorem regular_drop (regular : ∀ t ∈ ahead, Regular t) (n : Nat) :
    ∀ t ∈ ahead.drop n, Regular t :=
  fun t mem => regular t (List.mem_of_mem_drop mem)

theorem readElement_terminal (r : Role) (regular : ∀ t ∈ ahead, Regular t) :
    readElement apply (.one r.terminal) ahead = readPhrase [r] ahead := by
  have direct : r.terminal.inverse = false := by
    cases r with
    | quote double => cases double <;> rfl
    | mark double => cases double <;> rfl
    | _ => rfl
  rw [Element.one, readElement, direct]
  show readToken r.terminal ahead = _
  cases ahead with
  | nil => rfl
  | cons t rest =>
      rw [readToken, accepts_eq_fits (regular t List.mem_cons_self), readPhrase, nextAll, nextAll,
        Bool.and_true]
      rfl

/-- How far a search gets, given how many tokens belong to it. -/
def foundReach : Option Nat → Reach
  | some n => .took n
  | none => .aborted

/-- A search for a role. -/
theorem readElement_until (r : Role) (regular : ∀ t ∈ ahead, Regular t) :
    readElement apply (.one { r.terminal with inverse := true }) ahead =
      foundReach (seek r ahead) := by
  have same : ahead.findIdx? r.terminal.accepts = seek r ahead := by
    rw [seek]
    induction ahead with
    | nil => rfl
    | cons t rest ih =>
        rw [List.findIdx?_cons, List.findIdx?_cons, accepts_eq_fits (regular t List.mem_cons_self),
          ih fun other mem => regular other (List.mem_cons_of_mem t mem)]
  rw [← same]
  rfl

/-- A production of one element. -/
theorem readProduction_singleton (e : Element) (ahead : List Token) :
    readProduction apply [e] ahead = readElement apply e ahead := by
  show (readElement apply e ahead).andThen (fun _ => .took 0) = _
  cases readElement apply e ahead <;> rfl

/-- What comes behind a phrase. -/
theorem readProduction_behind {e : Element} {rest : Production} (roles : List Role)
    (first : readElement apply e ahead = readPhrase roles ahead) :
    readProduction apply (e :: rest) ahead =
      if nextAll roles ahead then
        (Reach.took roles.length).andThen
          fun _ => readProduction apply rest (ahead.drop roles.length)
      else .refused := by
  rw [readProduction, first, readPhrase]
  cases nextAll roles ahead <;> rfl

/-- **Phrases go on behind phrases.** -/
theorem readProduction_cons {e : Element} {rest : Production} (roles roles' : List Role)
    (first : readElement apply e ahead = readPhrase roles ahead)
    (others : readProduction apply rest (ahead.drop roles.length) =
      readPhrase roles' (ahead.drop roles.length)) :
    readProduction apply (e :: rest) ahead = readPhrase (roles ++ roles') ahead := by
  rw [readProduction_behind roles first, others, readPhrase, readPhrase, nextAll_append,
    List.length_append]
  cases nextAll roles ahead <;> cases nextAll roles' (ahead.drop roles.length) <;> rfl

theorem readProduction_phrase (roles : List Role) :
    ∀ {ahead : List Token}, (∀ t ∈ ahead, Regular t) →
      readProduction apply (phrase roles) ahead = readPhrase roles ahead := by
  induction roles with
  | nil => intro ahead _; rfl
  | cons r rest ih =>
      intro ahead regular
      exact readProduction_cons [r] rest (readElement_terminal r regular)
        (ih (regular_drop regular 1))

/-- The first phrase of some whose roles are next. -/
def readPhrases : List (List Role) → List Token → Reach
  | [], _ => .refused
  | roles :: rest, ahead => (readPhrase roles ahead).orElse (readPhrases rest ahead)

theorem readAlternatives_phrases (regular : ∀ t ∈ ahead, Regular t) (phrases : List (List Role)) :
    readAlternatives apply (phrases.map phrase) ahead = readPhrases phrases ahead := by
  induction phrases with
  | nil => rfl
  | cons roles rest ih =>
      rw [List.map_cons, readAlternatives, readProduction_phrase roles regular, ih, readPhrases]

/-- The reading of a rule of words. -/
theorem reading_rule {name : String} {alternatives : List Production}
    (declared : (wordGrammar.rule? name).map Rule.alternatives = some alternatives)
    (levels : Nat) (ahead : List Token) :
    words.parser.reading (levels + 1) name ahead =
      readAlternatives (words.parser.reading levels) alternatives ahead := by
  cases found : words.parser.grammar.rule? name with
  | none =>
      have same : wordGrammar.rule? name = none := found
      rw [same] at declared
      cases declared
  | some r => rw [reading, found, ← alternatives_eq declared found]

/-- **A rule of phrases takes the first that is next.** -/
theorem reading_phrases {name : String} (phrases : List (List Role))
    (declared : (wordGrammar.rule? name).map Rule.alternatives = some (phrases.map phrase))
    (regular : ∀ t ∈ ahead, Regular t) (levels : Nat) :
    words.parser.reading (levels + 1) name ahead = readPhrases phrases ahead := by
  rw [reading_rule declared, readAlternatives_phrases regular phrases]

/-- A rule of one phrase. -/
theorem reading_phrase {name : String} (roles : List Role)
    (declared : (wordGrammar.rule? name).map Rule.alternatives = some [phrase roles])
    (regular : ∀ t ∈ ahead, Regular t) (levels : Nat) :
    words.parser.reading (levels + 1) name ahead = readPhrase roles ahead := by
  rw [reading_phrases [roles] declared regular, readPhrases, readPhrases, Reach.orElse_refused]

/-! ### Numbers and paths -/

/-- The reading of a phrase behind a sign that may be left out. -/
def readSigned (roles : List Role) (ahead : List Token) : Reach :=
  if next .plus ahead || next .minus ahead then
    if nextAll roles (ahead.drop 1) then .took (1 + roles.length) else .refused
  else readPhrase roles ahead

theorem reading_signed {name : String} (rest : Production) {roles : List Role} {levels : Nat}
    (declared : (wordGrammar.rule? name).map Rule.alternatives =
      some [optionalRule "sign" :: rest])
    (reads : ∀ ahead : List Token, (∀ t ∈ ahead, Regular t) →
      readProduction (words.parser.reading (levels + 1)) rest ahead = readPhrase roles ahead)
    (regular : ∀ t ∈ ahead, Regular t) :
    words.parser.reading (levels + 2) name ahead = readSigned roles ahead := by
  have sign : (words.parser.reading (levels + 1) "sign" ahead).orElse (.took 0) =
      if next .plus ahead || next .minus ahead then .took 1 else .took 0 := by
    rw [reading_phrases [[.plus], [.minus]] (by decide) regular]
    simp only [readPhrases, readPhrase, nextAll, Bool.and_true]
    cases next .plus ahead <;> cases next .minus ahead <;> rfl
  rw [reading_rule declared, readAlternatives, readAlternatives, Reach.orElse_refused,
    readProduction]
  show ((words.parser.reading (levels + 1) "sign" ahead).orElse (.took 0)).andThen _ = _
  rw [sign, readSigned]
  by_cases signed : (next .plus ahead || next .minus ahead) = true
  · rw [if_pos signed, if_pos signed, Reach.andThen, reads _ (regular_drop regular 1), readPhrase]
    cases nextAll roles (ahead.drop 1) <;> rfl
  · rw [if_neg signed, if_neg signed, Reach.andThen, List.drop_zero, reads _ regular, readPhrase]
    cases nextAll roles ahead <;> simp

theorem reading_number (regular : ∀ t ∈ ahead, Regular t) (levels : Nat) :
    words.parser.reading (levels + 3) "num-literal" ahead =
      (readSigned [.number, .dot, .number] ahead).orElse (readSigned [.number] ahead) := by
  have fractional : words.parser.reading (levels + 2) "fractional-literal" ahead =
      readSigned [.number, .dot, .number] ahead := by
    refine reading_signed [number, rule "fractional-part"] (by decide) (fun ahead regular => ?_)
      regular
    refine readProduction_cons [.number] [.dot, .number] (readElement_terminal .number regular) ?_
    rw [readProduction_singleton]
    show words.parser.reading (levels + 1) "fractional-part" _ = _
    exact reading_phrase [.dot, .number] (by decide) (regular_drop regular 1) levels
  have int : words.parser.reading (levels + 2) "int-literal" ahead =
      readSigned [.number] ahead :=
    reading_signed [number] (by decide) (fun ahead regular =>
      readProduction_cons [.number] [] (readElement_terminal .number regular) rfl) regular
  rw [@reading_rule _ [[rule "fractional-literal"], [rule "int-literal"]] (by decide),
    readAlternatives, readAlternatives, readAlternatives, readProduction_singleton,
    readProduction_singleton, Reach.orElse_refused]
  show (words.parser.reading (levels + 2) "fractional-literal" ahead).orElse
    (words.parser.reading (levels + 2) "int-literal" ahead) = _
  rw [fractional, int]

/-- Steps are taken as long as there are any. -/
theorem readMany_steps
    (reads : ∀ ahead : List Token, (∀ t ∈ ahead, Regular t) →
      apply "path-step" ahead = readPhrase [.dot, .name] ahead) :
    ∀ ahead : List Token, (∀ t ∈ ahead, Regular t) →
      readMany apply "path-step" ahead = .took (steps ahead)
  | [], regular => by
      rw [readMany, reads _ regular]
      rfl
  | [d], regular => by
      have none : apply "path-step" [d] = .refused := by
        rw [reads _ regular]
        simp [readPhrase, nextAll]
      rw [readMany_of_ended (by simp [none]), none]
      rfl
  | d :: n :: rest, regular => by
      have step : apply "path-step" (d :: n :: rest) =
          if fits .dot d && fits .name n then .took 2 else .refused := by
        rw [reads _ regular]
        simp [readPhrase, nextAll]
      have others := readMany_steps reads rest (regular_drop regular 2)
      rw [readMany, step, steps]
      cases fits .dot d && fits .name n with
      | false => rfl
      | true =>
          show (Reach.took 2).andThen (fun _ => readMany apply "path-step" rest) = _
          rw [others]
          rfl

/-- A step that is next counts. -/
theorem steps_of_next (h : nextAll [.dot, .name] ahead = true) :
    steps ahead = 2 + steps (ahead.drop 2) := by
  match ahead with
  | [] => cases h
  | [d] => simp [nextAll] at h
  | d :: n :: rest =>
      simp only [nextAll, next_cons, List.drop_succ_cons, List.drop_zero, Bool.and_true] at h
      rw [steps, if_pos h]
      rfl

/-- The reading of a path: a name with steps behind it. -/
def readPath (ahead : List Token) : Reach :=
  if nextAll [.name, .dot, .name] ahead then .took (1 + steps (ahead.drop 1)) else .refused

theorem reading_path (regular : ∀ t ∈ ahead, Regular t) (levels : Nat) :
    words.parser.reading (levels + 2) "attribute-path-name" ahead = readPath ahead := by
  have step : ∀ ahead : List Token, (∀ t ∈ ahead, Regular t) →
      words.parser.reading (levels + 1) "path-step" ahead = readPhrase [.dot, .name] ahead :=
    fun ahead regular => reading_phrase [.dot, .name] (by decide) regular levels
  have first : readElement (words.parser.reading (levels + 1)) (rule "path-step") (ahead.drop 1) =
      readPhrase [.dot, .name] (ahead.drop 1) := step _ (regular_drop regular 1)
  have others : readProduction (words.parser.reading (levels + 1))
      [rule "path-step", many "path-step"] (ahead.drop 1) =
      if nextAll [.dot, .name] (ahead.drop 1) then .took (steps (ahead.drop 1)) else .refused := by
    rw [readProduction_behind [.dot, .name] first, readProduction_singleton]
    by_cases more : nextAll [.dot, .name] (ahead.drop 1) = true
    · rw [if_pos more, if_pos more, steps_of_next more]
      show (Reach.took 2).andThen (fun _ => readMany (words.parser.reading (levels + 1)) "path-step"
        ((ahead.drop 1).drop 2)) = _
      rw [readMany_steps step _ (regular_drop (regular_drop regular 1) 2)]
      rfl
    · rw [if_neg more, if_neg more]
  rw [@reading_rule _ [[.one Role.name.terminal, rule "path-step", many "path-step"]] (by decide),
    readAlternatives, readAlternatives, Reach.orElse_refused,
    readProduction_behind [.name] (readElement_terminal .name regular)]
  show (if (next .name ahead && true) = true then (Reach.took 1).andThen
    (fun _ => readProduction _ _ (ahead.drop 1)) else .refused) =
      if (next .name ahead && nextAll [.dot, .name] (ahead.drop 1)) = true then _ else .refused
  rw [others]
  cases next .name ahead <;> cases nextAll [.dot, .name] (ahead.drop 1) <;> rfl

/-! ### Comments and strings -/

/-- The reading of a search and of what it was for. -/
def readEnclosed (opens closes : Role) (ahead : List Token) : Reach :=
  if next opens ahead then foundReach ((seek closes (ahead.drop 1)).map (· + 2)) else .refused

/-- What a search found is next. -/
theorem next_of_seek {r : Role} {n : Nat} (h : seek r ahead = some n) :
    next r (ahead.drop n) = true := by
  obtain ⟨inside, found, -⟩ := List.findIdx?_eq_some_iff_getElem.mp h
  rw [List.drop_eq_getElem_cons inside]
  exact found

theorem reading_enclosed {name : String} (opens closes : Role)
    (declared : (wordGrammar.rule? name).map Rule.alternatives =
      some [[.one opens.terminal, .one { closes.terminal with inverse := true },
        .one closes.terminal]])
    (regular : ∀ t ∈ ahead, Regular t) (levels : Nat) :
    words.parser.reading (levels + 1) name ahead = readEnclosed opens closes ahead := by
  rw [reading_rule declared, readAlternatives, readAlternatives, Reach.orElse_refused,
    readProduction_behind [opens] (readElement_terminal opens regular), readEnclosed]
  show (if (next opens ahead && true) = true then (Reach.took 1).andThen
    (fun _ => readProduction _ _ (ahead.drop 1)) else .refused) = _
  rw [Bool.and_true, readProduction, readElement_until closes (regular_drop regular 1)]
  cases found : seek closes (ahead.drop 1) with
  | none => cases next opens ahead <;> rfl
  | some n =>
      have last : readProduction (words.parser.reading levels) [.one closes.terminal]
          ((ahead.drop 1).drop n) = .took 1 := by
        rw [readProduction_singleton,
          readElement_terminal closes (regular_drop (regular_drop regular 1) n), readPhrase,
          nextAll, nextAll, next_of_seek found]
        rfl
      show (if next opens ahead = true then (Reach.took 1).andThen
        (fun _ => (Reach.took n).andThen fun m => readProduction _ _ ((ahead.drop 1).drop m))
          else .refused) = if next opens ahead = true then .took (n + 2) else .refused
      simp only [Reach.andThen, last]
      rw [show 1 + (n + 1) = n + 2 by omega]

/-- The reading of a line comment: its mark and all before a line feed. -/
def readLine (ahead : List Token) : Reach :=
  if next .dashes ahead || next .slashes ahead then
    foundReach ((seek .lineFeed (ahead.drop 1)).map (· + 1))
  else .refused

theorem reading_line (regular : ∀ t ∈ ahead, Regular t) (levels : Nat) :
    words.parser.reading (levels + 1) "line-comment" ahead = readLine ahead := by
  have each : ∀ mark : Role, readProduction (words.parser.reading levels)
      [.one mark.terminal, untilLiteral "\n"] ahead =
      if next mark ahead then foundReach ((seek .lineFeed (ahead.drop 1)).map (· + 1))
      else .refused := by
    intro mark
    rw [readProduction_behind [mark] (readElement_terminal mark regular), readProduction_singleton]
    show (if (next mark ahead && true) = true then (Reach.took 1).andThen
      (fun _ => readElement _ (.one { Role.lineFeed.terminal with inverse := true }) (ahead.drop 1))
        else .refused) = _
    rw [readElement_until .lineFeed (regular_drop regular 1), Bool.and_true]
    cases seek .lineFeed (ahead.drop 1) with
    | none => rfl
    | some n =>
        show (if next mark ahead = true then Reach.took (1 + n) else .refused) =
          if next mark ahead = true then .took (n + 1) else .refused
        rw [Nat.add_comm]
  rw [@reading_rule _ [[.one Role.dashes.terminal, untilLiteral "\n"],
      [.one Role.slashes.terminal, untilLiteral "\n"]] (by decide),
    readAlternatives, readAlternatives, readAlternatives, each, each, Reach.orElse_refused, readLine]
  cases next .dashes ahead <;> cases next .slashes ahead <;>
    cases seek .lineFeed (ahead.drop 1) <;> rfl

end Readings

end GrammarKit.Query
