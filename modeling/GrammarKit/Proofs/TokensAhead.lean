import GrammarKit.Proofs.Adequacy

/-!
# Runs of the parser on the tokens ahead

What a part of a grammar does at an index is a matter of the tokens from there on:
it **takes** the first of them, or it **refuses** what it sees.  Both are said of a
run of the parser with a number of levels of nesting left, so that a statement
about a grammar is at the same time one about the limit it needs.

## Main Definitions

* `Parser.Answers` — what a run answers for a goal at an index
* `Parser.Takes` — a goal takes some tokens, whatever stands before them
* `Parser.Refuses` — a goal takes nothing of the tokens ahead
* `Parser.upcoming` — the first token ahead that is not blank

## Main Statements

* `Parser.Answers.again`, `Parser.Answers.next`, … — how the parts of a run fit
  together, one lemma for each rule of ordered choice
* `Parser.Takes.cons`, `Parser.Takes.rule`, … — the same for the tokens ahead
* `Parser.Takes.derives` — what a run takes is derivable
* `Parser.Takes.parse` — tokens that the root takes are parsed, within the limit

## Design Notes

The tokens behind those that are taken are part of a statement, because ordered
choice looks at them: a repetition ends only where one more round is refused.
The tokens before are not, and a statement holds for all of them.
-/

namespace GrammarKit.Parser

variable {p : Parser} {tokens : List Token}

/-! ### Computations that answer -/

/-- A computation answers with a segment, or with none; its frontier is left open. -/
def Gives (x : Traced Interrupt Attempt) (s? : Option Segment) : Prop :=
  ∃ a, x.outcome = .ok a ∧ a.segment? = s?

theorem gives_pure {a : Attempt} {s? : Option Segment} (h : a.segment? = s?) :
    Gives (pure a) s? :=
  ⟨a, rfl, h⟩

theorem Gives.bind {x : Traced Interrupt Attempt} {f : Attempt → Traced Interrupt Attempt}
    {s? s'? : Option Segment} (first : Gives x s?)
    (then' : ∀ a, a.segment? = s? → Gives (f a) s'?) : Gives (x >>= f) s'? := by
  obtain ⟨a, ok, same⟩ := first
  obtain ⟨b, ok', same'⟩ := then' a same
  exact ⟨b, Traced.outcome_bind_eq_ok.mpr ⟨a, ok, ok'⟩, same'⟩

theorem Gives.note {enabled : Bool} {line : Unit → String} {x : Traced Interrupt Attempt}
    {s? : Option Segment} (h : Gives x s?) :
    Gives (Traced.note enabled line >>= fun _ => x) s? := by
  obtain ⟨a, ok, same⟩ := h
  exact ⟨a, Traced.outcome_bind_eq_ok.mpr ⟨(), rfl, ok⟩, same⟩

/-- **What a run answers for a goal at an index**, with a number of levels left and
however deeply it is nested already. -/
def Answers (p : Parser) (tokens : List Token) (levels : Nat) :
    Goal → Nat → Option Segment → Prop
  | .rule name, i, s? => ∀ depth, Gives (p.applyRule tokens levels depth name i) s?
  | .alternatives productions, i, s? => ∀ depth label number,
      Gives (p.matchAlternatives tokens (p.applyRule tokens levels depth) label i number
        productions) s?
  | .sequence elements, i, s? => ∀ depth,
      Gives (p.matchProduction tokens (p.applyRule tokens levels depth) elements i) s?
  | .element e, i, s? => ∀ depth,
      Gives (p.matchElement tokens (p.applyRule tokens levels depth) e i) s?
  | .once name, i, s? => ∀ depth,
      Gives (p.matchOnce tokens (p.applyRule tokens levels depth) name i) s?
  | .many name, i, s? => ∀ depth,
      Gives (p.matchMany tokens (p.applyRule tokens levels depth) name i) s?

/-- What a rule's run answers is derivable. -/
theorem Answers.derives {levels i : Nat} {name : String} {s : Segment}
    (h : p.Answers tokens levels (.rule name) i (some s)) :
    Derives p tokens (.rule name) i (.success s.children s.stop) := by
  obtain ⟨a, ok, same⟩ := h 0
  have derived := applyRule_sound p tokens levels 0 name i _ (outcome?_of_ok ok)
  rwa [Attempt.outcome_of_some same] at derived

namespace Answers

variable {levels i : Nat} {s : Segment} {s? : Option Segment}

theorem rule {name : String} {r : Rule} (declared : p.grammar.rule? name = some r)
    (h : p.Answers tokens levels (.alternatives r.alternatives) i s?) :
    p.Answers tokens (levels + 1) (.rule name) i s? := by
  intro depth
  rw [applyRule, declared]
  refine Gives.bind (h _ _ _) fun a same => ?_
  exact Gives.note (gives_pure same)

theorem exhausted : p.Answers tokens levels (.alternatives []) i none :=
  fun _ _ _ => gives_pure rfl

theorem taken {production : Production} {rest : List Production}
    (h : p.Answers tokens levels (.sequence production) i (some s)) :
    p.Answers tokens levels (.alternatives (production :: rest)) i (some s) := by
  intro depth label number
  rw [matchAlternatives]
  refine Gives.note (Gives.bind (h depth) fun a same => ?_)
  simp only [same]
  exact gives_pure same

theorem passed {production : Production} {rest : List Production}
    (refused : p.Answers tokens levels (.sequence production) i none)
    (h : p.Answers tokens levels (.alternatives rest) i s?) :
    p.Answers tokens levels (.alternatives (production :: rest)) i s? := by
  intro depth label number
  rw [matchAlternatives]
  refine Gives.note (Gives.bind (refused depth) fun a none => ?_)
  simp only [none]
  exact Gives.bind (h depth label (number + 1)) fun b same => gives_pure same

theorem done : p.Answers tokens levels (.sequence []) i (some ⟨[], i⟩) :=
  fun _ => gives_pure rfl

theorem next {e : Element} {rest : Production}
    (first : p.Answers tokens levels (.element e) i (some s))
    (others : p.Answers tokens levels (.sequence rest) s.stop s?) :
    p.Answers tokens levels (.sequence (e :: rest)) i
      (s?.map fun more => ⟨s.children ++ more.children, more.stop⟩) := by
  intro depth
  rw [matchProduction]
  refine Gives.bind (first depth) fun a same => ?_
  simp only [same]
  refine Gives.bind (others depth) fun b same' => gives_pure ?_
  rw [Attempt.after, same']

theorem stuck {e : Element} {rest : Production}
    (h : p.Answers tokens levels (.element e) i none) :
    p.Answers tokens levels (.sequence (e :: rest)) i none := by
  intro depth
  rw [matchProduction]
  refine Gives.bind (h depth) fun a same => ?_
  simp only [same]
  exact gives_pure same

theorem once {name : String}
    (h : p.Answers tokens levels (.rule name) (p.afterBlanks tokens i) s?) :
    p.Answers tokens levels (.once name) i
      (s?.map fun inner =>
        ⟨(p.blanksAt tokens i).map Tree.leaf ++ [.node name inner.children none], inner.stop⟩) := by
  intro depth
  rw [matchOnce]
  refine Gives.bind (h depth) fun a same => gives_pure ?_
  rw [same]

theorem plain {name : String} (h : p.Answers tokens levels (.once name) i s?) :
    p.Answers tokens levels (.element (.reference name false false)) i s? :=
  fun depth => Gives.bind (h depth) fun _ same => gives_pure same

theorem optional {name : String} (h : p.Answers tokens levels (.once name) i s?) :
    p.Answers tokens levels (.element (.reference name true false)) i
      (some (s?.getD ⟨[], i⟩)) := by
  intro depth
  refine Gives.bind (h depth) fun a same => gives_pure ?_
  show (a.orStay i).segment? = _
  rw [Attempt.orStay, same]

theorem repeatable {name : String} (h : p.Answers tokens levels (.many name) i s?) :
    p.Answers tokens levels (.element (.reference name false true)) i s? :=
  h

theorem again {name : String} (round : p.Answers tokens levels (.once name) i (some s))
    (moved : p.afterBlanks tokens i < s.stop) (inside : s.stop ≤ tokens.length)
    (others : p.Answers tokens levels (.many name) s.stop s?) :
    p.Answers tokens levels (.many name) i
      (s?.map fun more => ⟨s.children ++ more.children, more.stop⟩) := by
  intro depth
  rw [matchMany]
  refine Gives.bind (round depth) fun a same => ?_
  rw [afterBlanks] at moved
  simp only [same]
  rw [if_pos ⟨moved, Nat.lt_of_lt_of_le moved inside⟩]
  refine Gives.bind (others depth) fun b same' => gives_pure ?_
  rw [Attempt.after, same']

theorem ended {name : String} (round : p.Answers tokens levels (.once name) i none) :
    p.Answers tokens levels (.many name) i (some ⟨[], i⟩) := by
  intro depth
  rw [matchMany]
  refine Gives.bind (round depth) fun a same => ?_
  simp only [same]
  exact gives_pure rfl

theorem token {t : Terminal} {found : Token} (direct : t.inverse = false)
    (stands : tokens[p.afterBlanks tokens i]? = some found) (accepted : t.accepts found = true) :
    p.Answers tokens levels (.element (.one t)) i
      (some ⟨(p.blanksAt tokens i).map Tree.leaf ++ [.leaf found],
        p.afterBlanks tokens i + 1⟩) := by
  intro depth
  simp only [Element.one, matchElement, direct, Bool.false_eq_true, if_false]
  refine gives_pure ?_
  rw [afterBlanks] at stands
  simp [matchToken, stands, accepted, Attempt.success, afterBlanks]

theorem mismatch {t : Terminal} (direct : t.inverse = false)
    (none : ∀ found, tokens[p.afterBlanks tokens i]? = some found → t.accepts found = false) :
    p.Answers tokens levels (.element (.one t)) i .none := by
  intro depth
  simp only [Element.one, matchElement, direct, Bool.false_eq_true, if_false]
  refine gives_pure ?_
  rw [afterBlanks] at none
  cases stands : tokens[i + (p.blanksAt tokens i).length]? with
  | none => simp [matchToken, stands]
  | some found => simp [matchToken, stands, none found stands]

end Answers

/-! ### Blanks ahead -/

/-- Tokens that are all blank. -/
def Gap (p : Parser) (w : List Token) : Prop :=
  ∀ t ∈ w, t.isBlank p.blankTypes = true

/-- Tokens of which the first is there and is not blank. -/
def Begins (p : Parser) (w : List Token) : Prop :=
  ∃ t rest, w = t :: rest ∧ t.isBlank p.blankTypes = false

/-- The first token that is not blank. -/
def upcoming (p : Parser) (ahead : List Token) : Option Token :=
  (ahead.dropWhile (Token.isBlank p.blankTypes)).head?

theorem gap_nil : p.Gap [] :=
  nofun

theorem Begins.append {w : List Token} (h : p.Begins w) (v : List Token) : p.Begins (w ++ v) := by
  obtain ⟨t, rest, rfl, solid⟩ := h
  exact ⟨t, rest ++ v, rfl, solid⟩

theorem upcoming_cons {t : Token} (solid : t.isBlank p.blankTypes = false) (rest : List Token) :
    p.upcoming (t :: rest) = some t := by
  simp [upcoming, solid]

theorem upcoming_gap {gap : List Token} (blank : p.Gap gap) (rest : List Token) :
    p.upcoming (gap ++ rest) = p.upcoming rest := by
  rw [upcoming, List.dropWhile_append_of_pos blank, upcoming]

theorem upcoming_dropWhile (ahead : List Token) :
    p.upcoming (ahead.dropWhile (Token.isBlank p.blankTypes)) = p.upcoming ahead := by
  have split := List.takeWhile_append_dropWhile (p := Token.isBlank p.blankTypes) (l := ahead)
  have blank : p.Gap (ahead.takeWhile (Token.isBlank p.blankTypes)) :=
    fun t mem => List.all_eq_true.mp List.all_takeWhile t mem
  rw [← upcoming_gap blank, split]

section Skipping

variable (skips : p.skipBlanks = true)

include skips

theorem blanksAt_append (before ahead : List Token) :
    p.blanksAt (before ++ ahead) before.length =
      ahead.takeWhile (Token.isBlank p.blankTypes) := by
  rw [blanksAt, if_pos skips, List.drop_left]

theorem blanksAt_gap {gap w : List Token} (blank : p.Gap gap) (begins : p.Begins w)
    (before : List Token) :
    p.blanksAt (before ++ (gap ++ w)) before.length = gap := by
  obtain ⟨t, rest, rfl, solid⟩ := begins
  rw [blanksAt_append skips, List.takeWhile_append_of_pos blank]
  simp [solid]

/-- Behind the blanks ahead stands the first token that is none. -/
theorem getElem?_afterBlanks (before ahead : List Token) :
    (before ++ ahead)[p.afterBlanks (before ++ ahead) before.length]? = p.upcoming ahead := by
  have split := List.takeWhile_append_dropWhile (p := Token.isBlank p.blankTypes) (l := ahead)
  rw [afterBlanks, blanksAt_append skips, List.getElem?_append_right (Nat.le_add_right _ _),
    Nat.add_sub_cancel_left, upcoming, List.head?_eq_getElem?]
  generalize ahead.takeWhile (Token.isBlank p.blankTypes) = gap at split ⊢
  rw [← split, List.getElem?_append_right (Nat.le_refl _), Nat.sub_self, split]

end Skipping

/-! ### Taking and refusing -/

/-- **A goal takes some tokens**, with the trees it makes of them: so it does
wherever they stand before the given tokens behind them, in every run with so many
levels left. -/
def Takes (p : Parser) (bound : Nat) (goal : Goal) (taken behind : List Token)
    (children : List Tree) : Prop :=
  ∀ levels, bound ≤ levels → ∀ before : List Token,
    p.Answers (before ++ (taken ++ behind)) levels goal before.length
      (some ⟨children, before.length + taken.length⟩)

/-- **A goal refuses the tokens ahead**, in every run with so many levels left. -/
def Refuses (p : Parser) (bound : Nat) (goal : Goal) (ahead : List Token) : Prop :=
  ∀ levels, bound ≤ levels → ∀ before : List Token,
    p.Answers (before ++ ahead) levels goal before.length none

variable {bound : Nat} {taken behind ahead more : List Token} {children others : List Tree}

theorem Takes.mono {goal : Goal} {higher : Nat} (h : p.Takes bound goal taken behind children)
    (le : bound ≤ higher) : p.Takes higher goal taken behind children :=
  fun levels room before => h levels (Nat.le_trans le room) before

theorem Refuses.mono {goal : Goal} {higher : Nat} (h : p.Refuses bound goal ahead)
    (le : bound ≤ higher) : p.Refuses higher goal ahead :=
  fun levels room before => h levels (Nat.le_trans le room) before

/-! ### Productions and rules -/

section Productions

variable {e : Element} {rest production : Production} {productions : List Production}

theorem takes_nil : p.Takes bound (.sequence []) [] behind [] :=
  fun _ _ _ => Answers.done

/-- The other elements go on where the first one ended. -/
theorem Takes.cons (first : p.Takes bound (.element e) taken (more ++ behind) children)
    (next : p.Takes bound (.sequence rest) more behind others) :
    p.Takes bound (.sequence (e :: rest)) (taken ++ more) behind (children ++ others) := by
  intro levels room before
  have here := first levels room before
  have there := next levels room (before ++ taken)
  rw [List.append_assoc, List.length_append] at there
  simpa [Nat.add_assoc] using Answers.next here there

theorem Refuses.stuck (h : p.Refuses bound (.element e) ahead) :
    p.Refuses bound (.sequence (e :: rest)) ahead :=
  fun levels room before => Answers.stuck (h levels room before)

/-- A production is refused where the elements after the first are. -/
theorem Takes.refuses (first : p.Takes bound (.element e) taken ahead children)
    (next : p.Refuses bound (.sequence rest) ahead) :
    p.Refuses bound (.sequence (e :: rest)) (taken ++ ahead) := by
  intro levels room before
  have there := next levels room (before ++ taken)
  rw [List.append_assoc, List.length_append] at there
  exact Answers.next (first levels room before) there

theorem Takes.here (h : p.Takes bound (.sequence production) taken behind children) :
    p.Takes bound (.alternatives (production :: productions)) taken behind children :=
  fun levels room before => Answers.taken (h levels room before)

/-- An alternative is taken where the one before it is refused. -/
theorem Takes.later (refused : p.Refuses bound (.sequence production) (taken ++ behind))
    (h : p.Takes bound (.alternatives productions) taken behind children) :
    p.Takes bound (.alternatives (production :: productions)) taken behind children :=
  fun levels room before => Answers.passed (refused levels room before) (h levels room before)

theorem refuses_alternatives
    (h : ∀ production ∈ productions, p.Refuses bound (.sequence production) ahead) :
    p.Refuses bound (.alternatives productions) ahead := by
  intro levels room before
  induction productions with
  | nil => exact Answers.exhausted
  | cons production rest ih =>
      exact Answers.passed (h production List.mem_cons_self levels room before)
        (ih fun other mem => h other (List.mem_cons_of_mem production mem))

variable {name : String}

/-- A rule needs one level more than its alternatives. -/
theorem Takes.rule (declared : (p.grammar.rule? name).map Rule.alternatives = some productions)
    (h : p.Takes bound (.alternatives productions) taken behind children) :
    p.Takes (bound + 1) (.rule name) taken behind children := by
  obtain ⟨r, isRule, rfl⟩ := Option.map_eq_some_iff.mp declared
  intro levels room before
  obtain ⟨lower, rfl⟩ : ∃ lower, levels = lower + 1 := ⟨levels - 1, by omega⟩
  exact Answers.rule isRule (h lower (by omega) before)

theorem Refuses.rule (declared : (p.grammar.rule? name).map Rule.alternatives = some productions)
    (h : ∀ production ∈ productions, p.Refuses bound (.sequence production) ahead) :
    p.Refuses (bound + 1) (.rule name) ahead := by
  obtain ⟨r, isRule, rfl⟩ := Option.map_eq_some_iff.mp declared
  intro levels room before
  obtain ⟨lower, rfl⟩ : ∃ lower, levels = lower + 1 := ⟨levels - 1, by omega⟩
  exact Answers.rule isRule (refuses_alternatives h lower (by omega) before)

theorem Takes.plain (h : p.Takes bound (.once name) taken behind children) :
    p.Takes bound (.element (.rule name)) taken behind children :=
  fun levels room before => Answers.plain (h levels room before)

theorem Refuses.plain (h : p.Refuses bound (.once name) ahead) :
    p.Refuses bound (.element (.rule name)) ahead :=
  fun levels room before => Answers.plain (h levels room before)

theorem Takes.optional (h : p.Takes bound (.once name) taken behind children) :
    p.Takes bound (.element (.optionalRule name)) taken behind children :=
  fun levels room before => Answers.optional (h levels room before)

/-- What is refused may be left out. -/
theorem Refuses.optional (h : p.Refuses bound (.once name) ahead) :
    p.Takes bound (.element (.optionalRule name)) [] ahead [] :=
  fun levels room before => Answers.optional (h levels room before)

theorem Takes.repeatable (h : p.Takes bound (.many name) taken behind children) :
    p.Takes bound (.element (.many name)) taken behind children :=
  fun levels room before => Answers.repeatable (h levels room before)

/-- A repetition ends where one more round is refused. -/
theorem Refuses.ended (h : p.Refuses bound (.once name) ahead) :
    p.Takes bound (.many name) [] ahead [] :=
  fun levels room before => Answers.ended (h levels room before)

end Productions

/-! ### Behind blanks -/

section BehindBlanks

variable {name : String} {gap : List Token} (skips : p.skipBlanks = true)

include skips

theorem Takes.once (blank : p.Gap gap) (begins : p.Begins taken)
    (h : p.Takes bound (.rule name) taken behind children) :
    p.Takes bound (.once name) (gap ++ taken) behind
      (gap.map Tree.leaf ++ [.node name children none]) := by
  intro levels room before
  have blanks := blanksAt_gap skips blank (begins.append behind) before
  have inner := h levels room (before ++ gap)
  rw [List.append_assoc, List.length_append] at inner
  have answer := @Answers.once p (before ++ (gap ++ (taken ++ behind))) levels before.length
    (some ⟨children, _⟩) name (by rw [afterBlanks, blanks]; exact inner)
  rw [blanks] at answer
  simpa [Nat.add_assoc] using answer

theorem Refuses.once
    (h : p.Refuses bound (.rule name) (ahead.dropWhile (Token.isBlank p.blankTypes))) :
    p.Refuses bound (.once name) ahead := by
  intro levels room before
  have blanks := blanksAt_append skips before ahead
  have inner := h levels room (before ++ ahead.takeWhile (Token.isBlank p.blankTypes))
  rw [List.append_assoc, List.takeWhile_append_dropWhile, List.length_append] at inner
  refine @Answers.once p (before ++ ahead) levels before.length none name ?_
  rw [afterBlanks, blanks]
  exact inner

/-- Where the first token ahead is no blank, a reference is refused with its rule. -/
theorem Refuses.reference {rest : Production} (begins : p.Begins ahead)
    (h : p.Refuses bound (.rule name) ahead) :
    p.Refuses bound (.sequence (.rule name :: rest)) ahead := by
  refine Refuses.stuck (Refuses.plain (Refuses.once skips ?_))
  obtain ⟨t, others, rfl, solid⟩ := begins
  rwa [List.dropWhile_cons_of_neg (by simp [solid])]

/-- A reference with the blanks before it, and what follows. -/
theorem Takes.reference {rest : Production} (blank : p.Gap gap) (begins : p.Begins taken)
    (h : p.Takes bound (.rule name) taken (more ++ behind) children)
    (next : p.Takes bound (.sequence rest) more behind others) :
    p.Takes bound (.sequence (.rule name :: rest)) (gap ++ (taken ++ more)) behind
      (gap.map Tree.leaf ++ .node name children none :: others) := by
  simpa using Takes.cons (h.once skips blank begins).plain next

/-- A reference with no blanks before it, and what follows. -/
theorem Takes.first {rest : Production} (begins : p.Begins taken)
    (h : p.Takes bound (.rule name) taken (more ++ behind) children)
    (next : p.Takes bound (.sequence rest) more behind others) :
    p.Takes bound (.sequence (.rule name :: rest)) (taken ++ more) behind
      (.node name children none :: others) :=
  @Takes.reference p bound taken behind more children others name [] skips rest gap_nil begins h
    next

/-- A reference with the blanks before it, and nothing else. -/
theorem Takes.only (blank : p.Gap gap) (begins : p.Begins taken)
    (h : p.Takes bound (.rule name) taken behind children) :
    p.Takes bound (.sequence [.rule name]) (gap ++ taken) behind
      (gap.map Tree.leaf ++ [.node name children none]) := by
  have all := @Takes.reference p bound taken behind [] children [] name gap skips [] blank begins h
    takes_nil
  rwa [List.append_nil] at all

/-- A reference with no blanks before it, and nothing else. -/
theorem Takes.alone (begins : p.Begins taken)
    (h : p.Takes bound (.rule name) taken behind children) :
    p.Takes bound (.sequence [.rule name]) taken behind [.node name children none] :=
  @Takes.only p bound taken behind children name [] skips gap_nil begins h

/-- One more round of a repetition; it takes at least a token, so the repetition
goes on. -/
theorem Takes.again (blank : p.Gap gap) (begins : p.Begins taken)
    (round : p.Takes bound (.rule name) taken (more ++ behind) children)
    (next : p.Takes bound (.many name) more behind others) :
    p.Takes bound (.many name) (gap ++ (taken ++ more)) behind
      (gap.map Tree.leaf ++ .node name children none :: others) := by
  intro levels room before
  have here := round.once skips blank begins levels room before
  have there := next levels room (before ++ (gap ++ taken))
  have blanks := blanksAt_gap skips blank (begins.append (more ++ behind)) before
  simp only [List.append_assoc, List.length_append] at here there blanks ⊢
  have moved : 0 < taken.length := by
    obtain ⟨t, rest, rfl, -⟩ := begins
    exact Nat.succ_pos _
  have answer := Answers.again here
    (by rw [afterBlanks, blanks]; exact Nat.add_lt_add_left (by omega) _)
    (by simp only [List.length_append]; omega) there
  simpa [Nat.add_assoc] using answer

/-- A terminal takes a token that it accepts. -/
theorem takes_token {t : Terminal} {found : Token} (direct : t.inverse = false)
    (blank : p.Gap gap) (solid : found.isBlank p.blankTypes = false)
    (accepted : t.accepts found = true) :
    p.Takes bound (.element (.one t)) (gap ++ [found]) behind
      (gap.map Tree.leaf ++ [.leaf found]) := by
  intro levels room before
  have begins : p.Begins ([found] ++ behind) := ⟨found, behind, rfl, solid⟩
  have blanks := blanksAt_gap skips blank begins before
  have stands := getElem?_afterBlanks skips before (gap ++ ([found] ++ behind))
  rw [upcoming_gap blank, List.singleton_append, upcoming_cons solid] at stands
  have answer := @Answers.token p _ levels before.length t found direct stands accepted
  rw [List.singleton_append] at blanks
  rw [afterBlanks, blanks] at answer
  simpa [Nat.add_assoc] using answer

/-- A token with the blanks before it, and what follows. -/
theorem takes_token_cons {t : Terminal} {found : Token} {rest : Production}
    (direct : t.inverse = false) (blank : p.Gap gap) (solid : found.isBlank p.blankTypes = false)
    (accepted : t.accepts found = true) (next : p.Takes bound (.sequence rest) more behind others) :
    p.Takes bound (.sequence (.one t :: rest)) (gap ++ found :: more) behind
      (gap.map Tree.leaf ++ .leaf found :: others) := by
  simpa using Takes.cons (takes_token skips direct blank solid accepted) next

theorem refuses_token {t : Terminal} (direct : t.inverse = false)
    (h : ∀ found, p.upcoming ahead = some found → t.accepts found = false) :
    p.Refuses bound (.element (.one t)) ahead := by
  intro levels room before
  refine Answers.mismatch direct fun found stands => h found ?_
  rw [← stands, getElem?_afterBlanks skips]

end BehindBlanks

/-! ### Whole parses -/

/-- **What a run takes is derivable.** -/
theorem Takes.derives {name : String} (h : p.Takes bound (.rule name) taken behind children) :
    Derives p (taken ++ behind) (.rule name) 0 (.success children taken.length) := by
  have derived := (h bound (Nat.le_refl bound) []).derives
  simpa using derived

/-- **A parse within its limit** of tokens that the root takes, with blanks behind
them, is the tree of the root. -/
theorem Takes.parse (skips : p.skipBlanks = true)
    (h : p.Takes bound (.rule p.grammar.root) taken behind children)
    (room : (bound : Int) ≤ p.maxDepth + 1) (blank : p.Gap behind) :
    (p.parse (taken ++ behind)).outcome =
      .ok ⟨p.grammar.root, children ++ behind.map Tree.leaf, none⟩ := by
  have blanks : p.blanksAt (taken ++ behind) taken.length = behind := by
    rw [blanksAt_append skips]
    simpa using @List.takeWhile_append_of_pos _ (Token.isBlank p.blankTypes) behind [] blank
  rcases p.parse_cases (taken ++ behind) with ⟨f, -, faulty⟩ | ⟨term, o, ok, derived, concludes⟩
  · obtain ⟨a, answered, -⟩ := h (p.maxDepth + 1).toNat (by omega) [] 0
    rw [attempt] at faulty
    rw [List.nil_append, List.length_nil, faulty] at answered
    cases answered
  · rw [derived.deterministic h.derives, Concludes, afterBlanks, blanks, if_neg (by simp)]
      at concludes
    rw [ok, concludes]

end GrammarKit.Parser
