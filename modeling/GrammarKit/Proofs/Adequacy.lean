import GrammarKit.Proofs.OrderedChoice

/-!
# The parser computes ordered choice

Each part of the parser is a function of the way `apply` in which rules are
applied.  If `apply` only gives outcomes that the declarative semantics derives,
then so does every part built on it; the recursion on the levels of nesting then
closes the knot once, at `applyRule`.

## Main Definitions

* `Parser.outcome?` — the outcome a computation answers with, if it has no fault
* `Parser.Sound` — a way to apply rules that only gives derivable outcomes
* `Parser.Reports`, `Parser.Concludes` — the answers of a parse for each outcome

## Main Statements

* `Parser.applyRule_sound` — every outcome of the parser is derivable, whatever
  the limit on nesting
* `Parser.parseRule_cases`, `Parser.parse_cases` — an answer is a fault, or what
  the derived outcome says
-/

namespace GrammarKit.Parser

variable {p : Parser} {tokens : List Token} {apply : Apply}

/-! ### The outcome of a computation -/

/-- An attempt without its frontier. -/
def Attempt.outcome (a : Attempt) : Outcome :=
  match a.segment? with
  | some s => .success s.children s.stop
  | none => .failure

/-- The outcome that a computation answers with; nothing if it has a fault. -/
def outcome? (x : Traced Interrupt Attempt) : Option Outcome :=
  match x.outcome with
  | .ok a => some a.outcome
  | .error (.unterminated start terminator) => some (.abort start terminator)
  | .error (.fault _) => none

theorem outcome?_of_ok {x : Traced Interrupt Attempt} {a : Attempt} (h : x.outcome = .ok a) :
    outcome? x = some a.outcome := by
  rw [outcome?, h]

/-- A sequence answers with the answer of its second part, or both are aborted. -/
theorem outcome?_bind {x : Traced Interrupt Attempt} {f : Attempt → Traced Interrupt Attempt}
    {o : Outcome} (h : outcome? (x >>= f) = some o) :
    (∃ a, x.outcome = .ok a ∧ outcome? (f a) = some o) ∨
      ∃ start terminator, o = .abort start terminator ∧ outcome? x = some o := by
  rw [outcome?, Traced.outcome_bind] at h
  cases hx : x.outcome with
  | ok a =>
      rw [hx] at h
      exact Or.inl ⟨a, rfl, h⟩
  | error e =>
      rw [hx] at h
      cases e with
      | fault f => cases h
      | unterminated start terminator =>
          cases h
          exact Or.inr ⟨start, terminator, rfl, by rw [outcome?, hx]⟩

/-- Writing a line has no effect on the answer. -/
theorem outcome?_note {enabled : Bool} {line : Unit → String}
    {x : Traced Interrupt Attempt} :
    outcome? (Traced.note enabled line >>= fun _ => x) = outcome? x := by
  rw [outcome?, Traced.outcome_bind]
  rfl

@[simp] theorem Attempt.outcome_after (a : Attempt) (children : List Tree)
    (frontier : Frontier) : (a.after children frontier).outcome = a.outcome.after children := by
  rcases a with ⟨_ | s, f⟩ <;> rfl

@[simp] theorem Attempt.outcome_orStay (a : Attempt) (position : Nat) :
    (a.orStay position).outcome = a.outcome.orStay position := by
  rcases a with ⟨_ | s, f⟩ <;> rfl

theorem Attempt.outcome_of_some {a : Attempt} {s : Segment} (h : a.segment? = some s) :
    a.outcome = .success s.children s.stop := by
  rw [outcome, h]

theorem Attempt.outcome_of_none {a : Attempt} (h : a.segment? = none) :
    a.outcome = .failure := by
  rw [outcome, h]

/-- A way to apply rules that only gives outcomes that can be derived. -/
def Sound (p : Parser) (tokens : List Token) (apply : Apply) : Prop :=
  ∀ name i o, outcome? (apply name i) = some o → Derives p tokens (.rule name) i o

/-! ### References -/

theorem matchOnce_sound (sound : p.Sound tokens apply) {name : String} {i : Nat} {o : Outcome}
    (h : outcome? (p.matchOnce tokens apply name i) = some o) :
    Derives p tokens (.once name) i o := by
  rcases outcome?_bind h with ⟨inner, ok, answer⟩ | ⟨start, terminator, rfl, aborted⟩
  · have derived := Derives.once (sound name _ _ (outcome?_of_ok ok))
    cases answer
    cases hs : inner.segment? with
    | none => simpa [Attempt.outcome, hs, Outcome.node] using derived
    | some s => simpa [Attempt.outcome, hs, Outcome.node] using derived
  · exact Derives.once (sound name _ _ aborted)

/-- The rounds of a repetition.  The relation goes on exactly while a round
consumes a token; the parser asks in addition that the round started inside the
tokens, which holds of every such round. -/
theorem matchMany_sound (sound : p.Sound tokens apply) {name : String} (i : Nat) {o : Outcome}
    (h : outcome? (p.matchMany tokens apply name i) = some o) :
    Derives p tokens (.many name) i o := by
  rw [matchMany] at h
  rcases outcome?_bind h with ⟨round, ok, answer⟩ | ⟨start, terminator, rfl, aborted⟩
  · have derived := matchOnce_sound sound (outcome?_of_ok ok)
    cases hs : round.segment? with
    | none =>
        rw [hs] at answer
        cases answer
        rw [Attempt.outcome_of_none hs] at derived
        exact Derives.ended derived id
    | some s =>
        rw [Attempt.outcome_of_some hs] at derived
        -- a round ends behind the blanks before it, and inside the tokens if it moved
        obtain ⟨inner, hinner, same⟩ := derived.of_once
        obtain ⟨trees, rfl, -⟩ := Outcome.node_eq_success.mp same.symm
        have le : p.afterBlanks tokens i ≤ s.stop := hinner.le_stop
        simp only [hs] at answer
        split at answer
        · rename_i moved
          rcases outcome?_bind answer with ⟨more, okMore, joined⟩ | ⟨_, _, rfl, aborted⟩
          · have rest := matchMany_sound sound s.stop (outcome?_of_ok okMore)
            cases joined
            simpa using Derives.again derived moved.1 rest
          · exact Derives.again derived moved.1 (matchMany_sound sound s.stop aborted)
        · rename_i still
          cases answer
          rw [Attempt.outcome_of_some hs]
          have here : s.stop = p.afterBlanks tokens i := by
            have inside := hinner.stop_le
            unfold afterBlanks at *
            omega
          rw [here] at derived ⊢
          exact Derives.last derived
  · exact Derives.ended (matchOnce_sound sound aborted) id
termination_by tokens.length - i
decreasing_by
  all_goals
    unfold afterBlanks at *
    omega

theorem matchReference_sound (sound : p.Sound tokens apply) {name : String}
    {optional repeatable : Bool} {i : Nat} {o : Outcome}
    (h : outcome? (p.matchReference tokens apply name optional repeatable i) = some o) :
    Derives p tokens (.element (.reference name optional repeatable)) i o := by
  unfold matchReference at h
  cases repeatable with
  | true => exact Derives.repeatable (matchMany_sound sound i (by simpa using h))
  | false =>
      simp only [Bool.false_eq_true, if_false] at h
      rcases outcome?_bind h with ⟨round, ok, answer⟩ | ⟨start, terminator, rfl, aborted⟩
      · have derived := matchOnce_sound sound (outcome?_of_ok ok)
        cases optional with
        | true =>
            cases answer
            simpa using Derives.optional derived
        | false =>
            cases answer
            exact Derives.plain derived
      · have derived := matchOnce_sound sound aborted
        cases optional with
        | true => exact Derives.optional derived
        | false => exact Derives.plain derived

/-! ### Terminals -/

theorem matchToken_sound {t : Terminal} (direct : t.inverse = false) (marked : Bool) (i : Nat) :
    Derives p tokens (.element (.terminal t marked)) i
      (if marked then (p.matchToken tokens t i).orStay i
        else p.matchToken tokens t i).outcome := by
  have absent :
      (∀ found, tokens[p.afterBlanks tokens i]? = some found → t.accepts found = false) →
      (p.matchToken tokens t i).segment? = none →
      Derives p tokens (.element (.terminal t marked)) i
        (if marked then (p.matchToken tokens t i).orStay i
          else p.matchToken tokens t i).outcome := by
    intro noneAccepted noSegment
    have failed := Attempt.outcome_of_none noSegment
    have derived : Derives p tokens (.element (.terminal t marked)) i _ :=
      Derives.mismatch direct noneAccepted
    cases marked with
    | true => simpa [failed, Outcome.orStay] using derived
    | false => simpa [failed] using derived
  cases hfound : tokens[p.afterBlanks tokens i]? with
  | none =>
      refine absent (by simp [hfound]) ?_
      simp only [afterBlanks] at hfound
      simp [matchToken, hfound]
  | some found =>
      cases accepted : t.accepts found with
      | false =>
          refine absent (by simp [hfound, accepted]) ?_
          simp only [afterBlanks] at hfound
          simp [matchToken, hfound, accepted]
      | true =>
          have derived : Derives p tokens (.element (.terminal t marked)) i _ :=
            Derives.token direct hfound accepted
          simp only [afterBlanks] at hfound derived
          cases marked <;>
            simpa [matchToken, hfound, accepted, Attempt.success, Attempt.outcome,
              Attempt.orStay] using derived

/-- A run of elements with a property stops before one without it. -/
theorem eq_false_of_getElem?_takeWhile {α : Type} {q : α → Bool} {l : List α} {x : α}
    (h : l[(l.takeWhile q).length]? = some x) : q x = false := by
  induction l with
  | nil => simp at h
  | cons a rest ih =>
      cases ha : q a with
      | false =>
          obtain rfl : a = x := by simpa [ha] using h
          exact ha
      | true =>
          rw [List.takeWhile_cons_of_pos ha, List.length_cons, List.getElem?_cons_succ] at h
          exact ih h

/-- Where blanks are skipped, none stands behind them. -/
theorem not_isBlank_afterBlanks {i : Nat} {token : Token} (skips : p.skipBlanks = true)
    (found : tokens[p.afterBlanks tokens i]? = some token) :
    token.isBlank p.blankTypes = false := by
  rw [afterBlanks, blanksAt, if_pos skips, ← List.getElem?_drop] at found
  exact eq_false_of_getElem?_takeWhile found

/-- The body of a consume-until terminal ends at the first token it accepts. -/
theorem matchUntil_sound {t : Terminal} (inverse : t.inverse = true) {marked : Bool} {i : Nat}
    {o : Outcome} (h : outcome? (matchUntil tokens t i) = some o) :
    Derives p tokens (.element (.terminal t marked)) i o := by
  unfold matchUntil at h
  generalize hbody : (tokens.drop i).takeWhile (fun token => !t.accepts token) = body at h
  have take : body = (tokens.drop i).take body.length := by
    rw [← hbody]
    exact List.prefix_iff_eq_take.mp (List.takeWhile_prefix _)
  have before : Unaccepted tokens t i (i + body.length) := by
    intro k lo hi token found
    have mem : token ∈ body := by
      rw [take]
      refine @List.mem_of_getElem? _ _ (k - i) _ ?_
      rw [List.getElem?_take_of_lt (by omega), List.getElem?_drop]
      rwa [Nat.add_sub_cancel' lo]
    rw [← hbody] at mem
    simpa using List.all_eq_true.mp List.all_takeWhile token mem
  simp only at h
  split at h
  · rename_i inside
    cases h
    obtain ⟨found, hfound⟩ : ∃ found, tokens[i + body.length]? = some found :=
      ⟨_, List.getElem?_eq_getElem inside⟩
    have accepts : t.accepts found = true := by
      rw [← List.getElem?_drop, ← hbody] at hfound
      simpa using eq_false_of_getElem?_takeWhile hfound
    have derived : Derives p tokens (.element (.terminal t marked)) i _ :=
      Derives.upTo inverse (Nat.le_add_right i _) hfound accepts before
    rw [Nat.add_sub_cancel_left, ← take] at derived
    exact derived
  · rename_i outside
    cases h
    refine Derives.unterminated inverse ?_
    intro k lo hi token found
    exact before k lo (by omega) token found

/-! ### Productions and rules -/

theorem matchElement_sound (sound : p.Sound tokens apply) {e : Element} {i : Nat} {o : Outcome}
    (h : outcome? (p.matchElement tokens apply e i) = some o) :
    Derives p tokens (.element e) i o := by
  cases e with
  | reference name optional repeatable => exact matchReference_sound sound h
  | terminal t marked =>
      cases inverse : t.inverse with
      | true =>
          simp only [matchElement, inverse, if_true] at h
          exact matchUntil_sound inverse h
      | false =>
          simp only [matchElement, inverse, Bool.false_eq_true, if_false] at h
          cases h
          exact matchToken_sound inverse marked i

theorem matchProduction_sound (sound : p.Sound tokens apply) :
    ∀ (production : Production) (i : Nat) {o : Outcome},
      outcome? (p.matchProduction tokens apply production i) = some o →
      Derives p tokens (.sequence production) i o := by
  intro production
  induction production with
  | nil => intro i o h; cases h; exact Derives.done
  | cons e rest ih =>
      intro i o h
      rw [matchProduction] at h
      rcases outcome?_bind h with ⟨first, ok, answer⟩ | ⟨start, terminator, rfl, aborted⟩
      · have derived := matchElement_sound sound (outcome?_of_ok ok)
        cases hs : first.segment? with
        | none =>
            rw [hs] at answer
            cases answer
            rw [Attempt.outcome_of_none hs] at derived ⊢
            exact Derives.stuck derived id
        | some s =>
            rw [Attempt.outcome_of_some hs] at derived
            rw [hs] at answer
            rcases outcome?_bind answer with ⟨others, okOthers, joined⟩ | ⟨_, _, rfl, aborted⟩
            · cases joined
              simpa using Derives.next derived (ih s.stop (outcome?_of_ok okOthers))
            · exact Derives.next derived (ih s.stop aborted)
      · exact Derives.stuck (matchElement_sound sound aborted) id

theorem matchAlternatives_sound (sound : p.Sound tokens apply) (label : Nat → String)
    (start : Nat) :
    ∀ (alternatives : List Production) (number : Nat) {o : Outcome},
      outcome? (p.matchAlternatives tokens apply label start number alternatives) = some o →
      Derives p tokens (.alternatives alternatives) start o := by
  intro alternatives
  induction alternatives with
  | nil => intro number o h; cases h; exact Derives.exhausted
  | cons production rest ih =>
      intro number o h
      rw [matchAlternatives, outcome?_note] at h
      rcases outcome?_bind h with ⟨first, ok, answer⟩ | ⟨_, _, rfl, aborted⟩
      · have derived := matchProduction_sound sound production start (outcome?_of_ok ok)
        cases hs : first.segment? with
        | some s =>
            rw [hs] at answer
            cases answer
            rw [Attempt.outcome_of_some hs] at derived ⊢
            exact Derives.taken derived (fun same => by cases same)
        | none =>
            rw [Attempt.outcome_of_none hs] at derived
            rw [hs] at answer
            rcases outcome?_bind answer with ⟨others, okOthers, joined⟩ | ⟨_, _, rfl, aborted⟩
            · have later := Derives.passed derived (ih (number + 1) (outcome?_of_ok okOthers))
              cases joined
              exact later
            · exact Derives.passed derived (ih (number + 1) aborted)
      · exact Derives.taken (matchProduction_sound sound production start aborted)
          (fun same => by cases same)

/-- **Every outcome of the parser is derivable**, however many levels of nesting
are left. -/
theorem applyRule_sound (p : Parser) (tokens : List Token) :
    ∀ levels depth, p.Sound tokens (p.applyRule tokens levels depth) := by
  intro levels
  induction levels with
  | zero => intro depth name i o h; cases h
  | succ levels ih =>
      intro depth name i o h
      rw [applyRule] at h
      cases hr : p.grammar.rule? name with
      | none => rw [hr] at h; cases h
      | some r =>
          rw [hr] at h
          rcases outcome?_bind h with ⟨answer, ok, noted⟩ | ⟨_, _, rfl, aborted⟩
          · rw [outcome?_note] at noted
            cases noted
            exact Derives.rule hr (matchAlternatives_sound (ih (depth + 1)) _ i _ 1
              (outcome?_of_ok ok))
          · exact Derives.rule hr (matchAlternatives_sound (ih (depth + 1)) _ i _ 1 aborted)

/-! ### Terms for answers -/

/-- What the parse of one rule answers with for each outcome: the term, and how
many tokens it consumed. -/
def Reports (tokens : List Token) (name : String) (start : Nat) : Outcome → Term × Nat → Prop
  | .success children stop, (term, consumed) =>
      term = ⟨name, children, none⟩ ∧ start + consumed = stop
  | .failure, (term, consumed) =>
      (∃ frontier, term = mismatchTerm tokens name frontier) ∧ consumed = 0
  | .abort first terminator, (term, consumed) =>
      term = unterminatedTerm tokens name first terminator ∧ consumed = 0

/-- What a parse answers with for each outcome of its root: all tokens must be
consumed, blanks at the end included. -/
def Concludes (p : Parser) (tokens : List Token) : Outcome → Term → Prop
  | .success children stop, term =>
      if p.afterBlanks tokens stop < tokens.length then
        ∃ frontier, term = mismatchTerm tokens p.grammar.root frontier
      else term = ⟨p.grammar.root, children ++ (p.blanksAt tokens stop).map Tree.leaf, none⟩
  | .failure, term => ∃ frontier, term = mismatchTerm tokens p.grammar.root frontier
  | .abort first terminator, term =>
      term = unterminatedTerm tokens p.grammar.root first terminator

/-- The parse of a rule answers with a fault of the rule, or reports its outcome. -/
theorem parseRule_cases (p : Parser) (tokens : List Token) (name : String) (start : Nat) :
    (∃ f, (p.parseRule name tokens start).outcome = .error f ∧
      (p.attempt tokens name start).outcome = .error (.fault f)) ∨
    ∃ answer o, (p.parseRule name tokens start).outcome = .ok answer ∧
      Derives p tokens (.rule name) start o ∧ Reports tokens name start o answer := by
  rw [parseRule, conclude, Traced.outcome_recover]
  have sound := applyRule_sound p tokens (p.maxDepth + 1).toNat 0 name start
  cases hx : (p.attempt tokens name start).outcome with
  | ok a =>
      have derived := sound _ (outcome?_of_ok hx)
      cases hs : a.segment? with
      | none =>
          rw [Attempt.outcome_of_none hs] at derived
          refine Or.inr ⟨(mismatchTerm tokens name a.frontier, 0), _, ?_, derived, ⟨_, rfl⟩, rfl⟩
          simp [hs]
      | some s =>
          rw [Attempt.outcome_of_some hs] at derived
          refine Or.inr ⟨(⟨name, s.children, none⟩, s.stop - start), _, ?_, derived, rfl,
            Nat.add_sub_cancel' derived.le_stop⟩
          simp [hs]
  | error e =>
      cases e with
      | fault f => exact Or.inl ⟨f, rfl, rfl⟩
      | unterminated first terminator =>
          refine Or.inr ⟨(unterminatedTerm tokens name first terminator, 0),
            .abort first terminator, ?_, sound _ ?_, rfl, rfl⟩
          · simp [Traced.outcome_bind, Except.bind]
          · rw [attempt] at hx
            rw [outcome?, hx]

/-- Finishing a parse never fails. -/
theorem finish_concludes (p : Parser) (tokens : List Token) (a : Attempt) :
    ∃ term, (p.finish tokens a).outcome = .ok term ∧ p.Concludes tokens a.outcome term := by
  cases hs : a.segment? with
  | none =>
      rw [Attempt.outcome_of_none hs]
      refine ⟨mismatchTerm tokens p.grammar.root a.frontier, ?_, _, rfl⟩
      simp [finish, hs]
  | some s =>
      rw [Attempt.outcome_of_some hs]
      cases ht : tokens[p.afterBlanks tokens s.stop]? with
      | none =>
          have beyond : ¬ p.afterBlanks tokens s.stop < tokens.length :=
            Nat.not_lt.mpr (List.getElem?_eq_none_iff.mp ht)
          refine ⟨⟨p.grammar.root, s.children ++ (p.blanksAt tokens s.stop).map Tree.leaf, none⟩,
            ?_, ?_⟩
          · simp only [afterBlanks] at ht
            simp [finish, hs, ht]
          · rw [Concludes, if_neg beyond]
      | some token =>
          have inside : p.afterBlanks tokens s.stop < tokens.length :=
            (List.getElem?_eq_some_iff.mp ht).1
          refine ⟨mismatchTerm tokens p.grammar.root
            (a.frontier.join (.reached (p.afterBlanks tokens s.stop) [])), ?_, ?_⟩
          · simp only [afterBlanks] at ht ⊢
            simp [finish, hs, ht, Traced.outcome_bind, Except.bind]
          · rw [Concludes, if_pos inside]
            exact ⟨_, rfl⟩

/-- A parse answers with a fault of its root, or concludes from its outcome. -/
theorem parse_cases (p : Parser) (tokens : List Token) :
    (∃ f, (p.parse tokens).outcome = .error f ∧
      (p.attempt tokens p.grammar.root 0).outcome = .error (.fault f)) ∨
    ∃ term o, (p.parse tokens).outcome = .ok term ∧
      Derives p tokens (.rule p.grammar.root) 0 o ∧ p.Concludes tokens o term := by
  rw [parse, conclude, Traced.outcome_recover]
  have sound := applyRule_sound p tokens (p.maxDepth + 1).toNat 0 p.grammar.root 0
  cases hx : (p.attempt tokens p.grammar.root 0).outcome with
  | ok a =>
      obtain ⟨term, finished, concludes⟩ := p.finish_concludes tokens a
      exact Or.inr ⟨term, a.outcome, finished, sound _ (outcome?_of_ok hx), concludes⟩
  | error e =>
      cases e with
      | fault f => exact Or.inl ⟨f, rfl, rfl⟩
      | unterminated first terminator =>
          refine Or.inr ⟨unterminatedTerm tokens p.grammar.root first terminator,
            .abort first terminator, ?_, sound _ ?_, rfl⟩
          · simp [Traced.outcome_bind, Except.bind]
          · rw [attempt] at hx
            rw [outcome?, hx]

end GrammarKit.Parser
