import GrammarKit.Calculator.Evaluation
import GrammarKit.Proofs.Adequacy
import Mathlib.Order.Bounds.Basic

/-!
# Syntax errors report the furthest failure

While a parse goes on, terminals are tried in vain all the time: in alternatives
that are given up, in optional parts, in the last round of a repetition.  Each
such try is an **event**, and the frontier of an answer is the summary of all
events of its run: the furthest index, with the terminals tried there.

## Main Definitions

* `Parser.Tried` — the events of the run of a goal
* `Frontier.Records` — a frontier that sums up some events

## Main Statements

* `Frontier.Records.join` — joining frontiers sums up the events of both
* `Parser.applyRule_records` — the frontier of a rule sums up its events
* `Parser.Derives.exists_tried` — what fails has an event
* `Parser.parse_reports_furthest` — a syntax error is at the furthest event, or at
  the input left over if that is further

## Design Notes

Events follow the outcomes of the declarative semantics: the elements behind one
that fails are not tried, nor the alternatives behind one that succeeds.  That
the parser loses no event is then a statement about each of its parts, given that
the rules they apply lose none.
-/

namespace GrammarKit

/-! ### Sorted sets -/

namespace Text

/-- Insertion keeps a list sorted. -/
theorem pairwise_insertSorted {s : String} {l : List String} (h : l.Pairwise (· < ·)) :
    (insertSorted s l).Pairwise (· < ·) := by
  induction l with
  | nil => exact List.pairwise_singleton _ _
  | cons t rest ih =>
      obtain ⟨least, sorted⟩ := List.pairwise_cons.mp h
      rw [insertSorted]
      split
      · rename_i before
        refine List.pairwise_cons.mpr ⟨fun x mem => ?_, h⟩
        rcases List.mem_cons.mp mem with rfl | later
        · exact before
        · exact String.lt_trans before (least x later)
      · rename_i notBefore
        split
        · exact h
        · rename_i different
          refine List.pairwise_cons.mpr ⟨fun x mem => ?_, ih sorted⟩
          rcases mem_insertSorted.mp mem with rfl | later
          · exact Std.lt_of_le_of_ne (String.not_lt.mp notBefore) (Ne.symm different)
          · exact least x later

/-- A sorted set is strictly sorted. -/
theorem pairwise_sortedSet (l : List String) : (sortedSet l).Pairwise (· < ·) := by
  induction l with
  | nil => exact List.Pairwise.nil
  | cons s rest ih => exact pairwise_insertSorted ih

end Text

/-! ### Frontiers and events -/

/-- **A frontier sums up events**: it is the furthest index of any of them, with
exactly the terminals of the events there. -/
def Frontier.Records (tried : Nat → Terminal → Prop) : Frontier → Prop
  | .unreached => ∀ k t, ¬ tried k t
  | .reached k terminals =>
      (∀ t, t ∈ terminals ↔ tried k t) ∧ (∃ t, tried k t) ∧ ∀ j t, tried j t → j ≤ k

namespace Frontier

variable {tried tried' : Nat → Terminal → Prop} {f g : Frontier}

theorem mem_pool {t : Terminal} {known more : List Terminal} :
    t ∈ pool known more ↔ t ∈ known ∨ t ∈ more := by
  rw [pool, List.mem_append, List.mem_filter]
  by_cases h : t ∈ known
  · simp [h]
  · simp [h]

theorem Records.congr (h : f.Records tried) (same : ∀ k t, tried k t ↔ tried' k t) :
    f.Records tried' := by
  have equal : tried = tried' := by
    funext k t
    exact propext (same k t)
  rwa [equal] at h

/-- **Joining frontiers sums up the events of both.** -/
theorem Records.join (hf : f.Records tried) (hg : g.Records tried') :
    (f.join g).Records fun k t => tried k t ∨ tried' k t := by
  cases f with
  | unreached =>
      rw [unreached_join]
      refine hg.congr fun k t => ?_
      simp [hf k t]
  | reached i ts =>
      cases g with
      | unreached =>
          rw [join_unreached]
          refine hf.congr fun k t => ?_
          simp [hg k t]
      | reached j us =>
          obtain ⟨here, attained, furthest⟩ := hf
          obtain ⟨here', attained', furthest'⟩ := hg
          rw [Frontier.join]
          split
          · rename_i further
            refine ⟨fun t => ?_, attained'.imp fun _ => Or.inr, ?_⟩
            · have none : ¬ tried j t := fun h => by
                have le := furthest j t h
                omega
              simp [none, here']
            · rintro k t (h | h)
              · have le := furthest k t h
                omega
              · exact furthest' k t h
          · split
            · rename_i further
              refine ⟨fun t => ?_, attained.imp fun _ => Or.inl, ?_⟩
              · have none : ¬ tried' i t := fun h => by
                  have le := furthest' i t h
                  omega
                simp [none, here]
              · rintro k t (h | h)
                · exact furthest k t h
                · have le := furthest' k t h
                  omega
            · obtain rfl : i = j := by omega
              refine ⟨fun t => ?_, attained.imp fun _ => Or.inl, ?_⟩
              · rw [mem_pool, here, here']
              · rintro k t (h | h)
                · exact furthest k t h
                · exact furthest' k t h

/-- Input that is left over at an index: the frontier goes there, unless an event
is further on. -/
theorem Records.leftover (h : f.Records tried) (stop : Nat) :
    ∃ k terminals, f.join (.reached stop []) = .reached k terminals ∧
      (∀ t, t ∈ terminals ↔ tried k t) ∧
      IsGreatest (insert stop {j | ∃ t, tried j t}) k := by
  cases f with
  | unreached =>
      refine ⟨stop, [], rfl, fun t => by simp [h stop t], Set.mem_insert _ _, ?_⟩
      rintro j (rfl | ⟨t, event⟩)
      · exact Nat.le_refl _
      · exact (h j t event).elim
  | reached i ts =>
      obtain ⟨here, attained, furthest⟩ := h
      rw [Frontier.join]
      split
      · rename_i further
        refine ⟨stop, [], rfl, fun t => ?_, Set.mem_insert _ _, ?_⟩
        · have none : ¬ tried stop t := fun event => by
            have le := furthest stop t event
            omega
          simp [none]
        · rintro j (rfl | ⟨t, event⟩)
          · exact Nat.le_refl _
          · have le := furthest j t event
            omega
      · have behind : stop ≤ i := by omega
        have greatest : IsGreatest (insert stop {j | ∃ t, tried j t}) i := by
          refine ⟨Set.mem_insert_of_mem _ attained, ?_⟩
          rintro j (rfl | ⟨t, event⟩)
          · exact behind
          · exact furthest j t event
        split
        · exact ⟨i, ts, rfl, here, greatest⟩
        · exact ⟨i, pool ts [], rfl, fun t => by simp [mem_pool, here], greatest⟩

end Frontier

/-! ### The events of a run -/

namespace Parser

/-- **The events of a run**: from an index on, a goal tries a terminal in vain at a
further index. -/
inductive Tried (p : Parser) (tokens : List Token) : Goal → Nat → Nat → Terminal → Prop where
  | rule {name : String} {r : Rule} {i k : Nat} {t : Terminal} :
      p.grammar.rule? name = some r → Tried p tokens (.alternatives r.alternatives) i k t →
      Tried p tokens (.rule name) i k t
  | first {production : Production} {rest : List Production} {i k : Nat} {t : Terminal} :
      Tried p tokens (.sequence production) i k t →
      Tried p tokens (.alternatives (production :: rest)) i k t
  /-- The next alternative is tried after one that fails. -/
  | other {production : Production} {rest : List Production} {i k : Nat} {t : Terminal} :
      Derives p tokens (.sequence production) i .failure →
      Tried p tokens (.alternatives rest) i k t →
      Tried p tokens (.alternatives (production :: rest)) i k t
  | head {e : Element} {rest : Production} {i k : Nat} {t : Terminal} :
      Tried p tokens (.element e) i k t → Tried p tokens (.sequence (e :: rest)) i k t
  /-- The next element is tried after one that succeeds. -/
  | tail {e : Element} {rest : Production} {i j k : Nat} {t : Terminal} {children : List Tree} :
      Derives p tokens (.element e) i (.success children j) →
      Tried p tokens (.sequence rest) j k t → Tried p tokens (.sequence (e :: rest)) i k t
  | once {name : String} {i k : Nat} {t : Terminal} :
      Tried p tokens (.rule name) (p.afterBlanks tokens i) k t → Tried p tokens (.once name) i k t
  | single {name : String} {optional : Bool} {i k : Nat} {t : Terminal} :
      Tried p tokens (.once name) i k t →
      Tried p tokens (.element (.reference name optional false)) i k t
  | repeated {name : String} {marked : Bool} {i k : Nat} {t : Terminal} :
      Tried p tokens (.many name) i k t →
      Tried p tokens (.element (.reference name marked true)) i k t
  | round {name : String} {i k : Nat} {t : Terminal} :
      Tried p tokens (.once name) i k t → Tried p tokens (.many name) i k t
  /-- The next round is tried after one that consumed a token. -/
  | again {name : String} {i j k : Nat} {t : Terminal} {children : List Tree} :
      Derives p tokens (.once name) i (.success children j) → p.afterBlanks tokens i < j →
      Tried p tokens (.many name) j k t → Tried p tokens (.many name) i k t
  /-- A terminal, optional or not, that does not accept the token behind the blanks. -/
  | mismatch {t : Terminal} {marked : Bool} {i : Nat} :
      t.inverse = false →
      (∀ found, tokens[p.afterBlanks tokens i]? = some found → t.accepts found = false) →
      Tried p tokens (.element (.terminal t marked)) i (p.afterBlanks tokens i) t

variable {p : Parser} {tokens : List Token} {apply : Apply}

namespace Tried

/-- Events are inside the tokens or right behind them. -/
theorem index_le {goal : Goal} {i k : Nat} {t : Terminal} (h : Tried p tokens goal i k t) :
    i ≤ tokens.length → k ≤ tokens.length := by
  have skip : ∀ i, i ≤ tokens.length → p.afterBlanks tokens i ≤ tokens.length := by
    intro i le
    have bound := @afterBlanks_le p tokens i
    have start := le_afterBlanks p tokens i
    omega
  induction h with
  | rule _ _ ih => exact ih
  | first _ ih => exact ih
  | other _ _ ih => exact ih
  | head _ ih => exact ih
  | tail derived _ ih =>
      intro le
      have lo := derived.le_stop
      have hi := derived.stop_le
      exact ih (by omega)
  | once _ ih => exact fun le => ih (skip _ le)
  | single _ ih => exact ih
  | repeated _ ih => exact ih
  | round _ ih => exact ih
  | again derived _ _ ih =>
      intro le
      have lo := derived.le_stop
      have hi := derived.stop_le
      exact ih (by omega)
  | mismatch _ _ => exact skip _

/-- Where blanks are skipped, no event is at a blank. -/
theorem not_isBlank {goal : Goal} {i k : Nat} {t : Terminal} {token : Token}
    (h : Tried p tokens goal i k t) (skips : p.skipBlanks = true) (found : tokens[k]? = some token) :
    token.isBlank p.blankTypes = false := by
  induction h with
  | rule _ _ ih => exact ih found
  | first _ ih => exact ih found
  | other _ _ ih => exact ih found
  | head _ ih => exact ih found
  | tail _ _ ih => exact ih found
  | once _ ih => exact ih found
  | single _ ih => exact ih found
  | repeated _ ih => exact ih found
  | round _ ih => exact ih found
  | again _ _ _ ih => exact ih found
  | mismatch _ _ => exact not_isBlank_afterBlanks skips found

end Tried

/-- **What fails has an event**: some terminal was tried in vain. -/
theorem Derives.exists_tried {goal : Goal} {i : Nat} {o : Outcome}
    (h : Derives p tokens goal i o) :
    o = .failure → goal ≠ .alternatives [] → ∃ k t, Tried p tokens goal i k t := by
  induction h with
  | @rule name r i o hr _ ih =>
      intro fails _
      obtain ⟨k, t, event⟩ := ih fails fun empty => r.valid.2.1 (Goal.alternatives.inj empty)
      exact ⟨k, t, .rule hr event⟩
  | exhausted => exact fun _ nonempty => (nonempty rfl).elim
  | taken _ decides _ => exact fun fails _ => (decides fails).elim
  | @passed production rest i o fails others ihFirst _ =>
      -- the alternative that was passed has an event already, if it is not empty
      intro _ _
      obtain ⟨k, t, event⟩ := ihFirst rfl nofun
      exact ⟨k, t, .first event⟩
  | done => exact fun fails => nomatch fails
  | @next e rest i j children o first others _ ihRest =>
      intro fails _
      cases o with
      | failure =>
          obtain ⟨k, t, event⟩ := ihRest rfl nofun
          exact ⟨k, t, .tail first event⟩
      | success more stop => cases fails
      | abort start terminator => cases fails
  | stuck _ _ ih =>
      intro fails _
      obtain ⟨k, t, event⟩ := ih fails nofun
      exact ⟨k, t, .head event⟩
  | once _ ih =>
      intro fails _
      obtain ⟨k, t, event⟩ := ih (Outcome.node_eq_failure.mp fails) nofun
      exact ⟨k, t, .once event⟩
  | plain _ ih =>
      intro fails _
      obtain ⟨k, t, event⟩ := ih fails nofun
      exact ⟨k, t, .single event⟩
  | @optional name i o _ _ =>
      intro fails _
      cases o <;> cases fails
  | repeatable _ ih =>
      intro fails _
      obtain ⟨k, t, event⟩ := ih fails nofun
      exact ⟨k, t, .repeated event⟩
  | @again name i j children o _ _ _ _ ihRest =>
      intro fails _
      cases o with
      | failure =>
          obtain ⟨k, t, event⟩ := ihRest rfl nofun
          exact ⟨k, t, .again ‹_› ‹_› event⟩
      | success more stop => cases fails
      | abort start terminator => cases fails
  | last _ _ => exact fun fails => nomatch fails
  | @ended name i o _ _ _ =>
      intro fails _
      cases o <;> cases fails
  | mismatch direct absent => exact fun _ _ => ⟨_, _, .mismatch direct absent⟩
  | token _ _ _ => exact fun fails => nomatch fails
  | upTo _ _ _ _ _ => exact fun fails => nomatch fails
  | unterminated _ _ => exact fun fails => nomatch fails

/-! ### The frontier of each part -/

/-- The frontier of an answer sums up the events of a goal. -/
def Records (p : Parser) (tokens : List Token) (goal : Goal) (i : Nat)
    (x : Traced Interrupt Attempt) : Prop :=
  ∀ a, x.outcome = .ok a → a.frontier.Records (Tried p tokens goal i)

section Parts

variable (sound : p.Sound tokens apply)
  (records : ∀ name i, p.Records tokens (.rule name) i (apply name i))

include records in
theorem matchOnce_records (name : String) (i : Nat) :
    p.Records tokens (.once name) i (p.matchOnce tokens apply name i) := by
  intro a h
  rw [matchOnce, Traced.outcome_bind_eq_ok] at h
  obtain ⟨inner, ok, h⟩ := h
  cases h
  refine (records name _ inner ok).congr fun k t => ⟨.once, fun event => ?_⟩
  cases event with
  | once inside => exact inside

include sound records in
theorem matchMany_records (name : String) (i : Nat) :
    p.Records tokens (.many name) i (p.matchMany tokens apply name i) := by
  intro a h
  rw [matchMany, Traced.outcome_bind_eq_ok] at h
  obtain ⟨round, ok, h⟩ := h
  have here := matchOnce_records records name i round ok
  have derived := matchOnce_sound sound (outcome?_of_ok ok)
  -- without a round that moved on, the events of the first round are all
  have alone : (∀ children j, round.outcome = .success children j →
      ¬ p.afterBlanks tokens i < j) → round.frontier.Records (Tried p tokens (.many name) i) := by
    intro still
    refine here.congr fun k t => ⟨.round, fun event => ?_⟩
    cases event with
    | round inside => exact inside
    | again first moved _ => exact (still _ _ (derived.deterministic first) moved).elim
  cases hs : round.segment? with
  | none =>
      rw [hs] at h
      cases h
      refine alone fun children j same => ?_
      rw [Attempt.outcome_of_none hs] at same
      cases same
  | some s =>
      rw [Attempt.outcome_of_some hs] at derived
      simp only [hs] at h
      split at h
      · rename_i moved
        rw [Traced.outcome_bind_eq_ok] at h
        obtain ⟨more, okMore, h⟩ := h
        cases h
        have rest := matchMany_records name s.stop more okMore
        refine (here.join rest).congr fun k t => ⟨?_, fun event => ?_⟩
        · rintro (event | event)
          · exact .round event
          · exact .again derived moved.1 event
        · cases event with
          | round inside => exact Or.inl inside
          | again first _ inside =>
              cases derived.deterministic first
              exact Or.inr inside
      · rename_i still
        cases h
        refine alone fun children j same => ?_
        rw [Attempt.outcome_of_some hs] at same
        cases same
        have inside := derived.stop_le
        have start := le_afterBlanks p tokens i
        unfold afterBlanks at *
        omega
termination_by tokens.length - i
decreasing_by omega

theorem matchToken_records {t : Terminal} (direct : t.inverse = false) (marked : Bool) (i : Nat) :
    (p.matchToken tokens t i).frontier.Records
      (Tried p tokens (.element (.terminal t marked)) i) := by
  have failed : (∀ found, tokens[p.afterBlanks tokens i]? = some found → t.accepts found = false) →
      (Frontier.reached (p.afterBlanks tokens i) [t]).Records
        (Tried p tokens (.element (.terminal t marked)) i) := by
    intro absent
    refine ⟨fun other => ⟨fun mem => ?_, fun event => ?_⟩, ⟨t, .mismatch direct absent⟩, ?_⟩
    · rw [List.mem_singleton.mp mem]
      exact .mismatch direct absent
    · cases event with
      | mismatch _ _ => exact List.mem_singleton.mpr rfl
    · intro j other event
      cases event with
      | mismatch _ _ => exact Nat.le_refl _
  unfold matchToken
  simp only
  split
  · rename_i found stands
    split
    · rename_i accepted
      intro k other event
      cases event with
      | mismatch _ absent =>
          rw [absent found stands] at accepted
          cases accepted
    · rename_i rejected
      refine failed fun other same => ?_
      rw [afterBlanks, stands] at same
      cases same
      exact Bool.eq_false_iff.mpr rejected
  · rename_i none
    refine failed fun other same => ?_
    rw [afterBlanks, none] at same
    cases same

include sound records in
theorem matchElement_records (e : Element) (i : Nat) :
    p.Records tokens (.element e) i (p.matchElement tokens apply e i) := by
  intro a h
  cases e with
  | reference name optional repeatable =>
      cases repeatable with
      | true =>
          simp only [matchElement, matchReference, if_true] at h
          refine (matchMany_records sound records name i a h).congr fun k t =>
            ⟨.repeated, fun event => ?_⟩
          cases event with
          | repeated inside => exact inside
      | false =>
          simp only [matchElement, matchReference, Bool.false_eq_true, if_false] at h
          rw [Traced.outcome_bind_eq_ok] at h
          obtain ⟨round, ok, h⟩ := h
          have same : a.frontier = round.frontier := by
            cases optional <;> cases h <;> rfl
          rw [same]
          refine (matchOnce_records records name i round ok).congr fun k t =>
            ⟨.single, fun event => ?_⟩
          cases event with
          | single inside => exact inside
  | terminal t marked =>
      cases inverse : t.inverse with
      | true =>
          have unreached : a.frontier = .unreached := by
            simp only [matchElement, inverse, if_true, matchUntil] at h
            split at h
            · cases h
              rfl
            · cases h
          rw [unreached]
          intro k other event
          cases event with
          | mismatch direct _ =>
              rw [inverse] at direct
              cases direct
      | false =>
          simp only [matchElement, inverse, Bool.false_eq_true, if_false] at h
          cases h
          have records := @matchToken_records p tokens t inverse marked i
          cases marked <;> exact records

include sound records in
theorem matchProduction_records :
    ∀ (production : Production) (i : Nat),
      p.Records tokens (.sequence production) i (p.matchProduction tokens apply production i) := by
  intro production
  induction production with
  | nil =>
      intro i a h
      cases h
      intro k t event
      cases event
  | cons e rest ih =>
      intro i a h
      rw [matchProduction, Traced.outcome_bind_eq_ok] at h
      obtain ⟨first, ok, h⟩ := h
      have here := matchElement_records sound records e i first ok
      have derived := matchElement_sound sound (outcome?_of_ok ok)
      cases hs : first.segment? with
      | none =>
          rw [hs] at h
          cases h
          rw [Attempt.outcome_of_none hs] at derived
          refine here.congr fun k t => ⟨.head, fun event => ?_⟩
          cases event with
          | head inside => exact inside
          | tail success _ => cases derived.deterministic success
      | some s =>
          rw [Attempt.outcome_of_some hs] at derived
          simp only [hs] at h
          rw [Traced.outcome_bind_eq_ok] at h
          obtain ⟨others, okOthers, h⟩ := h
          cases h
          refine (here.join (ih s.stop others okOthers)).congr fun k t => ⟨?_, fun event => ?_⟩
          · rintro (event | event)
            · exact .head event
            · exact .tail derived event
          · cases event with
            | head inside => exact Or.inl inside
            | tail success inside =>
                cases derived.deterministic success
                exact Or.inr inside

include sound records in
theorem matchAlternatives_records (label : Nat → String) (start : Nat) :
    ∀ (alternatives : List Production) (number : Nat),
      p.Records tokens (.alternatives alternatives) start
        (p.matchAlternatives tokens apply label start number alternatives) := by
  intro alternatives
  induction alternatives with
  | nil =>
      intro number a h
      cases h
      intro k t event
      cases event
  | cons production rest ih =>
      intro number a h
      rw [matchAlternatives, Traced.outcome_bind_eq_ok] at h
      obtain ⟨-, -, h⟩ := h
      rw [Traced.outcome_bind_eq_ok] at h
      obtain ⟨first, ok, h⟩ := h
      have here := matchProduction_records sound records production start first ok
      have derived := matchProduction_sound sound production start (outcome?_of_ok ok)
      cases hs : first.segment? with
      | some s =>
          rw [hs] at h
          cases h
          rw [Attempt.outcome_of_some hs] at derived
          refine here.congr fun k t => ⟨.first, fun event => ?_⟩
          cases event with
          | first inside => exact inside
          | other failure _ => cases derived.deterministic failure
      | none =>
          rw [Attempt.outcome_of_none hs] at derived
          simp only [hs] at h
          rw [Traced.outcome_bind_eq_ok] at h
          obtain ⟨others, okOthers, h⟩ := h
          cases h
          refine (here.join (ih (number + 1) others okOthers)).congr fun k t =>
            ⟨?_, fun event => ?_⟩
          · rintro (event | event)
            · exact .first event
            · exact .other derived event
          · cases event with
            | first inside => exact Or.inl inside
            | other _ inside => exact Or.inr inside

end Parts

/-- **The frontier of a rule sums up its events**, however many levels are left. -/
theorem applyRule_records (p : Parser) (tokens : List Token) :
    ∀ levels depth name i,
      p.Records tokens (.rule name) i (p.applyRule tokens levels depth name i) := by
  intro levels
  induction levels with
  | zero =>
      intro depth name i a h
      cases h
  | succ levels ih =>
      intro depth name i a h
      rw [applyRule] at h
      cases hr : p.grammar.rule? name with
      | none =>
          rw [hr] at h
          cases h
      | some r =>
          simp only [hr] at h
          rw [Traced.outcome_bind_eq_ok] at h
          obtain ⟨answer, ok, h⟩ := h
          rw [Traced.outcome_bind_eq_ok] at h
          obtain ⟨-, -, h⟩ := h
          cases h
          have inside := matchAlternatives_records (applyRule_sound p tokens levels (depth + 1))
            (ih (depth + 1)) _ i _ 1 _ ok
          refine inside.congr fun k t => ⟨.rule hr, fun event => ?_⟩
          cases event with
          | rule hr' event =>
              rw [hr] at hr'
              cases hr'
              exact event

/-! ### What a parse reports -/

/-- A syntax error comes from a root that failed, or from input left over. -/
theorem mismatch_cases {term : Term} {failure : Failure}
    (h : (p.parse tokens).outcome = .ok term) (failed : term.failure = some failure)
    (mismatch : failure.kind = .mismatch) :
    ∃ a, (p.attempt tokens p.grammar.root 0).outcome = .ok a ∧
      (a.segment? = none ∧ term = mismatchTerm tokens p.grammar.root a.frontier ∨
        ∃ s, a.segment? = some s ∧ p.afterBlanks tokens s.stop < tokens.length ∧
          term = mismatchTerm tokens p.grammar.root
            (a.frontier.join (.reached (p.afterBlanks tokens s.stop) []))) := by
  rw [parse, conclude, Traced.outcome_recover] at h
  cases hx : (p.attempt tokens p.grammar.root 0).outcome with
  | error e =>
      rw [hx] at h
      cases e with
      | fault f => cases h
      | unterminated start terminator =>
          cases h
          cases failed
          cases mismatch
  | ok a =>
      rw [hx] at h
      refine ⟨a, rfl, ?_⟩
      simp only [finish] at h
      cases hs : a.segment? with
      | none =>
          simp only [hs] at h
          cases h
          exact Or.inl ⟨rfl, rfl⟩
      | some s =>
          simp only [hs] at h
          cases ht : tokens[p.afterBlanks tokens s.stop]? with
          | none =>
              simp only [afterBlanks] at ht
              simp only [ht] at h
              cases h
              cases failed
          | some token =>
              have inside := (List.getElem?_eq_some_iff.mp ht).1
              simp only [afterBlanks] at ht
              simp only [ht] at h
              rw [Traced.outcome_bind_eq_ok] at h
              obtain ⟨-, -, h⟩ := h
              cases h
              exact Or.inr ⟨s, rfl, inside, rfl⟩

/-- The indices of all events of a parse. -/
def triedIndices (p : Parser) (tokens : List Token) : Set Nat :=
  {k | ∃ t, Tried p tokens (.rule p.grammar.root) 0 k t}

/-- What the failure of a mismatch reports, if the frontier is at an index and has
the terminals of the events there. -/
theorem mem_expected_iff {frontier : Frontier} {k : Nat} {terminals : List Terminal}
    {tried : Nat → Terminal → Prop} (reached : frontier = .reached k terminals)
    (here : ∀ t, t ∈ terminals ↔ tried k t) (s : String) :
    s ∈ frontier.expected ↔ ∃ t, tried k t ∧ t.render = s := by
  subst reached
  simp only [Frontier.expected, Frontier.terminals, Text.mem_sortedSet, List.mem_map, here]

/-- **A syntax error reports the furthest failure.**  It is at the greatest index of
any event of the parse if the root failed, and there are events then; if the root
succeeded and left input over, it is at the greatest of those indices and the
first one left over.  Expected are the terminals of the events at that index, in
order and each once.  Where blanks are skipped, it is never at a blank. -/
theorem parse_reports_furthest (p : Parser) (tokens : List Token) (term : Term)
    (failure : Failure) (h : (p.parse tokens).outcome = .ok term)
    (failed : term.failure = some failure) (mismatch : failure.kind = .mismatch) :
    ∃ k, k ≤ tokens.length ∧ failure.token? = tokens[k]? ∧
      failure.expected.Pairwise (· < ·) ∧
      (∀ s, s ∈ failure.expected ↔
        ∃ t, Tried p tokens (.rule p.grammar.root) 0 k t ∧ t.render = s) ∧
      (Derives p tokens (.rule p.grammar.root) 0 .failure ∧
          IsGreatest (p.triedIndices tokens) k ∧ failure.expected ≠ [] ∨
        ∃ children stop, Derives p tokens (.rule p.grammar.root) 0 (.success children stop) ∧
          p.afterBlanks tokens stop < tokens.length ∧
          IsGreatest (insert (p.afterBlanks tokens stop) (p.triedIndices tokens)) k) ∧
      (p.skipBlanks = true → ∀ token, failure.token? = some token →
        token.isBlank p.blankTypes = false) := by
  obtain ⟨a, answered, cases⟩ := mismatch_cases h failed mismatch
  have records := applyRule_records p tokens _ 0 p.grammar.root 0 a answered
  have derived := applyRule_sound p tokens _ 0 p.grammar.root 0 _ (outcome?_of_ok answered)
  rcases cases with ⟨noSegment, rfl⟩ | ⟨s, segment, leftOver, rfl⟩
  · cases failed
    rw [Attempt.outcome_of_none noSegment] at derived
    obtain ⟨j, t, event⟩ := derived.exists_tried rfl nofun
    cases hf : a.frontier with
    | unreached =>
        rw [hf] at records
        exact (records j t event).elim
    | reached k terminals =>
        rw [hf] at records
        obtain ⟨here, ⟨first, eventHere⟩, furthest⟩ := records
        have expected := @mem_expected_iff _ k terminals _ rfl here
        refine ⟨k, eventHere.index_le (Nat.zero_le _), rfl, Text.pairwise_sortedSet _, expected,
          Or.inl ⟨derived, ⟨⟨first, eventHere⟩, ?_⟩, ?_⟩, ?_⟩
        · rintro j ⟨t, event⟩
          exact furthest j t event
        · exact List.ne_nil_of_mem ((expected _).mpr ⟨first, eventHere, rfl⟩)
        · exact fun skips token found => eventHere.not_isBlank skips found
  · cases failed
    rw [Attempt.outcome_of_some segment] at derived
    obtain ⟨k, terminals, hf, here, greatest⟩ := records.leftover (p.afterBlanks tokens s.stop)
    have expected := mem_expected_iff hf here
    rw [hf] at expected ⊢
    refine ⟨k, ?_, rfl, Text.pairwise_sortedSet _, expected,
      Or.inr ⟨_, _, derived, leftOver, greatest⟩, ?_⟩
    · rcases greatest.1 with rfl | ⟨t, event⟩
      · exact Nat.le_of_lt leftOver
      · exact event.index_le (Nat.zero_le _)
    · intro skips token found
      rcases greatest.1 with rfl | ⟨t, event⟩
      · exact not_isBlank_afterBlanks skips found
      · exact event.not_isBlank skips found

/-- A number with a word behind it: the root succeeds with the number, and the error
is at the word, where an operator could have stood. -/
theorem parse_reports_furthest_word :
    ∃ term failure, (Calculator.language.parser.parse (Profile.canonical.tokens "1 x")).outcome =
        .ok term ∧
      term.failure = some failure ∧ failure.kind = .mismatch ∧
      ∃ k, k ≤ 3 ∧ failure.token? = (Profile.canonical.tokens "1 x")[k]? ∧
        ∀ s, s ∈ failure.expected ↔ ∃ t, Tried Calculator.language.parser
          (Profile.canonical.tokens "1 x") (.rule "calc") 0 k t ∧ t.render = s := by
  have kinds : (Calculator.language.parser.parse
      (Profile.canonical.tokens "1 x")).outcome.toOption.map
        (fun term => term.failure.map Failure.kind) = some (some .mismatch) := by
    decide +kernel
  cases parsed : (Calculator.language.parser.parse (Profile.canonical.tokens "1 x")).outcome with
  | error e => simp [parsed, Except.toOption] at kinds
  | ok term =>
      obtain ⟨failure, failed, kind⟩ : ∃ failure, term.failure = some failure ∧
          failure.kind = .mismatch := by
        simpa [parsed, Except.toOption] using kinds
      obtain ⟨k, le, here, -, expected, -⟩ :=
        parse_reports_furthest _ _ term failure parsed failed kind
      exact ⟨term, failure, rfl, failed, kind, k, le, here, expected⟩

end Parser

end GrammarKit
