import GrammarKit.Proofs.Acceptance
import GrammarKit.Proofs.ParseTrees
import GrammarKit.Proofs.Recognition

/-!
# Nullable rules are those that match nothing

The nullable names are found from the rules alone, before any token is seen.  Here
they are tied to what the parser does, in both directions: a rule that matches
without consuming a token is nullable, whatever the tokens are, and on no tokens at
all the nullable rules are the ones that match.

## Main Statements

* `Parser.Derives.not_nullable` — what fails on no tokens is not nullable
* `Parser.Derives.ne_abort` — without consume-until terminals nothing is aborted
* `Parser.parseRule_nullable` — the nullable names and the parses of single rules

## Design Notes

That a nullable rule matches is shown through failures.  Which alternative a choice
takes depends on all those before it, but a failure says the same of every one of
them: it has an element that is not nullable.  So no choice has to be followed, and
what is tried before the nullable alternative cannot spoil it.
-/

namespace GrammarKit

namespace Grammar

variable {g : Grammar}

/-- A rule is declared under its own name. -/
theorem rule?_of_mem {r : Rule} (mem : r ∈ g.rules) : g.rule? r.name = some r :=
  find?_name_of_mem (findDefect?_eq_none_iff.mp g.sound).1 mem

/-- The rule of a nullable name has an alternative with nullable elements only. -/
theorem exists_of_mem_nullable {name : String} (h : name ∈ g.nullable) :
    ∃ r, g.rule? name = some r ∧ ∃ production ∈ r.alternatives,
      ∀ e ∈ production, e.nullable g.nullable = true := by
  obtain ⟨r, isRule, rfl, production, isAlternative, all⟩ := mem_nullableNames_iff.mp h
  exact ⟨r, rule?_of_mem isRule, production, isAlternative, fun e mem =>
    Element.nullable_iff_vanishes.mpr (all e mem)⟩

end Grammar

namespace Parser

variable {p : Parser} {tokens : List Token} {goal : Goal} {i : Nat} {o : Outcome}

/-! ### No tokens -/

/-- On no tokens a success ends where it starts. -/
theorem Derives.stop_eq {children : List Tree} {j : Nat}
    (h : Derives p [] goal i (.success children j)) : j = i := by
  have bounds := h.stop_bounds rfl
  simp only [List.length_nil] at bounds
  omega

/-- **What fails on no tokens is not nullable.** -/
theorem Derives.not_nullable (h : Derives p [] goal i o) :
    o = .failure → ¬ goal.Nullable p.grammar := by
  induction h with
  | rule hr _ ih =>
      intro failed known
      obtain ⟨r, found, nullable⟩ := Grammar.exists_of_mem_nullable known
      rw [hr] at found
      cases found
      exact ih failed nullable
  | exhausted =>
      rintro - ⟨production, mem, -⟩
      cases mem
  | taken _ decides _ => intro failed; exact (decides failed).elim
  | passed _ _ ihFirst ihRest =>
      rintro failed ⟨production, mem, all⟩
      rcases List.mem_cons.mp mem with rfl | later
      · exact ihFirst rfl all
      · exact ihRest failed ⟨production, later, all⟩
  | done => intro failed; cases failed
  | next _ _ _ ihRest =>
      intro failed all
      exact ihRest (Outcome.after_eq_failure.mp failed) fun e mem =>
        all e (List.mem_cons_of_mem _ mem)
  | stuck _ _ ih => intro failed all; exact ih failed (all _ List.mem_cons_self)
  | once _ ih => intro failed; exact ih (Outcome.node_eq_failure.mp failed)
  | plain _ ih =>
      intro failed nullable
      exact ih failed (by simpa [Goal.Nullable, Element.nullable] using nullable)
  | optional _ _ => intro failed; exact (Outcome.orStay_ne_failure _ _ failed).elim
  | repeatable _ ih => intro failed; exact (ih failed trivial).elim
  | again _ _ _ _ ihRest =>
      -- a repetition is nullable, so none of its rounds can have made it fail
      intro failed
      exact (ihRest (Outcome.after_eq_failure.mp failed) trivial).elim
  | last _ _ => intro failed; cases failed
  | ended _ _ _ => intro failed; exact (Outcome.orStay_ne_failure _ _ failed).elim
  | token _ _ _ => intro failed; cases failed
  | @mismatch t marked _ direct _ =>
      intro failed nullable
      cases marked with
      | true => cases failed
      | false => simp [Goal.Nullable, Element.nullable, direct] at nullable
  | upTo _ _ _ _ _ => intro failed; cases failed
  | unterminated _ _ => intro failed; cases failed

/-! ### No terminator to miss -/

/-- **Without consume-until terminals nothing is aborted.** -/
theorem Derives.ne_abort (h : Derives p tokens goal i o) (untilFree : p.grammar.UntilFree)
    {start : Nat} {terminator : Terminal} :
    goal.Within p.grammar → o ≠ .abort start terminator := by
  induction h with
  | @rule name r _ _ hr _ ih =>
      intro _
      exact ih fun production isAlternative e mem =>
        ⟨r, Grammar.mem_rules_of_rule? hr, production, isAlternative, mem⟩
  | exhausted => intro _ aborted; cases aborted
  | taken _ _ ih => intro within; exact ih (within _ List.mem_cons_self)
  | passed _ _ _ ih =>
      intro within
      exact ih fun production mem => within production (List.mem_cons_of_mem _ mem)
  | done => intro _ aborted; cases aborted
  | next _ _ _ ihRest =>
      intro within aborted
      exact ihRest (fun e mem => within e (List.mem_cons_of_mem _ mem))
        (Outcome.after_eq_abort.mp aborted)
  | stuck _ _ ih => intro within; exact ih (within _ List.mem_cons_self)
  | once _ ih => intro _ aborted; exact ih trivial (Outcome.node_eq_abort.mp aborted)
  | plain _ ih => intro _; exact ih trivial
  | optional _ ih => intro _ aborted; exact ih trivial (Outcome.orStay_eq_abort.mp aborted)
  | repeatable _ ih => intro _; exact ih trivial
  | again _ _ _ _ ihRest =>
      intro _ aborted
      exact ihRest trivial (Outcome.after_eq_abort.mp aborted)
  | last _ _ => intro _ aborted; cases aborted
  | ended _ _ ih => intro _ aborted; exact ih trivial (Outcome.orStay_eq_abort.mp aborted)
  | token _ _ _ => intro _ aborted; cases aborted
  | @mismatch _ marked _ _ _ => intro _ aborted; cases marked <;> cases aborted
  | upTo _ _ _ _ _ => intro _ aborted; cases aborted
  | unterminated inverse _ =>
      intro within
      rw [untilFree.direct within] at inverse
      cases inverse

/-- On no tokens a nullable rule succeeds, if no terminator can be missing. -/
theorem Derives.success_of_nullable {name : String} (h : Derives p [] (.rule name) i o)
    (untilFree : p.grammar.UntilFree) (nullable : name ∈ p.grammar.nullable) :
    ∃ children, o = .success children i := by
  cases o with
  | failure => exact (h.not_nullable rfl nullable).elim
  | abort start terminator => exact (h.ne_abort untilFree trivial rfl).elim
  | success children stop => exact ⟨children, by rw [h.stop_eq]⟩

/-! ### Parses of a single rule -/

/-- An answer that is ok reports a success. -/
theorem derives_of_parseRule {name : String} {start consumed : Nat} {term : Term}
    (h : (p.parseRule name tokens start).outcome = .ok (term, consumed)) (isOk : term.ok = true) :
    ∃ children, Derives p tokens (.rule name) start (.success children (start + consumed)) := by
  rcases p.parseRule_cases tokens name start with ⟨f, faulty, -⟩ | ⟨answer, o, ok, derived, reports⟩
  · rw [h] at faulty
    cases faulty
  · rw [h] at ok
    cases ok
    cases o with
    | success children stop =>
        obtain ⟨-, rfl⟩ := reports
        exact ⟨children, derived⟩
    | failure =>
        obtain ⟨⟨frontier, rfl⟩, -⟩ := reports
        cases isOk
    | abort first terminator =>
        obtain ⟨rfl, -⟩ := reports
        cases isOk

/-- **The nullable names agree with the parser.**  A rule that matches without
consuming a token is nullable, for every parser, all tokens and every index.  Without
consume-until terminals, and with a limit on the nesting that leaves room for all
rules, a declared rule has an answer on no tokens, and the rules that match there are
exactly the nullable ones. -/
theorem parseRule_nullable (p : Parser) (name : String) :
    (∀ tokens start term, (p.parseRule name tokens start).outcome = .ok (term, 0) →
      term.ok = true → name ∈ p.grammar.nullable) ∧
    (p.grammar.UntilFree → p.grammar.rules.length - (1 : Int) ≤ p.maxDepth →
      (p.grammar.declares name = true →
        ∃ answer, (p.parseRule name [] 0).outcome = .ok answer) ∧
      ((∃ term consumed, (p.parseRule name [] 0).outcome = .ok (term, consumed) ∧
        term.ok = true) ↔ name ∈ p.grammar.nullable)) := by
  refine ⟨?_, fun untilFree room => ?_⟩
  · intro tokens start term answered isOk
    obtain ⟨children, derived⟩ := derives_of_parseRule answered isOk
    exact derived.nullable rfl
  have answers : name ∈ p.grammar.names → ∃ answer o,
      (p.parseRule name [] 0).outcome = .ok answer ∧ Derives p [] (.rule name) 0 o ∧
        Reports [] name 0 o answer := by
    intro declared
    rcases p.parseRule_cases [] name 0 with ⟨f, -, fault⟩ | answered
    · exact (attempt_faultless declared 0 (by simpa using room) f fault).elim
    · exact answered
  refine ⟨fun isDeclared => ?_, fun ⟨term, consumed, answered, isOk⟩ => ?_, fun nullable => ?_⟩
  · obtain ⟨answer, -, ok, -⟩ := answers (p.grammar.declares_iff.mp isDeclared)
    exact ⟨answer, ok⟩
  · obtain ⟨children, derived⟩ := derives_of_parseRule answered isOk
    exact derived.nullable (by rw [derived.stop_eq])
  · obtain ⟨r, found, -⟩ := Grammar.exists_of_mem_nullable nullable
    obtain ⟨⟨term, consumed⟩, o, ok, derived, reports⟩ :=
      answers (p.grammar.mem_names_iff.mpr ⟨r, found⟩)
    obtain ⟨children, rfl⟩ := derived.success_of_nullable untilFree nullable
    obtain ⟨rfl, -⟩ := reports
    exact ⟨_, consumed, ok, rfl⟩

/-- Names with a label before them, which may be missing. -/
def labelledNames : Parser where
  grammar :=
    { rules := [{ name := "line", alternatives := [[.rule "label", .rule "names"], [.rule "names"]] },
                { name := "label", alternatives := [[.ofType "IDENT", .literal ":"]] },
                { name := "names", alternatives := [[.many "name"]] },
                { name := "name", alternatives := [[.ofType "IDENT"]] }]
      root := "line" }
  maxDepth := 3

/-- A line is nullable by its second alternative.  It matches nothing before a comma, and
on no tokens, with the lowest limit that leaves room for four rules; a label does not. -/
theorem parseRule_nullable_line :
    (∃ term, (labelledNames.parseRule "line" [⟨"PUNCT", ",", 1, 1⟩] 0).outcome = .ok (term, 0) ∧
        term.ok = true ∧ "line" ∈ labelledNames.grammar.nullable) ∧
      labelledNames.grammar.UntilFree ∧ (4 : Int) - 1 ≤ labelledNames.maxDepth ∧
      (∃ term consumed, (labelledNames.parseRule "line" [] 0).outcome = .ok (term, consumed) ∧
        term.ok = true) ∧
      (∃ answer, (labelledNames.parseRule "label" [] 0).outcome = .ok answer) ∧
      ¬ ∃ term consumed, (labelledNames.parseRule "label" [] 0).outcome = .ok (term, consumed) ∧
        term.ok = true := by
  have untilFree : labelledNames.grammar.UntilFree := by decide
  have room : labelledNames.grammar.rules.length - (1 : Int) ≤ labelledNames.maxDepth := by decide
  have computed : (labelledNames.parseRule "line" [⟨"PUNCT", ",", 1, 1⟩] 0).outcome.toOption =
      some (⟨"line", [.node "names" [] none], none⟩, 0) := by
    decide +kernel
  obtain ⟨static, onNothing⟩ := parseRule_nullable labelledNames "line"
  obtain ⟨answered, onlyNullable⟩ := (parseRule_nullable labelledNames "label").2 untilFree room
  refine ⟨?_, untilFree, by decide, (onNothing untilFree room).2.mpr (by decide +kernel),
    answered (by decide +kernel), fun h => ?_⟩
  · cases h : (labelledNames.parseRule "line" [⟨"PUNCT", ",", 1, 1⟩] 0).outcome with
    | error e =>
        rw [h] at computed
        cases computed
    | ok answer =>
        rw [h] at computed
        cases computed
        exact ⟨_, rfl, rfl, static _ _ _ h rfl⟩
  · exact absurd (onlyNullable.mp h) (by decide +kernel)

end Parser

end GrammarKit
