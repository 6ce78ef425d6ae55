import GrammarKit.Proofs.OrderedChoice

/-!
# Reading ahead

Where blanks are not skipped, what a goal comes to at an index depends on the
tokens ahead alone, and how far it gets can be computed from them.  This is the
reading of a goal: the number of tokens it takes, or that it is refused, or that
the parse is aborted.

## Main Definitions

* `Parser.Reach` — how far a goal gets
* `Parser.reading` — how far a rule gets on the tokens ahead, with a bound on the
  nesting of rules

## Main Statements

* `Parser.Derives.reach_eq` — a goal gets as far as its reading says

## Design Notes

A reading has no trees and no frontier, so it can be evaluated on tokens of which
only a few are known.  The bound on the nesting is enough wherever rules refer to
rules of lower rank only.
-/

namespace GrammarKit.Parser

/-- How far a goal gets. -/
inductive Reach where
  /-- The number of tokens that were taken. -/
  | took (count : Nat)
  | refused
  | aborted
deriving DecidableEq, Repr

/-- How far an outcome gets from an index on. -/
def Outcome.reach (start : Nat) : Outcome → Reach
  | .success _ stop => .took (stop - start)
  | .failure => .refused
  | .abort _ _ => .aborted

namespace Reach

/-- Goes on behind what was taken. -/
def andThen (first : Reach) (more : Nat → Reach) : Reach :=
  match first with
  | .took m =>
    match more m with
    | .took n => .took (m + n)
    | other => other
  | other => other

/-- What comes next counts if the first was refused. -/
def orElse (first second : Reach) : Reach :=
  match first with
  | .refused => second
  | other => other

@[simp] theorem refused_orElse (r : Reach) : refused.orElse r = r := rfl

@[simp] theorem took_orElse (n : Nat) (r : Reach) : (took n).orElse r = .took n := rfl

@[simp] theorem aborted_orElse (r : Reach) : aborted.orElse r = .aborted := rfl

@[simp] theorem orElse_refused (r : Reach) : r.orElse .refused = r := by
  cases r <;> rfl

@[simp] theorem refused_andThen (more : Nat → Reach) : refused.andThen more = .refused := rfl

@[simp] theorem aborted_andThen (more : Nat → Reach) : aborted.andThen more = .aborted := rfl

end Reach

/-! ### Readings -/

section Reading

variable (apply : String → List Token → Reach)

/-- A terminal that accepts one token. -/
def readToken (t : Terminal) : List Token → Reach
  | [] => .refused
  | token :: _ => if t.accepts token then .took 1 else .refused

/-- All tokens up to the first that a terminal accepts. -/
def readUntil (t : Terminal) (ahead : List Token) : Reach :=
  match ahead.findIdx? t.accepts with
  | some n => .took n
  | none => .aborted

/-- A rule until it is refused or takes nothing. -/
def readMany (name : String) : List Token → Reach
  | [] => (apply name []).orElse (.took 0)
  | t :: rest =>
    match apply name (t :: rest) with
    | .took (n + 1) => (Reach.took (n + 1)).andThen fun _ => readMany name (rest.drop n)
    | other => other.orElse (.took 0)
termination_by ahead => ahead.length

/-- One element of a production. -/
def readElement (e : Element) (ahead : List Token) : Reach :=
  match e with
  | .reference name optional repeatable =>
    if repeatable then readMany apply name ahead
    else if optional then (apply name ahead).orElse (.took 0)
    else apply name ahead
  | .terminal t optional =>
    if t.inverse then readUntil t ahead
    else if optional then (readToken t ahead).orElse (.took 0)
    else readToken t ahead

/-- The elements of a production, one after the other. -/
def readProduction : Production → List Token → Reach
  | [], _ => .took 0
  | e :: rest, ahead =>
    (readElement apply e ahead).andThen fun n => readProduction rest (ahead.drop n)

/-- The first of some alternatives that is not refused. -/
def readAlternatives : List Production → List Token → Reach
  | [], _ => .refused
  | production :: rest, ahead =>
    (readProduction apply production ahead).orElse (readAlternatives rest ahead)

end Reading

variable {p : Parser} {tokens : List Token}

/-- **The reading of a rule**: how far it gets on the tokens ahead if rules nest no
deeper than `levels`. -/
def reading (p : Parser) : (levels : Nat) → String → List Token → Reach
  | 0, _, _ => .refused
  | levels + 1, name, ahead =>
    match p.grammar.rule? name with
    | none => .refused
    | some r => readAlternatives (reading p levels) r.alternatives ahead

/-- The reading of a goal. -/
def goalReading (p : Parser) (levels : Nat) : Goal → List Token → Reach
  | .rule name, ahead => p.reading levels name ahead
  | .alternatives productions, ahead => readAlternatives (p.reading levels) productions ahead
  | .sequence elements, ahead => readProduction (p.reading levels) elements ahead
  | .element e, ahead => readElement (p.reading levels) e ahead
  | .once name, ahead => p.reading levels name ahead
  | .many name, ahead => readMany (p.reading levels) name ahead

/-- All rules that a goal refers to have a rank below a bound. -/
def Goal.Below (rank : String → Nat) (levels : Nat) : Goal → Prop
  | .rule name => rank name < levels
  | .alternatives productions => ∀ production ∈ productions, ∀ e ∈ production,
      ∀ name, e.target? = some name → rank name < levels
  | .sequence elements => ∀ e ∈ elements, ∀ name, e.target? = some name → rank name < levels
  | .element e => ∀ name, e.target? = some name → rank name < levels
  | .once name => rank name < levels
  | .many name => rank name < levels

/-! ### A goal gets as far as its reading says -/

/-- What comes behind a success takes what is left. -/
theorem Outcome.reach_after {o : Outcome} {children : List Tree} {i j : Nat} (le : i ≤ j)
    (bound : ∀ more stop, o = .success more stop → j ≤ stop) :
    (o.after children).reach i = (Reach.took (j - i)).andThen fun _ => o.reach j := by
  cases o with
  | success more stop =>
      have behind := bound more stop rfl
      show Reach.took (stop - i) = .took (j - i + (stop - j))
      congr 1
      omega
  | failure => rfl
  | abort start terminator => rfl

theorem Outcome.reach_orStay (o : Outcome) (i : Nat) :
    (o.orStay i).reach i = (o.reach i).orElse (.took 0) := by
  cases o with
  | success children stop => rfl
  | failure => exact congrArg Reach.took (Nat.sub_self i)
  | abort start terminator => rfl

theorem Outcome.reach_node (o : Outcome) (name : String) (blanks : List Token) (i : Nat) :
    (o.node name blanks).reach i = o.reach i := by
  cases o <;> rfl

/-- The first token ahead is the one at the index. -/
theorem readToken_drop (t : Terminal) (i : Nat) :
    readToken t (tokens.drop i) =
      if (∃ found, tokens[i]? = some found ∧ t.accepts found = true) then .took 1
      else .refused := by
  rw [← List.head?_drop]
  cases tokens.drop i with
  | nil => simp [readToken]
  | cons a rest => simp [readToken]

/-- A search ends before the first token that is accepted. -/
theorem readUntil_of_found {t : Terminal} {i j : Nat} {found : Token} (le : i ≤ j)
    (stands : tokens[j]? = some found) (accepted : t.accepts found = true)
    (none : Unaccepted tokens t i j) : readUntil t (tokens.drop i) = .took (j - i) := by
  have first : (tokens.drop i).findIdx? t.accepts = some (j - i) := by
    obtain ⟨inside, rfl⟩ := List.getElem?_eq_some_iff.mp stands
    rw [List.findIdx?_eq_some_iff_getElem]
    refine ⟨by rw [List.length_drop]; omega, ?_, ?_⟩
    · rw [List.getElem_drop]
      simpa only [Nat.add_sub_cancel' le] using accepted
    · intro k lt
      rw [List.getElem_drop]
      have skipped := none (i + k) (by omega) (by omega) _ (List.getElem?_eq_getElem (by omega))
      rw [skipped]
      decide
  rw [readUntil, first]

/-- A search that finds nothing is aborted. -/
theorem readUntil_of_none {t : Terminal} {i : Nat} (none : Unaccepted tokens t i tokens.length) :
    readUntil t (tokens.drop i) = .aborted := by
  have nothing : (tokens.drop i).findIdx? t.accepts = .none := by
    rw [List.findIdx?_eq_none_iff]
    intro token mem
    obtain ⟨k, inside, rfl⟩ := List.mem_iff_getElem.mp mem
    rw [List.length_drop] at inside
    rw [List.getElem_drop]
    exact none (i + k) (by omega) (by omega) _ (List.getElem?_eq_getElem (by omega))
  rw [readUntil, nothing]

/-- A further round starts behind the tokens of the first. -/
theorem readMany_of_took {apply : String → List Token → Reach} {name : String} {i j : Nat}
    (lt : i < j) (inside : j ≤ tokens.length) (round : apply name (tokens.drop i) = .took (j - i)) :
    readMany apply name (tokens.drop i) =
      (Reach.took (j - i)).andThen fun _ => readMany apply name (tokens.drop j) := by
  obtain ⟨n, same⟩ : ∃ n, j - i = n + 1 := ⟨j - i - 1, by omega⟩
  have front : tokens.drop i = tokens[i] :: tokens.drop (i + 1) :=
    List.drop_eq_getElem_cons (by omega)
  rw [front, same] at round
  rw [front, readMany, round, same]
  show (Reach.took (n + 1)).andThen (fun _ => readMany apply name ((tokens.drop (i + 1)).drop n)) = _
  rw [List.drop_drop, show i + 1 + n = j by omega]

/-- A round that takes nothing is the last. -/
theorem readMany_of_ended {apply : String → List Token → Reach} {name : String}
    {ahead : List Token} (round : ∀ n, apply name ahead ≠ .took (n + 1)) :
    readMany apply name ahead = (apply name ahead).orElse (.took 0) := by
  cases ahead with
  | nil => rw [readMany]
  | cons t rest =>
      rw [readMany]
      split
      · rename_i n taken
        exact (round n taken).elim
      · rfl

/-- **A goal gets as far as its reading says**, if blanks are not skipped and rules
refer to rules of lower rank only. -/
theorem Derives.reach_eq (solid : p.skipBlanks = false) {rank : String → Nat}
    (shallow : ∀ r ∈ p.grammar.rules, ∀ target ∈ r.references, rank target < rank r.name)
    {goal : Goal} {i : Nat} {o : Outcome} (h : Derives p tokens goal i o) :
    ∀ levels, goal.Below rank levels →
      o.reach i = p.goalReading levels goal (tokens.drop i) := by
  induction h with
  | @rule name r i o hr _ ih =>
      intro levels below
      cases levels with
      | zero => exact (Nat.not_lt_zero _ below).elim
      | succ levels =>
          -- what the rule refers to has a lower rank, so one level less is enough
          rw [goalReading, reading, hr]
          refine ih levels fun production isAlternative e mem target same => ?_
          have lower := shallow r (Grammar.mem_rules_of_rule? hr) target
            (Rule.mem_references.mpr ⟨production, isAlternative, e, mem, same⟩)
          rw [Grammar.name_of_rule? hr] at lower
          exact Nat.lt_of_lt_of_le lower (Nat.le_of_lt_succ below)
  | exhausted => intro levels _; rfl
  | @taken production rest i o _ decides ih =>
      intro levels below
      rw [goalReading, readAlternatives]
      have here := ih levels (below production List.mem_cons_self)
      rw [goalReading] at here
      rw [← here]
      cases o with
      | success children stop => rfl
      | failure => exact (decides rfl).elim
      | abort start terminator => rfl
  | @passed production rest i o _ _ ih ih' =>
      intro levels below
      rw [goalReading, readAlternatives]
      have here := ih levels (below production List.mem_cons_self)
      rw [goalReading] at here
      rw [← here]
      exact ih' levels fun other mem => below other (List.mem_cons_of_mem _ mem)
  | done => intro levels _; exact congrArg Reach.took (Nat.sub_self _)
  | @next e rest i j children o first others ih ih' =>
      intro levels below
      have here := ih levels (below e List.mem_cons_self)
      have behind := ih' levels fun other mem => below other (List.mem_cons_of_mem _ mem)
      have le := first.le_stop
      simp only [goalReading] at here behind
      rw [goalReading, readProduction, ← here, Outcome.reach_after le
        fun more stop same => by rw [same] at others; exact others.le_stop]
      show _ = (Reach.took (j - i)).andThen _
      simp only [Reach.andThen, List.drop_drop, Nat.add_sub_cancel' le, behind]
  | @stuck e rest i o _ fails ih =>
      intro levels below
      have here := ih levels (below e List.mem_cons_self)
      rw [goalReading] at here
      rw [goalReading, readProduction, ← here]
      cases o with
      | success children stop => exact (fails trivial).elim
      | failure => rfl
      | abort start terminator => rfl
  | @once name i o _ ih =>
      intro levels below
      rw [Outcome.reach_node]
      have here := ih levels below
      rwa [afterBlanks_of_solid solid] at here
  | plain _ ih => intro levels below; exact ih levels (below _ rfl)
  | @optional name i o _ ih =>
      intro levels below
      rw [Outcome.reach_orStay, ih levels (below _ rfl)]
      rfl
  | repeatable _ ih =>
      intro levels below
      rw [ih levels (below _ rfl)]
      rfl
  | @again name i j children o round lt others ih ih' =>
      intro levels below
      rw [afterBlanks_of_solid solid] at lt
      have here := ih levels below
      have behind := ih' levels below
      simp only [goalReading] at here behind
      rw [goalReading, readMany_of_took lt (round.stop_le lt) here.symm, ← behind]
      exact Outcome.reach_after round.le_stop
        fun more stop same => by rw [same] at others; exact others.le_stop
  | @last name i children _ ih =>
      intro levels below
      -- a round that took nothing is the last one, and counts
      have here := ih levels below
      rw [afterBlanks_of_solid solid, goalReading] at here
      have nothing : p.reading levels name (tokens.drop i) = .took 0 := by
        rw [← here]
        exact congrArg Reach.took (Nat.sub_self i)
      rw [afterBlanks_of_solid solid, goalReading, readMany_of_ended (by simp [nothing]), nothing]
      exact congrArg Reach.took (Nat.sub_self i)
  | @ended name i o _ fails ih =>
      intro levels below
      have here := ih levels below
      rw [goalReading] at here
      rw [goalReading, Outcome.reach_orStay, readMany_of_ended, here]
      intro n taken
      rw [taken] at here
      cases o with
      | success children stop => exact fails trivial
      | failure => cases here
      | abort start terminator => cases here
  | @token t marked i found direct stands accepted =>
      intro levels _
      rw [afterBlanks_of_solid solid] at stands
      have taken : readToken t (tokens.drop i) = .took 1 := by
        rw [readToken_drop, if_pos ⟨found, stands, accepted⟩]
      have reach : Outcome.reach i (.success ((p.blanksAt tokens i).map Tree.leaf ++ [.leaf found])
          (p.afterBlanks tokens i + 1)) = .took 1 := by
        rw [afterBlanks_of_solid solid]
        exact congrArg Reach.took (Nat.add_sub_cancel_left i 1)
      rw [reach, goalReading, readElement, direct, taken]
      cases marked <;> rfl
  | @mismatch t marked i direct rejected =>
      intro levels _
      rw [afterBlanks_of_solid solid] at rejected
      have refused : readToken t (tokens.drop i) = .refused := by
        rw [readToken_drop, if_neg]
        rintro ⟨found, stands, accepted⟩
        rw [rejected found stands] at accepted
        cases accepted
      rw [goalReading, readElement, direct, refused]
      cases marked with
      | true => exact congrArg Reach.took (Nat.sub_self i)
      | false => rfl
  | @upTo t marked i j found inverse le stands accepted none =>
      intro levels _
      rw [goalReading, readElement, inverse, readUntil_of_found le stands accepted none]
      rfl
  | @unterminated t marked i inverse none =>
      intro levels _
      rw [goalReading, readElement, inverse, readUntil_of_none none]
      rfl

end GrammarKit.Parser
