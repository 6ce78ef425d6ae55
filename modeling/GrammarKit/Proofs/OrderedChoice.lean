import GrammarKit.Parser.Basic
import GrammarKit.Proofs.WellFormed

/-!
# Ordered choice, declaratively

What a rule comes to at an index of a token list, as a relation: no bound on the
nesting of rules, no frontier, no trace.  A rule **succeeds** with the trees and
the end of the first alternative all of whose elements succeed one after the
other, **fails** if every alternative fails, or **aborts** the whole parse where
the terminator of a consume-until terminal is missing.

## Main Definitions

* `Parser.Outcome` — success with trees and end, failure, or abort
* `Parser.Goal` — the parts of a grammar that have an outcome at an index
* `Parser.Derives` — the outcomes of goals, by the rules of ordered choice

## Main Statements

* `Parser.Derives.stop_bounds` — a success never ends before it starts, and ends
  inside the tokens if it consumed any
* `Parser.Derives.nullable` — what succeeds without consuming is nullable
* `Parser.Derives.deterministic` — a goal has at most one outcome at an index

## Design Notes

All goals share one relation, so that a fact about every part of a grammar is
one induction.  That every rule *has* an outcome is not a fact about the
relation alone: it needs the rank of the rules and is proved from the parser,
which computes one.
-/

namespace GrammarKit.Parser

/-- What a part of a grammar comes to at an index. -/
inductive Outcome where
  /-- The trees that were matched and the index after the last token. -/
  | success (children : List Tree) (stop : Nat)
  | failure
  /-- A search from an index that found no token accepted by the terminal. -/
  | abort (start : Nat) (terminator : Terminal)

namespace Outcome

/-- Puts trees in front of a success. -/
def after (children : List Tree) : Outcome → Outcome
  | .success more stop => .success (children ++ more) stop
  | .failure => .failure
  | .abort start terminator => .abort start terminator

/-- A failure consumes nothing instead. -/
def orStay (position : Nat) : Outcome → Outcome
  | .success children stop => .success children stop
  | .failure => .success [] position
  | .abort start terminator => .abort start terminator

/-- A success becomes the node of a rule, behind the blanks that were skipped. -/
def node (name : String) (blanks : List Token) : Outcome → Outcome
  | .success children stop =>
      .success (blanks.map Tree.leaf ++ [.node name children none]) stop
  | .failure => .failure
  | .abort start terminator => .abort start terminator

/-- Whether anything was matched. -/
def Succeeds : Outcome → Prop
  | .success _ _ => True
  | .failure => False
  | .abort _ _ => False

theorem after_eq_success {o : Outcome} {front children : List Tree} {stop : Nat} :
    o.after front = .success children stop ↔
      ∃ more, o = .success more stop ∧ children = front ++ more := by
  cases o with
  | success more end' =>
      simp only [after, success.injEq]
      constructor
      · rintro ⟨rfl, rfl⟩
        exact ⟨more, ⟨rfl, rfl⟩, rfl⟩
      · rintro ⟨_, ⟨rfl, rfl⟩, rfl⟩
        exact ⟨rfl, rfl⟩
  | failure => simp [after]
  | abort start terminator => simp [after]

theorem node_eq_success {o : Outcome} {name : String} {blanks : List Token}
    {children : List Tree} {stop : Nat} :
    o.node name blanks = .success children stop ↔
      ∃ inner, o = .success inner stop ∧
        children = blanks.map Tree.leaf ++ [.node name inner none] := by
  cases o with
  | success inner end' =>
      simp only [node, success.injEq]
      constructor
      · rintro ⟨rfl, rfl⟩
        exact ⟨inner, ⟨rfl, rfl⟩, rfl⟩
      · rintro ⟨_, ⟨rfl, rfl⟩, rfl⟩
        exact ⟨rfl, rfl⟩
  | failure => simp [node]
  | abort start terminator => simp [node]

theorem node_eq_failure {o : Outcome} {name : String} {blanks : List Token} :
    o.node name blanks = .failure ↔ o = .failure := by
  cases o <;> simp [node]

theorem orStay_eq_success {o : Outcome} {position stop : Nat} {children : List Tree} :
    o.orStay position = .success children stop ↔
      o = .success children stop ∨ o = .failure ∧ children = [] ∧ stop = position := by
  cases o with
  | success more end' => simp [orStay]
  | failure => simp [orStay, eq_comm]
  | abort start terminator => simp [orStay]

theorem after_eq_failure {o : Outcome} {front : List Tree} :
    o.after front = .failure ↔ o = .failure := by
  cases o <;> simp [after]

theorem orStay_ne_failure (o : Outcome) (position : Nat) : o.orStay position ≠ .failure := by
  cases o <;> simp [orStay]

theorem after_eq_abort {o : Outcome} {front : List Tree} {start : Nat} {terminator : Terminal} :
    o.after front = .abort start terminator ↔ o = .abort start terminator := by
  cases o <;> simp [after]

theorem orStay_eq_abort {o : Outcome} {position start : Nat} {terminator : Terminal} :
    o.orStay position = .abort start terminator ↔ o = .abort start terminator := by
  cases o <;> simp [orStay]

theorem node_eq_abort {o : Outcome} {name : String} {blanks : List Token} {start : Nat}
    {terminator : Terminal} :
    o.node name blanks = .abort start terminator ↔ o = .abort start terminator := by
  cases o <;> simp [node]

end Outcome

/-- A part of a grammar that has an outcome at an index. -/
inductive Goal where
  | rule (name : String)
  /-- The first of some productions that matches. -/
  | alternatives (productions : List Production)
  /-- Elements one after the other. -/
  | sequence (elements : Production)
  | element (e : Element)
  /-- A rule with the blanks before it. -/
  | once (name : String)
  /-- A rule any number of times, each time with the blanks before it. -/
  | many (name : String)

/-- The index behind the blanks that may be skipped at an index. -/
def afterBlanks (p : Parser) (tokens : List Token) (position : Nat) : Nat :=
  position + (p.blanksAt tokens position).length

/-- No token from `first` on and before `last` is accepted by the terminal. -/
def Unaccepted (tokens : List Token) (t : Terminal) (first last : Nat) : Prop :=
  ∀ k, first ≤ k → k < last → ∀ token, tokens[k]? = some token → t.accepts token = false

/-- **The outcomes of goals**, by the rules of ordered choice. -/
inductive Derives (p : Parser) (tokens : List Token) : Goal → Nat → Outcome → Prop where
  /-- A rule comes to what its alternatives come to. -/
  | rule {name : String} {r : Rule} {i : Nat} {o : Outcome} :
      p.grammar.rule? name = some r → Derives p tokens (.alternatives r.alternatives) i o →
      Derives p tokens (.rule name) i o
  /-- No alternative is left. -/
  | exhausted {i : Nat} : Derives p tokens (.alternatives []) i .failure
  /-- The first alternative that does not fail decides. -/
  | taken {production : Production} {rest : List Production} {i : Nat} {o : Outcome} :
      Derives p tokens (.sequence production) i o → o ≠ .failure →
      Derives p tokens (.alternatives (production :: rest)) i o
  /-- After a failure the next alternative starts at the same index. -/
  | passed {production : Production} {rest : List Production} {i : Nat} {o : Outcome} :
      Derives p tokens (.sequence production) i .failure →
      Derives p tokens (.alternatives rest) i o →
      Derives p tokens (.alternatives (production :: rest)) i o
  /-- No element is left. -/
  | done {i : Nat} : Derives p tokens (.sequence []) i (.success [] i)
  /-- The other elements start where the first one ended. -/
  | next {e : Element} {rest : Production} {i j : Nat} {children : List Tree} {o : Outcome} :
      Derives p tokens (.element e) i (.success children j) →
      Derives p tokens (.sequence rest) j o →
      Derives p tokens (.sequence (e :: rest)) i (o.after children)
  /-- An element that does not succeed decides. -/
  | stuck {e : Element} {rest : Production} {i : Nat} {o : Outcome} :
      Derives p tokens (.element e) i o → ¬ o.Succeeds →
      Derives p tokens (.sequence (e :: rest)) i o
  /-- Blanks before a rule are skipped. -/
  | once {name : String} {i : Nat} {o : Outcome} :
      Derives p tokens (.rule name) (p.afterBlanks tokens i) o →
      Derives p tokens (.once name) i (o.node name (p.blanksAt tokens i))
  /-- A plain reference must succeed. -/
  | plain {name : String} {i : Nat} {o : Outcome} :
      Derives p tokens (.once name) i o →
      Derives p tokens (.element (.reference name false false)) i o
  /-- An optional reference takes the success or consumes nothing. -/
  | optional {name : String} {i : Nat} {o : Outcome} :
      Derives p tokens (.once name) i o →
      Derives p tokens (.element (.reference name true false)) i (o.orStay i)
  /-- A repeatable reference iterates. -/
  | repeatable {name : String} {marked : Bool} {i : Nat} {o : Outcome} :
      Derives p tokens (.many name) i o →
      Derives p tokens (.element (.reference name marked true)) i o
  /-- After a round that consumed a token comes another one. -/
  | again {name : String} {i j : Nat} {children : List Tree} {o : Outcome} :
      Derives p tokens (.once name) i (.success children j) → p.afterBlanks tokens i < j →
      Derives p tokens (.many name) j o →
      Derives p tokens (.many name) i (o.after children)
  /-- A round of length zero is the last. -/
  | last {name : String} {i : Nat} {children : List Tree} :
      Derives p tokens (.once name) i (.success children (p.afterBlanks tokens i)) →
      Derives p tokens (.many name) i (.success children (p.afterBlanks tokens i))
  /-- A round that fails is not counted. -/
  | ended {name : String} {i : Nat} {o : Outcome} :
      Derives p tokens (.once name) i o → ¬ o.Succeeds →
      Derives p tokens (.many name) i (o.orStay i)
  /-- A terminal takes the token behind the blanks. -/
  | token {t : Terminal} {marked : Bool} {i : Nat} {found : Token} :
      t.inverse = false → tokens[p.afterBlanks tokens i]? = some found →
      t.accepts found = true →
      Derives p tokens (.element (.terminal t marked)) i
        (.success ((p.blanksAt tokens i).map Tree.leaf ++ [.leaf found])
          (p.afterBlanks tokens i + 1))
  /-- Without such a token a terminal fails, and an optional one is left out. -/
  | mismatch {t : Terminal} {marked : Bool} {i : Nat} :
      t.inverse = false →
      (∀ found, tokens[p.afterBlanks tokens i]? = some found → t.accepts found = false) →
      Derives p tokens (.element (.terminal t marked)) i
        (if marked then .success [] i else .failure)
  /-- A consume-until terminal ends before the first token it accepts. -/
  | upTo {t : Terminal} {marked : Bool} {i j : Nat} {found : Token} :
      t.inverse = true → i ≤ j → tokens[j]? = some found → t.accepts found = true →
      Unaccepted tokens t i j →
      Derives p tokens (.element (.terminal t marked)) i
        (.success (((tokens.drop i).take (j - i)).map Tree.leaf) j)
  /-- Without such a token the whole parse is aborted. -/
  | unterminated {t : Terminal} {marked : Bool} {i : Nat} :
      t.inverse = true → Unaccepted tokens t i tokens.length →
      Derives p tokens (.element (.terminal t marked)) i (.abort i t)

variable {p : Parser} {tokens : List Token}

/-! ### Skipped blanks -/

theorem le_afterBlanks (p : Parser) (tokens : List Token) (i : Nat) :
    i ≤ p.afterBlanks tokens i :=
  Nat.le_add_right i _

/-- The skipped blanks are the tokens that stand there. -/
theorem blanksAt_eq_take (p : Parser) (tokens : List Token) (i : Nat) :
    p.blanksAt tokens i = (tokens.drop i).take (p.blanksAt tokens i).length := by
  unfold blanksAt
  split
  · exact (List.prefix_iff_eq_take.mp (List.takeWhile_prefix _))
  · simp

/-- Skipping blanks stays inside the tokens. -/
theorem afterBlanks_le {i : Nat} (h : i < p.afterBlanks tokens i) :
    p.afterBlanks tokens i ≤ tokens.length := by
  have bound : (p.blanksAt tokens i).length ≤ tokens.length - i := by
    rw [blanksAt_eq_take, List.length_take, List.length_drop]
    exact Nat.min_le_right _ _
  unfold afterBlanks at *
  omega

/-- Where blanks are not skipped there are none to skip. -/
theorem blanksAt_of_solid (solid : p.skipBlanks = false) (i : Nat) :
    p.blanksAt tokens i = [] := by
  rw [blanksAt, solid]
  rfl

theorem afterBlanks_of_solid (solid : p.skipBlanks = false) (i : Nat) :
    p.afterBlanks tokens i = i := by
  rw [afterBlanks, blanksAt_of_solid solid]
  rfl

namespace Derives

/-! ### Inversion -/

theorem of_rule {name : String} {i : Nat} {o : Outcome} (h : Derives p tokens (.rule name) i o) :
    ∃ r, p.grammar.rule? name = some r ∧
      Derives p tokens (.alternatives r.alternatives) i o := by
  cases h with
  | rule hr ho => exact ⟨_, hr, ho⟩

theorem of_once {name : String} {i : Nat} {o : Outcome} (h : Derives p tokens (.once name) i o) :
    ∃ inner, Derives p tokens (.rule name) (p.afterBlanks tokens i) inner ∧
      o = inner.node name (p.blanksAt tokens i) := by
  cases h with
  | once ho => exact ⟨_, ho, rfl⟩

/-- Alternatives are tried in order: one of the first decides, or they all fail
and the others decide. -/
theorem of_alternatives_append {first others : List Production} {i : Nat} {o : Outcome}
    (h : Derives p tokens (.alternatives (first ++ others)) i o) :
    (o ≠ .failure ∧ ∃ production ∈ first, Derives p tokens (.sequence production) i o) ∨
      (∀ production ∈ first, Derives p tokens (.sequence production) i .failure) ∧
        Derives p tokens (.alternatives others) i o := by
  induction first with
  | nil => exact Or.inr ⟨by simp, h⟩
  | cons production rest ih =>
      cases h with
      | taken ho decides => exact Or.inl ⟨decides, production, List.mem_cons_self, ho⟩
      | passed fails ho =>
          rcases ih ho with ⟨decides, later, mem, hl⟩ | ⟨allFail, hothers⟩
          · exact Or.inl ⟨decides, later, List.mem_cons_of_mem _ mem, hl⟩
          · refine Or.inr ⟨fun other mem => ?_, hothers⟩
            rcases List.mem_cons.mp mem with rfl | before
            · exact fails
            · exact allFail other before

/-- All alternatives fail, or one of them decides. -/
theorem of_alternatives {productions : List Production} {i : Nat} {o : Outcome}
    (h : Derives p tokens (.alternatives productions) i o) :
    (o ≠ .failure ∧ ∃ production ∈ productions, Derives p tokens (.sequence production) i o) ∨
      o = .failure ∧
        ∀ production ∈ productions, Derives p tokens (.sequence production) i .failure := by
  rw [← List.append_nil productions] at h
  rcases of_alternatives_append h with decided | ⟨allFail, rest⟩
  · exact Or.inl decided
  · cases rest with
    | exhausted => exact Or.inr ⟨rfl, allFail⟩

theorem of_alternatives_failure {productions : List Production} {i : Nat}
    (h : Derives p tokens (.alternatives productions) i .failure) :
    ∀ production ∈ productions, Derives p tokens (.sequence production) i .failure := by
  rcases h.of_alternatives with ⟨decides, -⟩ | ⟨-, allFail⟩
  · exact (decides rfl).elim
  · exact allFail

/-- A single alternative decides whatever it comes to. -/
theorem of_alternatives_singleton {production : Production} {i : Nat} {o : Outcome}
    (h : Derives p tokens (.alternatives [production]) i o) :
    Derives p tokens (.sequence production) i o := by
  cases h with
  | taken ho _ => exact ho
  | passed fails rest =>
      cases rest with
      | exhausted => exact fails

/-- A production of one element comes to what the element comes to. -/
theorem of_singleton {e : Element} {i : Nat} {o : Outcome}
    (h : Derives p tokens (.sequence [e]) i o) : Derives p tokens (.element e) i o := by
  cases h with
  | next first rest =>
      cases rest with
      | done => simpa [Outcome.after] using first
  | stuck ho _ => exact ho

/-- A production fails where its first element that does not succeed fails. -/
theorem of_sequence_failure {e : Element} {rest : Production} {i : Nat}
    (h : Derives p tokens (.sequence (e :: rest)) i .failure) :
    Derives p tokens (.element e) i .failure ∨
      ∃ children j, Derives p tokens (.element e) i (.success children j) ∧
        Derives p tokens (.sequence rest) j .failure := by
  generalize same : Outcome.failure = o at h
  cases h with
  | @next _ _ _ j children o first others =>
      cases o with
      | failure => exact Or.inr ⟨children, j, first, others⟩
      | success more stop => cases same
      | abort start terminator => cases same
  | stuck ho _ => exact Or.inl ho

/-- Where a terminal fails there is no token that it accepts. -/
theorem of_terminal_failure {t : Terminal} {marked : Bool} {i : Nat}
    (h : Derives p tokens (.element (.terminal t marked)) i .failure) :
    t.inverse = false ∧
      ∀ found, tokens[p.afterBlanks tokens i]? = some found → t.accepts found = false := by
  generalize same : Outcome.failure = o at h
  cases h with
  | token _ _ _ => cases same
  | mismatch direct absent => exact ⟨direct, absent⟩
  | upTo _ _ _ _ _ => cases same
  | unterminated _ _ => cases same

/-- A terminal that must match takes the token behind the blanks. -/
theorem of_one_success {t : Terminal} {i j : Nat} {children : List Tree}
    (direct : t.inverse = false)
    (h : Derives p tokens (.element (.one t)) i (.success children j)) :
    ∃ found, tokens[p.afterBlanks tokens i]? = some found ∧ t.accepts found = true ∧
      children = (p.blanksAt tokens i).map Tree.leaf ++ [.leaf found] ∧
      j = p.afterBlanks tokens i + 1 := by
  generalize same : Outcome.success children j = o at h
  cases h with
  | token _ stands accepted =>
      cases same
      exact ⟨_, stands, accepted, rfl, rfl⟩
  | mismatch _ _ => cases same
  | upTo inverse _ _ _ _ =>
      rw [direct] at inverse
      cases inverse
  | unterminated _ _ => cases same

/-- A consume-until terminal that succeeds has found a token that it accepts. -/
theorem of_until_success {t : Terminal} {marked : Bool} {i j : Nat} {children : List Tree}
    (inverse : t.inverse = true)
    (h : Derives p tokens (.element (.terminal t marked)) i (.success children j)) :
    ∃ found, tokens[j]? = some found ∧ t.accepts found = true := by
  generalize same : Outcome.success children j = o at h
  cases h with
  | token direct _ _ =>
      rw [inverse] at direct
      cases direct
  | mismatch direct _ =>
      rw [inverse] at direct
      cases direct
  | upTo _ _ stands accepted _ =>
      cases same
      exact ⟨_, stands, accepted⟩
  | unterminated _ _ => cases same

/-! ### Where a success ends -/

/-- **A success never ends before it starts**, and ends inside the tokens if it
consumed any. -/
theorem stop_bounds {goal : Goal} {i : Nat} {o : Outcome} (h : Derives p tokens goal i o) :
    ∀ {children : List Tree} {j : Nat}, o = .success children j →
      i ≤ j ∧ (i < j → j ≤ tokens.length) := by
  induction h with
  | rule _ _ ih => exact ih
  | exhausted => intro children j h; cases h
  | taken _ _ ih => exact ih
  | passed _ _ _ ih => exact ih
  | done => intro children j h; cases h; exact ⟨Nat.le_refl _, by omega⟩
  | next _ _ ihFirst ihRest =>
      intro children k h
      obtain ⟨more, rfl, -⟩ := Outcome.after_eq_success.mp h
      have first := ihFirst rfl
      have rest := ihRest rfl
      omega
  | stuck _ _ ih => exact ih
  | @once _ i _ _ ih =>
      intro children k h
      obtain ⟨inner, rfl, -⟩ := Outcome.node_eq_success.mp h
      have inside := ih rfl
      have skip := le_afterBlanks p tokens i
      have bound := @afterBlanks_le p tokens i
      omega
  | plain _ ih => exact ih
  | optional _ ih =>
      intro children k h
      rcases Outcome.orStay_eq_success.mp h with rfl | ⟨-, -, rfl⟩
      · exact ih rfl
      · omega
  | repeatable _ ih => exact ih
  | again _ _ _ ihFirst ihRest =>
      intro children k h
      obtain ⟨more, rfl, -⟩ := Outcome.after_eq_success.mp h
      have first := ihFirst rfl
      have rest := ihRest rfl
      omega
  | last _ ih => exact ih
  | ended _ _ ih =>
      intro children k h
      rcases Outcome.orStay_eq_success.mp h with rfl | ⟨-, -, rfl⟩
      · exact ih rfl
      · omega
  | @token _ _ i _ _ found _ =>
      intro children k h
      cases h
      have inside := (List.getElem?_eq_some_iff.mp found).1
      have skip := le_afterBlanks p tokens i
      omega
  | mismatch _ _ =>
      intro children k h
      split at h
      · cases h; omega
      · cases h
  | upTo _ le found _ _ =>
      intro children k h
      cases h
      have inside := (List.getElem?_eq_some_iff.mp found).1
      omega
  | unterminated _ _ => intro children k h; cases h

theorem le_stop {goal : Goal} {i j : Nat} {children : List Tree}
    (h : Derives p tokens goal i (.success children j)) : i ≤ j :=
  (h.stop_bounds rfl).1

theorem stop_le {goal : Goal} {i j : Nat} {children : List Tree}
    (h : Derives p tokens goal i (.success children j)) (lt : i < j) : j ≤ tokens.length :=
  (h.stop_bounds rfl).2 lt

/-! ### What succeeds without consuming -/

end Derives

/-- Whether a goal counts as nullable in the grammar. -/
def Goal.Nullable (g : Grammar) : Goal → Prop
  | .rule name => name ∈ g.nullable
  | .alternatives productions =>
      ∃ production ∈ productions, ∀ e ∈ production, e.nullable g.nullable = true
  | .sequence elements => ∀ e ∈ elements, e.nullable g.nullable = true
  | .element e => e.nullable g.nullable = true
  | .once name => name ∈ g.nullable
  | .many _ => True

namespace Derives

/-- **What succeeds without consuming a token is nullable.**  The skipped blanks
count as consumed, so a goal that only absorbed blanks is not meant here. -/
theorem nullable {goal : Goal} {i : Nat} {o : Outcome} (h : Derives p tokens goal i o) :
    ∀ {children : List Tree}, o = .success children i → goal.Nullable p.grammar := by
  induction h with
  | @rule name r _ _ hr _ ih =>
      intro children same
      obtain ⟨production, hp, all⟩ := ih same
      have isNullable : r.nullable p.grammar.nullable = true := by
        rw [Rule.nullable, List.any_eq_true]
        exact ⟨production, hp, List.all_eq_true.mpr all⟩
      have closed := nullableNames_closed p.grammar.rules r
        (Grammar.mem_rules_of_rule? hr) isNullable
      rw [Grammar.name_of_rule? hr] at closed
      exact closed
  | exhausted => intro children same; cases same
  | taken _ _ ih =>
      intro children same
      exact ⟨_, List.mem_cons_self, ih same⟩
  | passed _ _ _ ih =>
      intro children same
      obtain ⟨production, hp, all⟩ := ih same
      exact ⟨production, List.mem_cons_of_mem _ hp, all⟩
  | done => intro children _ e he; exact absurd he List.not_mem_nil
  | next first rest ihFirst ihRest =>
      intro children same
      obtain ⟨more, rfl, -⟩ := Outcome.after_eq_success.mp same
      -- the first element ends between the start and the end, which are equal
      have here : _ = _ := Nat.le_antisymm first.le_stop rest.le_stop
      subst here
      intro e he
      rcases List.mem_cons.mp he with rfl | later
      · exact ihFirst rfl
      · exact ihRest rfl e later
  | stuck _ fails _ =>
      intro children same
      subst same
      exact absurd trivial fails
  | @once _ i _ inner ih =>
      intro children same
      obtain ⟨trees, rfl, -⟩ := Outcome.node_eq_success.mp same
      have here : i = p.afterBlanks tokens i :=
        Nat.le_antisymm (le_afterBlanks p tokens i) inner.le_stop
      exact @ih trees (by rw [← here])
  | plain _ ih =>
      intro children same
      have known := ih same
      simp only [Goal.Nullable] at known
      simp [Goal.Nullable, Element.nullable, known]
  | optional _ _ => intro children _; simp [Goal.Nullable, Element.nullable]
  | repeatable _ _ => intro children _; simp [Goal.Nullable, Element.nullable]
  | again _ _ _ _ _ => intro children _; trivial
  | last _ _ => intro children _; trivial
  | ended _ _ _ => intro children _; trivial
  | @token _ _ i _ _ _ _ =>
      intro children same
      have skip := le_afterBlanks p tokens i
      simp only [Outcome.success.injEq] at same
      omega
  | mismatch _ _ =>
      intro children same
      split at same
      · rename_i marked
        simp [Goal.Nullable, Element.nullable, marked]
      · cases same
  | upTo inverse _ _ _ _ => intro children _; simp [Goal.Nullable, Element.nullable, inverse]
  | unterminated _ _ => intro children same; cases same

/-! ### At most one outcome -/

/-- **A goal has at most one outcome at an index.** -/
theorem deterministic {goal : Goal} {i : Nat} {o : Outcome} (h : Derives p tokens goal i o) :
    ∀ {o' : Outcome}, Derives p tokens goal i o' → o = o' := by
  induction h with
  | rule hr _ ih =>
      intro o' h'
      obtain ⟨r', hr', inner⟩ := h'.of_rule
      rw [hr] at hr'
      cases hr'
      exact ih inner
  | exhausted => intro o' h'; cases h'; rfl
  | taken _ decides ih =>
      intro o' h'
      cases h' with
      | taken first _ => exact ih first
      | passed first _ => exact absurd (ih first) decides
  | passed _ _ ihFirst ihRest =>
      intro o' h'
      cases h' with
      | taken first decides => exact absurd (ihFirst first).symm decides
      | passed _ rest => exact ihRest rest
  | done => intro o' h'; cases h'; rfl
  | next _ _ ihFirst ihRest =>
      intro o' h'
      cases h' with
      | next first rest =>
          cases ihFirst first
          rw [ihRest rest]
      | stuck first fails =>
          cases ihFirst first
          exact absurd trivial fails
  | stuck _ fails ih =>
      intro o' h'
      cases h' with
      | next first _ =>
          cases ih first
          exact absurd trivial fails
      | stuck first _ => exact ih first
  | once _ ih =>
      intro o' h'
      cases h' with
      | once inner => rw [ih inner]
  | plain _ ih =>
      intro o' h'
      cases h' with
      | plain inner => exact ih inner
  | optional _ ih =>
      intro o' h'
      cases h' with
      | optional inner => rw [ih inner]
  | repeatable _ ih =>
      intro o' h'
      cases h' with
      | repeatable inner => exact ih inner
  | again _ more _ ihFirst ihRest =>
      intro o' h'
      cases h' with
      | again first _ rest =>
          cases ihFirst first
          rw [ihRest rest]
      | last first =>
          cases ihFirst first
          exact absurd more (Nat.lt_irrefl _)
      | ended first fails =>
          cases ihFirst first
          exact absurd trivial fails
  | last _ ih =>
      intro o' h'
      cases h' with
      | again first more _ =>
          cases ih first
          exact absurd more (Nat.lt_irrefl _)
      | last first => exact ih first
      | ended first fails =>
          cases ih first
          exact absurd trivial fails
  | ended _ fails ih =>
      intro o' h'
      cases h' with
      | again first _ _ =>
          cases ih first
          exact absurd trivial fails
      | last first =>
          cases ih first
          exact absurd trivial fails
      | ended first _ => rw [ih first]
  | token direct found accepts =>
      intro o' h'
      cases h' with
      | token _ found' _ =>
          rw [found] at found'
          cases found'
          rfl
      | mismatch _ none => rw [none _ found] at accepts; cases accepts
      | upTo inverse => rw [inverse] at direct; cases direct
      | unterminated inverse => rw [inverse] at direct; cases direct
  | mismatch direct none =>
      intro o' h'
      cases h' with
      | token _ found accepts => rw [none _ found] at accepts; cases accepts
      | mismatch => rfl
      | upTo inverse => rw [inverse] at direct; cases direct
      | unterminated inverse => rw [inverse] at direct; cases direct
  | @upTo _ _ _ j _ inverse le found accepts before =>
      intro o' h'
      cases h' with
      | token direct => rw [inverse] at direct; cases direct
      | mismatch direct => rw [inverse] at direct; cases direct
      | @upTo _ _ _ k _ _ le' found' accepts' before' =>
          -- the first accepted token is the same one
          have same : j = k := by
            rcases Nat.lt_trichotomy j k with lt | same | gt
            · rw [before' j le lt _ found] at accepts; cases accepts
            · exact same
            · rw [before k le' gt _ found'] at accepts'; cases accepts'
          rw [same]
      | unterminated _ none =>
          have inside := (List.getElem?_eq_some_iff.mp found).1
          rw [none j le inside _ found] at accepts; cases accepts
  | unterminated inverse none =>
      intro o' h'
      cases h' with
      | token direct => rw [inverse] at direct; cases direct
      | mismatch direct => rw [inverse] at direct; cases direct
      | upTo _ le found accepts =>
          have inside := (List.getElem?_eq_some_iff.mp found).1
          rw [none _ le inside _ found] at accepts; cases accepts
      | unterminated => rfl

end Derives

end GrammarKit.Parser
