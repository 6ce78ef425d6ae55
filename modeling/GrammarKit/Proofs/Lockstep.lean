import GrammarKit.Proofs.OrderedChoice

/-!
# Two parses in lockstep

The same grammar over two lists of tokens.  If the indices of the two lists
correspond in such a way that blanks lead to corresponding indices, no terminal
can tell corresponding tokens apart and searches for a terminator go the same
way, then the two parses make the same decisions: both answers are the same
fault, both miss a terminator from corresponding indices on, or they correspond
tree by tree, and their frontiers have the same terminals at corresponding indices.

## Main Definitions

* `Parser.Alignment` — indices and trees of two parses that correspond
* `Parser.Alignment.Agree` — answers that correspond
* `Parser.Correspondence` — an alignment in which whole parses begin alike
* `Parser.Lockstep` — a correspondence for a grammar without consume-until terminals

## Main Statements

* `Parser.Alignment.applyRule` — rules at corresponding indices agree
* `Parser.Correspondence.parse` — so do whole parses
* `Parser.Lockstep.parse` — without consume-until terminals none is missing

## Design Notes

What corresponds is left open: indices may be shifted by tokens that one of the
lists does not have, and trees may differ in such tokens.  Two orders must match,
and both are comparisons with an index behind blanks: the zero-length test of a
repetition and the comparison of frontiers.

Consume-until terminals look at blanks as well.  A correspondence that moves blanks
has nothing to say about them, so a lockstep rules them out instead.
-/

namespace GrammarKit

/-! ### Grammars without consume-until terminals -/

/-- Whether an element is a consume-until terminal. -/
def Element.isUntil : Element → Bool
  | .reference _ _ _ => false
  | .terminal t _ => t.inverse

/-- The element stands in some rule of the grammar. -/
def Grammar.Uses (g : Grammar) (e : Element) : Prop :=
  ∃ r ∈ g.rules, ∃ production ∈ r.alternatives, e ∈ production

/-- A grammar without consume-until terminals. -/
def Grammar.UntilFree (g : Grammar) : Prop :=
  ∀ r ∈ g.rules, ∀ production ∈ r.alternatives, ∀ e ∈ production, e.isUntil = false

instance (g : Grammar) : Decidable g.UntilFree :=
  inferInstanceAs (Decidable (∀ r ∈ g.rules, ∀ production ∈ r.alternatives,
    ∀ e ∈ production, e.isUntil = false))

/-- Its terminals look for a single token. -/
theorem Grammar.UntilFree.direct {g : Grammar} (untilFree : g.UntilFree) {t : Terminal}
    {marked : Bool} (used : g.Uses (.terminal t marked)) : t.inverse = false := by
  obtain ⟨r, isRule, production, isAlternative, isElement⟩ := used
  exact untilFree r isRule production isAlternative _ isElement

namespace Parser

/-! ### Computations side by side -/

/-- Two computations end in related interrupts, or in results that are related. -/
def Both {α β : Type} (E : Interrupt → Interrupt → Prop) (R : α → β → Prop)
    (x : Traced Interrupt α) (y : Traced Interrupt β) : Prop :=
  (∃ e e', x.outcome = .error e ∧ y.outcome = .error e' ∧ E e e') ∨
    ∃ a b, x.outcome = .ok a ∧ y.outcome = .ok b ∧ R a b

section Both

variable {α β α' β' : Type} {E : Interrupt → Interrupt → Prop} {R : α → β → Prop}
  {S : α' → β' → Prop}

theorem both_pure {a : α} {b : β} (h : R a b) : Both E R (pure a) (pure b) :=
  Or.inr ⟨a, b, rfl, rfl, h⟩

theorem both_fail {e e' : Interrupt} (h : E e e') : Both E R (Traced.fail e) (Traced.fail e') :=
  Or.inl ⟨e, e', rfl, rfl, h⟩

theorem both_bind {x : Traced Interrupt α} {y : Traced Interrupt β}
    {f : α → Traced Interrupt α'} {g : β → Traced Interrupt β'}
    (first : Both E R x y) (further : ∀ a b, R a b → Both E S (f a) (g b)) :
    Both E S (x >>= f) (y >>= g) := by
  unfold Both
  rw [Traced.outcome_bind, Traced.outcome_bind]
  rcases first with ⟨e, e', hx, hy, related⟩ | ⟨a, b, hx, hy, related⟩
  · rw [hx, hy]
    exact Or.inl ⟨e, e', rfl, rfl, related⟩
  · rw [hx, hy]
    exact further a b related

/-- Writing lines does not set two computations apart. -/
theorem both_note {enabled enabled' : Bool} {line line' : Unit → String}
    {x : Traced Interrupt α} {y : Traced Interrupt β} (h : Both E R x y) :
    Both E R (Traced.note enabled line >>= fun _ => x)
      (Traced.note enabled' line' >>= fun _ => y) := by
  unfold Both
  rw [Traced.outcome_bind, Traced.outcome_bind]
  exact h

end Both

/-! ### Alignments -/

/-- The tokens that a search for a terminator passes. -/
def passed (tokens : List Token) (t : Terminal) (position : Nat) : List Token :=
  (tokens.drop position).takeWhile fun token => !t.accepts token

/-- **An alignment of two parses** of one grammar: indices and trees that correspond.
Where the parses begin is left open. -/
structure Alignment (p q : Parser) (ts us : List Token) where
  /-- Indices that correspond. -/
  Here : Nat → Nat → Prop
  /-- Lists of trees that correspond. -/
  Like : List Tree → List Tree → Prop
  grammar : q.grammar = p.grammar
  maxDepth : q.maxDepth = p.maxDepth
  last : Here ts.length us.length
  /-- Blanks lead from corresponding indices to corresponding ones. -/
  skip : ∀ {i j}, Here i j → Here (p.afterBlanks ts i) (q.afterBlanks us j)
  blanks : ∀ {i j}, Here i j →
    Like ((p.blanksAt ts i).map Tree.leaf) ((q.blanksAt us j).map Tree.leaf)
  /-- An index behind blanks is before another one in both lists or in neither. -/
  order : ∀ {i j k l}, Here i j → Here k l →
    (p.afterBlanks ts i < k ↔ q.afterBlanks us j < l)
  /-- Behind blanks there are tokens that no terminal can tell apart, or both lists
  are at an end. -/
  token : ∀ {i j}, Here i j →
    (ts[p.afterBlanks ts i]? = none ∧ us[q.afterBlanks us j]? = none) ∨
    ∃ a b, ts[p.afterBlanks ts i]? = some a ∧ us[q.afterBlanks us j]? = some b ∧
      (∀ t marked, p.grammar.Uses (.terminal t marked) → t.accepts a = t.accepts b) ∧
      Like [.leaf a] [.leaf b] ∧ Here (p.afterBlanks ts i + 1) (q.afterBlanks us j + 1)
  /-- A search for a terminator is in vain in both lists, or passes tokens that
  correspond. -/
  search : ∀ {t marked i j}, p.grammar.Uses (.terminal t marked) → t.inverse = true → Here i j →
    (¬ i + (passed ts t i).length < ts.length ∧ ¬ j + (passed us t j).length < us.length) ∨
    (i + (passed ts t i).length < ts.length ∧ j + (passed us t j).length < us.length ∧
      Like ((passed ts t i).map Tree.leaf) ((passed us t j).map Tree.leaf) ∧
      Here (i + (passed ts t i).length) (j + (passed us t j).length))
  nil : Like [] []
  append : ∀ {cs ds cs' ds'}, Like cs ds → Like cs' ds' → Like (cs ++ cs') (ds ++ ds')
  node : ∀ {name cs ds}, Like cs ds → Like [.node name cs none] [.node name ds none]

namespace Alignment

variable {p q : Parser} {ts us : List Token} (L : Alignment p q ts us)

/-- Interrupts that correspond: the same fault, or the same terminator missing from
corresponding indices on. -/
inductive Interrupts : Interrupt → Interrupt → Prop where
  | fault (f : Fault) : Interrupts (.fault f) (.fault f)
  | unterminated {t : Terminal} {marked : Bool} {i j : Nat} :
      p.grammar.Uses (.terminal t marked) → t.inverse = true → L.Here i j →
      Interrupts (.unterminated i t) (.unterminated j t)

/-- Matches that correspond. -/
structure Segments (s s' : Segment) : Prop where
  children : L.Like s.children s'.children
  stop : L.Here s.stop s'.stop

/-- Frontiers that correspond: the same terminals at corresponding indices. -/
inductive Fronts : Frontier → Frontier → Prop where
  | unreached : Fronts .unreached .unreached
  | reached {i j : Nat} {terminals : List Terminal} : L.Here i j →
      Fronts (.reached (p.afterBlanks ts i) terminals) (.reached (q.afterBlanks us j) terminals)

/-- **Answers that correspond.** -/
structure Agree (a b : Attempt) : Prop where
  segment : Option.Rel L.Segments a.segment? b.segment?
  frontier : L.Fronts a.frontier b.frontier

variable {L}

theorem Fronts.join {f g f' g' : Frontier} (first : L.Fronts f g) (second : L.Fronts f' g') :
    L.Fronts (f.join f') (g.join g') := by
  cases first with
  | unreached =>
      rw [Frontier.unreached_join, Frontier.unreached_join]
      exact second
  | @reached i j terminals here =>
      cases second with
      | unreached => exact .reached here
      | @reached k l more there =>
          have less := L.order here (L.skip there)
          have greater := L.order there (L.skip here)
          simp only [Frontier.join]
          by_cases before : p.afterBlanks ts i < p.afterBlanks ts k
          · rw [if_pos before, if_pos (less.mp before)]
            exact .reached there
          · rw [if_neg before, if_neg (fun h => before (less.mpr h))]
            by_cases behind : p.afterBlanks ts k < p.afterBlanks ts i
            · rw [if_pos behind, if_pos (greater.mp behind)]
              exact .reached here
            · rw [if_neg behind, if_neg (fun h => behind (greater.mpr h))]
              exact .reached here

namespace Agree

variable {a b a' b' : Attempt}

theorem success {children children' : List Tree} {stop stop' : Nat}
    (like : L.Like children children') (here : L.Here stop stop') :
    L.Agree (.success children stop) (.success children' stop') :=
  ⟨.some ⟨like, here⟩, .unreached⟩

theorem after {children children' : List Tree} {f f' : Frontier} (h : L.Agree a b)
    (like : L.Like children children') (fronts : L.Fronts f f') :
    L.Agree (a.after children f) (b.after children' f') := by
  obtain ⟨_ | s, g⟩ := a
  all_goals obtain ⟨_ | s', g'⟩ := b
  all_goals obtain ⟨segment, frontier⟩ := h
  all_goals cases segment
  · exact ⟨.none, fronts.join frontier⟩
  · rename_i related
    exact ⟨.some ⟨L.append like related.children, related.stop⟩, fronts.join frontier⟩

theorem orStay {i j : Nat} (h : L.Agree a b) (here : L.Here i j) :
    L.Agree (a.orStay i) (b.orStay j) := by
  obtain ⟨_ | s, g⟩ := a
  all_goals obtain ⟨_ | s', g'⟩ := b
  all_goals obtain ⟨segment, frontier⟩ := h
  all_goals cases segment
  · exact ⟨.some ⟨L.nil, here⟩, frontier⟩
  · rename_i related
    exact ⟨.some related, frontier⟩

end Agree

/-! ### The parts of the parser -/

/-- Two ways to apply rules that agree at corresponding indices. -/
def Applies (L : Alignment p q ts us) (apply apply' : Apply) : Prop :=
  ∀ name {i j}, L.Here i j → Both L.Interrupts L.Agree (apply name i) (apply' name j)

variable {apply apply' : Apply}

theorem matchOnce (applies : L.Applies apply apply') (name : String) {i j : Nat}
    (here : L.Here i j) :
    Both L.Interrupts L.Agree (p.matchOnce ts apply name i) (q.matchOnce us apply' name j) := by
  refine both_bind (applies name (L.skip here)) fun a b agree => both_pure ?_
  obtain ⟨_ | s, g⟩ := a
  all_goals obtain ⟨_ | s', g'⟩ := b
  all_goals obtain ⟨segment, frontier⟩ := agree
  all_goals cases segment
  · exact ⟨.none, frontier⟩
  · rename_i related
    exact ⟨.some ⟨L.append (L.blanks here) (L.node related.children), related.stop⟩, frontier⟩

theorem matchMany (applies : L.Applies apply apply') (name : String) (i : Nat) {j : Nat}
    (here : L.Here i j) :
    Both L.Interrupts L.Agree (p.matchMany ts apply name i) (q.matchMany us apply' name j) := by
  rw [Parser.matchMany, Parser.matchMany]
  refine both_bind (L.matchOnce applies name here) fun a b agree => ?_
  obtain ⟨_ | s, g⟩ := a
  all_goals obtain ⟨_ | s', g'⟩ := b
  all_goals obtain ⟨segment, frontier⟩ := agree
  all_goals cases segment
  · exact both_pure ⟨.some ⟨L.nil, here⟩, frontier⟩
  · rename_i related
    -- a round moved in both lists or in neither
    have moved := L.order here related.stop
    have inside := L.order here L.last
    simp only [afterBlanks] at moved inside
    simp only
    by_cases goesOn : i + (p.blanksAt ts i).length < s.stop ∧
        i + (p.blanksAt ts i).length < ts.length
    · rw [if_pos goesOn, if_pos ⟨moved.mp goesOn.1, inside.mp goesOn.2⟩]
      refine both_bind (matchMany applies name s.stop related.stop) fun a b agree => ?_
      exact both_pure (agree.after related.children frontier)
    · rw [if_neg goesOn, if_neg fun both => goesOn ⟨moved.mpr both.1, inside.mpr both.2⟩]
      exact both_pure ⟨.some related, frontier⟩
termination_by ts.length - i
decreasing_by omega

theorem matchToken {t : Terminal} {marked : Bool} (used : p.grammar.Uses (.terminal t marked))
    {i j : Nat} (here : L.Here i j) : L.Agree (p.matchToken ts t i) (q.matchToken us t j) := by
  have failed : L.Agree ⟨none, .reached (p.afterBlanks ts i) [t]⟩
      ⟨none, .reached (q.afterBlanks us j) [t]⟩ := ⟨.none, .reached here⟩
  rcases L.token here with ⟨ended, ended'⟩ | ⟨a, b, stands, stands', same, like, behind⟩
  · simp only [afterBlanks] at ended ended' failed
    simp only [Parser.matchToken, ended, ended']
    exact failed
  · simp only [afterBlanks] at stands stands' failed behind
    simp only [Parser.matchToken, stands, stands', same t marked used]
    split
    · exact .success (L.append (L.blanks here) like) behind
    · exact failed

/-- A search ends at corresponding indices, or the terminator is missing from
corresponding indices on. -/
theorem matchUntil {t : Terminal} {marked : Bool} (used : p.grammar.Uses (.terminal t marked))
    (inverse : t.inverse = true) {i j : Nat} (here : L.Here i j) :
    Both L.Interrupts L.Agree (Parser.matchUntil ts t i) (Parser.matchUntil us t j) := by
  unfold Parser.matchUntil
  rcases L.search used inverse here with ⟨absent, absent'⟩ | ⟨found, found', like, behind⟩
  · unfold passed at absent absent'
    simp only [if_neg absent, if_neg absent']
    exact both_fail (.unterminated used inverse here)
  · unfold passed at found found' like behind
    simp only [if_pos found, if_pos found']
    exact both_pure (.success like behind)

theorem matchElement (applies : L.Applies apply apply') {e : Element} (used : p.grammar.Uses e)
    {i j : Nat} (here : L.Here i j) :
    Both L.Interrupts L.Agree (p.matchElement ts apply e i) (q.matchElement us apply' e j) := by
  cases e with
  | reference name optional repeatable =>
      cases repeatable with
      | true => exact L.matchMany applies name i here
      | false =>
          refine both_bind (L.matchOnce applies name here) fun a b agree =>
            both_pure ?_
          cases optional with
          | true => exact agree.orStay here
          | false => exact agree
  | terminal t marked =>
      cases inverse : t.inverse with
      | true =>
          simp only [Parser.matchElement, inverse, if_true]
          exact L.matchUntil used inverse here
      | false =>
          have agree := L.matchToken used here
          simp only [Parser.matchElement, inverse, Bool.false_eq_true, if_false]
          refine both_pure ?_
          cases marked with
          | true => exact agree.orStay here
          | false => exact agree

theorem matchProduction (applies : L.Applies apply apply') :
    ∀ (production : Production) {i j : Nat}, (∀ e ∈ production, p.grammar.Uses e) → L.Here i j →
      Both L.Interrupts L.Agree (p.matchProduction ts apply production i)
        (q.matchProduction us apply' production j) := by
  intro production
  induction production with
  | nil =>
      intro i j _ here
      exact both_pure (.success L.nil here)
  | cons e rest ih =>
      intro i j used here
      rw [Parser.matchProduction, Parser.matchProduction]
      refine both_bind (L.matchElement applies (used e List.mem_cons_self) here)
        fun a b agree => ?_
      obtain ⟨_ | s, g⟩ := a
      all_goals obtain ⟨_ | s', g'⟩ := b
      all_goals obtain ⟨segment, frontier⟩ := agree
      all_goals cases segment
      · exact both_pure ⟨.none, frontier⟩
      · rename_i related
        have others := ih (fun e' mem => used e' (List.mem_cons_of_mem e mem)) related.stop
        refine both_bind others fun a b agree => ?_
        exact both_pure (agree.after related.children frontier)

theorem matchAlternatives (applies : L.Applies apply apply') (label label' : Nat → String)
    {i j : Nat} (here : L.Here i j) :
    ∀ (alternatives : List Production) (number : Nat),
      (∀ production ∈ alternatives, ∀ e ∈ production, p.grammar.Uses e) →
      Both L.Interrupts L.Agree (p.matchAlternatives ts apply label i number alternatives)
        (q.matchAlternatives us apply' label' j number alternatives) := by
  intro alternatives
  induction alternatives with
  | nil =>
      intro number _
      exact both_pure ⟨.none, .unreached⟩
  | cons production rest ih =>
      intro number used
      rw [Parser.matchAlternatives, Parser.matchAlternatives]
      refine both_note ?_
      refine both_bind (L.matchProduction applies production
        (used production List.mem_cons_self) here) fun a b agree => ?_
      obtain ⟨_ | s, g⟩ := a
      all_goals obtain ⟨_ | s', g'⟩ := b
      all_goals obtain ⟨segment, frontier⟩ := agree
      all_goals cases segment
      · have others := ih (number + 1) fun q hq => used q (List.mem_cons_of_mem production hq)
        refine both_bind others fun a b agree => ?_
        exact both_pure ⟨agree.segment, frontier.join agree.frontier⟩
      · rename_i related
        exact both_pure ⟨.some related, frontier⟩

/-! ### Rules and whole parses -/

/-- **Rules at corresponding indices agree**, with the same levels left. -/
theorem applyRule (L : Alignment p q ts us) :
    ∀ levels depth, L.Applies (p.applyRule ts levels depth) (q.applyRule us levels depth) := by
  intro levels
  induction levels with
  | zero =>
      intro depth name i j _
      rw [Parser.applyRule, Parser.applyRule, L.maxDepth]
      exact both_fail (.fault _)
  | succ levels ih =>
      intro depth name i j here
      rw [Parser.applyRule, Parser.applyRule, L.grammar]
      cases hr : p.grammar.rule? name with
      | none => exact both_fail (.fault _)
      | some r =>
          have used : ∀ production ∈ r.alternatives, ∀ e ∈ production, p.grammar.Uses e :=
            fun production isAlternative e isElement =>
              ⟨r, Grammar.mem_rules_of_rule? hr, production, isAlternative, isElement⟩
          refine both_bind (L.matchAlternatives (ih (depth + 1)) _ _ here _ 1 used)
            fun a b agree => ?_
          exact both_note (both_pure agree)

/-- **Attempts at corresponding indices agree.** -/
theorem attempt (L : Alignment p q ts us) (name : String) {i j : Nat} (here : L.Here i j) :
    Both L.Interrupts L.Agree (p.attempt ts name i) (q.attempt us name j) := by
  rw [Parser.attempt, Parser.attempt, L.maxDepth]
  exact L.applyRule _ 0 name here

/-- **Terms that correspond**: both have matched, both are failed terms of
frontiers that correspond, or both miss a terminator. -/
inductive Terms (L : Alignment p q ts us) : Term → Term → Prop where
  | matched {children children' : List Tree} : L.Like children children' →
      Terms L ⟨p.grammar.root, children, none⟩ ⟨p.grammar.root, children', none⟩
  | failed {f g : Frontier} : L.Fronts f g →
      Terms L (mismatchTerm ts p.grammar.root f) (mismatchTerm us p.grammar.root g)
  | unterminated {t : Terminal} {marked : Bool} {i j : Nat} :
      p.grammar.Uses (.terminal t marked) → t.inverse = true → L.Here i j →
      Terms L (unterminatedTerm ts p.grammar.root i t) (unterminatedTerm us p.grammar.root j t)

/-- Blanks behind the root belong to it; what else is left over is left over in
both lists. -/
theorem finish {a b : Attempt} (agree : L.Agree a b) :
    ∃ term term', (p.finish ts a).outcome = .ok term ∧ (q.finish us b).outcome = .ok term' ∧
      L.Terms term term' := by
  obtain ⟨_ | s, g⟩ := a
  all_goals obtain ⟨_ | s', g'⟩ := b
  all_goals obtain ⟨segment, frontier⟩ := agree
  all_goals cases segment
  · refine ⟨_, mismatchTerm us p.grammar.root g', rfl, ?_, .failed frontier⟩
    rw [Parser.finish, L.grammar]
    rfl
  · rename_i related
    rcases L.token related.stop with ⟨ended, ended'⟩ | ⟨t, t', stands, stands', -, -, -⟩
    · refine ⟨_, _, ?_, ?_, .matched (L.append related.children (L.blanks related.stop))⟩
      · simp only [afterBlanks] at ended
        simp [Parser.finish, ended]
      · simp only [afterBlanks] at ended'
        simp [Parser.finish, ended', L.grammar]
    · have leftOver : L.Fronts (.reached (p.afterBlanks ts s.stop) [])
          (.reached (q.afterBlanks us s'.stop) []) := .reached related.stop
      refine ⟨_, _, ?_, ?_, .failed (frontier.join leftOver)⟩
      · simp only [afterBlanks] at stands ⊢
        simp [Parser.finish, stands, Traced.outcome_bind, Except.bind]
      · simp only [afterBlanks] at stands' ⊢
        simp [Parser.finish, stands', Traced.outcome_bind, Except.bind, L.grammar]

end Alignment

/-- **A correspondence between two parses**: an alignment in which their first tokens
correspond. -/
structure Correspondence (p q : Parser) (ts us : List Token) extends Alignment p q ts us where
  first : Here 0 0

/-- **Two parses that correspond** have the same fault, or terms that correspond. -/
theorem Correspondence.parse {p q : Parser} {ts us : List Token} (L : Correspondence p q ts us) :
    (∃ f, (p.parse ts).outcome = .error f ∧ (q.parse us).outcome = .error f) ∨
      ∃ term term', (p.parse ts).outcome = .ok term ∧ (q.parse us).outcome = .ok term' ∧
        L.Terms term term' := by
  rw [Parser.parse, Parser.parse, conclude, conclude, Traced.outcome_recover,
    Traced.outcome_recover, L.grammar]
  rcases L.attempt p.grammar.root L.first with ⟨e, e', hx, hy, related⟩ | ⟨a, b, hx, hy, agree⟩
  · rw [hx, hy]
    cases related with
    | fault f => exact Or.inl ⟨f, rfl, rfl⟩
    | unterminated used inverse here =>
        refine Or.inr ⟨_, _, ?_, ?_, .unterminated used inverse here⟩
        · simp [Traced.outcome_bind, Except.bind]
        · simp [Traced.outcome_bind, Except.bind]
  · rw [hx, hy]
    exact Or.inr (L.finish agree)

/-! ### Without consume-until terminals -/

/-- **A correspondence for a grammar without consume-until terminals**, where there is
nothing to search for. -/
structure Lockstep (p q : Parser) (ts us : List Token) extends Correspondence p q ts us where
  untilFree : p.grammar.UntilFree
  search := fun used inverse _ => absurd inverse (by simp [untilFree.direct used])

namespace Lockstep

variable {p q : Parser} {ts us : List Token}

/-- **Terms that correspond**: both have matched, or both are failed terms of
frontiers that correspond. -/
inductive Terms (L : Lockstep p q ts us) : Term → Term → Prop where
  | matched {children children' : List Tree} : L.Like children children' →
      Terms L ⟨p.grammar.root, children, none⟩ ⟨p.grammar.root, children', none⟩
  | failed {f g : Frontier} : L.Fronts f g →
      Terms L (mismatchTerm ts p.grammar.root f) (mismatchTerm us p.grammar.root g)

/-- **Two parses in lockstep** have the same fault, or terms that correspond. -/
theorem parse (L : Lockstep p q ts us) :
    (∃ f, (p.parse ts).outcome = .error f ∧ (q.parse us).outcome = .error f) ∨
      ∃ term term', (p.parse ts).outcome = .ok term ∧ (q.parse us).outcome = .ok term' ∧
        L.Terms term term' := by
  rcases L.toCorrespondence.parse with faulty | ⟨term, term', ok, ok', terms⟩
  · exact Or.inl faulty
  · refine Or.inr ⟨term, term', ok, ok', ?_⟩
    cases terms with
    | matched like => exact .matched like
    | failed fronts => exact .failed fronts
    | unterminated used inverse _ =>
        rw [L.untilFree.direct used] at inverse
        cases inverse

end Lockstep

end Parser

end GrammarKit
