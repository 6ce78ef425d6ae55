import GrammarKit.Proofs.BlankRemoval
import Mathlib.Data.List.Forall2

/-!
# The trees of a grammar

Where no token is blank, the trees of a success are made by the productions of
the grammar and nothing else: a leaf for each terminal, a node for each
reference.  Read without order and without indices, a goal **builds** some trees,
and what is below them is found by inversion.

Two parses of lists of tokens that no terminal can tell apart build trees of the
same **shape**.

## Main Definitions

* `Parser.Builds` — the trees that a goal may build
* `Production.Spells` — the words of a production, given the words of the rules
* `Tree.shapeIn` — trees without their tokens

## Main Statements

* `Parser.Derives.builds` — a success builds trees of its goal
* `Parser.Builds.accepted` — every leaf is a token that some terminal accepts
* `Parser.Builds.word_of_closed` — a family of languages that the productions do not
  lead out of holds the words of all trees
* `Parser.Builds.findIn?_eq_none` — only rules that are referred to are below
* `Parser.parse_alike` — tokens that no terminal tells apart are parsed alike
-/

namespace GrammarKit

/-! ### Words of productions -/

/-- The words of an element, given the words of each rule. -/
def Element.Spells (words : String → List Token → Prop) : Element → List Token → Prop
  | .reference name optional false, w => words name w ∨ optional = true ∧ w = []
  | .reference name _ true, w =>
      ∃ rounds : List (List Token), w = rounds.flatten ∧ ∀ u ∈ rounds, words name u
  | .terminal t optional, w =>
      (∃ found, w = [found] ∧ t.accepts found = true) ∨ optional = true ∧ w = []

/-- The words of a production, given the words of each rule. -/
def Production.Spells (words : String → List Token → Prop) : Production → List Token → Prop
  | [], w => w = []
  | e :: rest, w => ∃ u v, w = u ++ v ∧ e.Spells words u ∧ Production.Spells words rest v

section Spells

variable {words : String → List Token → Prop} {name : String} {w : List Token}

theorem Element.spells_rule : (Element.rule name).Spells words w ↔ words name w := by
  simp [Element.rule, Element.Spells]

theorem Element.spells_optionalRule :
    (Element.optionalRule name).Spells words w ↔ words name w ∨ w = [] := by
  simp [Element.optionalRule, Element.Spells]

theorem Element.spells_one {t : Terminal} :
    (Element.one t).Spells words w ↔ ∃ found, w = [found] ∧ t.accepts found = true := by
  simp [Element.one, Element.Spells]

end Spells

/-- What a production of a rule makes of words of the rules is a word of the rule. -/
def Grammar.Closed (g : Grammar) (words : String → List Token → Prop) : Prop :=
  ∀ name productions, (g.rule? name).map Rule.alternatives = some productions →
    ∀ production ∈ productions, ∀ w, production.Spells words w → words name w

namespace Parser

/-! ### Trees that a goal may build -/

/-- **The trees that a goal may build**, where no token is blank. -/
inductive Builds (g : Grammar) : Goal → List Tree → Prop where
  | rule {name : String} {r : Rule} {ts : List Tree} :
      g.rule? name = some r → Builds g (.alternatives r.alternatives) ts → Builds g (.rule name) ts
  | alternatives {productions : List Production} {production : Production} {ts : List Tree} :
      production ∈ productions → Builds g (.sequence production) ts →
      Builds g (.alternatives productions) ts
  | done : Builds g (.sequence []) []
  | next {e : Element} {rest : Production} {ts us : List Tree} :
      Builds g (.element e) ts → Builds g (.sequence rest) us →
      Builds g (.sequence (e :: rest)) (ts ++ us)
  | once {name : String} {ts : List Tree} :
      Builds g (.rule name) ts → Builds g (.once name) [.node name ts none]
  | single {name : String} {optional : Bool} {ts : List Tree} :
      Builds g (.once name) ts → Builds g (.element (.reference name optional false)) ts
  | leftOut {name : String} : Builds g (.element (.reference name true false)) []
  | repeatable {name : String} {marked : Bool} {ts : List Tree} :
      Builds g (.many name) ts → Builds g (.element (.reference name marked true)) ts
  | ended {name : String} : Builds g (.many name) []
  | again {name : String} {ts us : List Tree} :
      Builds g (.once name) ts → Builds g (.many name) us → Builds g (.many name) (ts ++ us)
  | token {t : Terminal} {marked : Bool} {found : Token} :
      g.Uses (.terminal t marked) → t.accepts found = true →
      Builds g (.element (.terminal t marked)) [.leaf found]
  | omitted {t : Terminal} : Builds g (.element (.terminal t true)) []

/-- What a goal is made of stands in the grammar. -/
def Goal.Within (g : Grammar) : Goal → Prop
  | .rule _ => True
  | .alternatives productions => ∀ production ∈ productions, ∀ e ∈ production, g.Uses e
  | .sequence elements => ∀ e ∈ elements, g.Uses e
  | .element e => g.Uses e
  | .once _ => True
  | .many _ => True

/-- Whether all rules that a goal refers to have a property. -/
def Goal.Refers (Good : String → Prop) : Goal → Prop
  | .rule name => Good name
  | .alternatives productions =>
      ∀ production ∈ productions, ∀ e ∈ production, ∀ name, e.target? = some name → Good name
  | .sequence elements => ∀ e ∈ elements, ∀ name, e.target? = some name → Good name
  | .element e => ∀ name, e.target? = some name → Good name
  | .once name => Good name
  | .many name => Good name

/-- The words of a goal, given the words of each rule. -/
def Goal.Spells (words : String → List Token → Prop) : Goal → List Token → Prop
  | .rule name, w => words name w
  | .alternatives productions, w =>
      ∃ production ∈ productions, Production.Spells words production w
  | .sequence elements, w => Production.Spells words elements w
  | .element e, w => e.Spells words w
  | .once name, w => words name w
  | .many name, w =>
      ∃ rounds : List (List Token), w = rounds.flatten ∧ ∀ u ∈ rounds, words name u

variable {p : Parser} {tokens : List Token}

/-- **A success builds trees of its goal.** -/
theorem Derives.builds {goal : Goal} {i : Nat} {o : Outcome} (h : Derives p tokens goal i o)
    (noBlank : ∀ t ∈ tokens, t.isBlank p.blankTypes = false) (untilFree : p.grammar.UntilFree) :
    goal.Within p.grammar → ∀ {children : List Tree} {j : Nat}, o = .success children j →
      Builds p.grammar goal children := by
  have direct : ∀ {t : Terminal} {marked : Bool}, p.grammar.Uses (.terminal t marked) →
      t.inverse = false := by
    rintro t marked ⟨r, isRule, production, isAlternative, mem⟩
    exact untilFree r isRule production isAlternative _ mem
  induction h with
  | @rule name r _ _ hr _ ih =>
      intro _ children j same
      exact .rule hr (ih (fun production isAlternative e mem =>
        ⟨r, Grammar.mem_rules_of_rule? hr, production, isAlternative, mem⟩) same)
  | exhausted => intro _ children j same; cases same
  | taken _ _ ih =>
      intro within children j same
      exact .alternatives List.mem_cons_self (ih (within _ List.mem_cons_self) same)
  | passed _ _ _ ih =>
      intro within children j same
      cases ih (fun production mem => within production (List.mem_cons_of_mem _ mem)) same with
      | alternatives mem trees => exact .alternatives (List.mem_cons_of_mem _ mem) trees
  | done => intro _ children j same; cases same; exact .done
  | next _ _ ihFirst ihRest =>
      intro within children j same
      obtain ⟨more, rfl, rfl⟩ := Outcome.after_eq_success.mp same
      exact .next (ihFirst (within _ List.mem_cons_self) rfl)
        (ihRest (fun e mem => within e (List.mem_cons_of_mem _ mem)) rfl)
  | stuck _ fails _ =>
      intro _ children j same
      rw [same] at fails
      exact (fails trivial).elim
  | once _ ih =>
      intro _ children j same
      obtain ⟨inner, rfl, rfl⟩ := Outcome.node_eq_success.mp same
      rw [blanksAt_of_noBlank noBlank]
      exact .once (ih trivial rfl)
  | plain _ ih => intro _ children j same; exact .single (ih trivial same)
  | optional _ ih =>
      intro _ children j same
      rcases Outcome.orStay_eq_success.mp same with rfl | ⟨-, rfl, -⟩
      · exact .single (ih trivial rfl)
      · exact .leftOut
  | repeatable _ ih => intro _ children j same; exact .repeatable (ih trivial same)
  | again _ _ _ ihFirst ihRest =>
      intro _ children j same
      obtain ⟨more, rfl, rfl⟩ := Outcome.after_eq_success.mp same
      exact .again (ihFirst trivial rfl) (ihRest trivial rfl)
  | last _ ih =>
      intro _ children j same
      -- a round without tokens is one more round, with nothing behind it
      have trees := Builds.again (ih trivial same) .ended
      rwa [List.append_nil] at trees
  | ended _ fails _ =>
      intro _ children j same
      rcases Outcome.orStay_eq_success.mp same with rfl | ⟨-, rfl, -⟩
      · exact (fails trivial).elim
      · exact .ended
  | token _ _ accepted =>
      intro within children j same
      cases same
      rw [blanksAt_of_noBlank noBlank]
      exact .token within accepted
  | @mismatch t marked i _ _ =>
      intro _ children j same
      cases marked with
      | true => cases same; exact .omitted
      | false => cases same
  | upTo inverse _ _ _ _ =>
      intro within children j same
      rw [direct within] at inverse
      cases inverse
  | unterminated _ _ => intro _ children j same; cases same

namespace Builds

variable {g : Grammar} {goal : Goal} {ts : List Tree}

/-! ### Inversion -/

/-- The productions that a rule builds by. -/
theorem of_rule {name : String} {alternatives : List Production} (h : Builds g (.rule name) ts)
    (declared : (g.rule? name).map Rule.alternatives = some alternatives) :
    ∃ production ∈ alternatives, Builds g (.sequence production) ts := by
  cases h with
  | rule hr trees =>
      rw [hr, Option.map_some] at declared
      cases declared
      cases trees with
      | alternatives mem inner => exact ⟨_, mem, inner⟩

/-- The production that a rule with a single alternative builds by. -/
theorem of_only {name : String} {production : Production} (h : Builds g (.rule name) ts)
    (declared : (g.rule? name).map Rule.alternatives = some [production]) :
    Builds g (.sequence production) ts := by
  obtain ⟨other, mem, inner⟩ := h.of_rule declared
  rwa [List.mem_singleton.mp mem] at inner

theorem of_nil (h : Builds g (.sequence []) ts) : ts = [] := by
  cases h with
  | done => rfl

/-- A reference that may be left out comes first. -/
theorem of_optional {name : String} {rest : Production}
    (h : Builds g (.sequence (.optionalRule name :: rest)) ts) :
    Builds g (.sequence rest) ts ∨
      ∃ inner us, ts = .node name inner none :: us ∧ Builds g (.rule name) inner ∧
        Builds g (.sequence rest) us := by
  cases h with
  | next first others =>
      cases first with
      | single once =>
          cases once with
          | once inner => exact Or.inr ⟨_, _, rfl, inner, others⟩
      | leftOut => exact Or.inl others

/-- A reference comes first. -/
theorem of_reference {name : String} {rest : Production}
    (h : Builds g (.sequence (.rule name :: rest)) ts) :
    ∃ inner us, ts = .node name inner none :: us ∧ Builds g (.rule name) inner ∧
      Builds g (.sequence rest) us := by
  cases h with
  | next first others =>
      cases first with
      | single once =>
          cases once with
          | once inner => exact ⟨_, _, rfl, inner, others⟩

/-- A terminal comes first. -/
theorem of_terminal {t : Terminal} {rest : Production}
    (h : Builds g (.sequence (.one t :: rest)) ts) :
    ∃ found us, ts = .leaf found :: us ∧ t.accepts found = true ∧ Builds g (.sequence rest) us := by
  cases h with
  | next first others =>
      cases first with
      | token _ accepted => exact ⟨_, _, rfl, accepted, others⟩

/-- A repetition comes last. -/
theorem of_many {name : String} (h : Builds g (.sequence [.many name]) ts) :
    Builds g (.many name) ts := by
  cases h with
  | next first others =>
      rw [others.of_nil, List.append_nil]
      cases first with
      | repeatable trees => exact trees

/-- A repetition is a row of nodes. -/
theorem of_repeated {name : String} (h : Builds g (.many name) ts) :
    ∃ rounds : List (List Tree), ts = rounds.map (fun inner => .node name inner none) ∧
      ∀ inner ∈ rounds, Builds g (.rule name) inner := by
  generalize same : Goal.many name = goal at h
  induction h with
  | ended => exact ⟨[], rfl, nofun⟩
  | again first _ _ ih =>
      cases same
      obtain ⟨rounds, rfl, built⟩ := ih rfl
      cases first with
      | @once _ inner trees =>
          exact ⟨inner :: rounds, rfl, List.forall_mem_cons.mpr ⟨trees, built⟩⟩
  | _ => cases same

/-! ### What is below -/

/-- **Every leaf is a token that some terminal accepts.** -/
theorem accepted (h : Builds g goal ts) :
    ∀ found ∈ Tree.tokensIn ts, ∃ t marked, g.Uses (.terminal t marked) ∧
      t.accepts found = true := by
  induction h with
  | rule _ _ ih => exact ih
  | alternatives _ _ ih => exact ih
  | done => simp [Tree.tokensIn]
  | next _ _ ihFirst ihRest =>
      rw [Tree.tokensIn_append]
      exact List.forall_mem_append.mpr ⟨ihFirst, ihRest⟩
  | once _ ih => simpa [Tree.tokensIn, Tree.tokens] using ih
  | single _ ih => exact ih
  | leftOut => simp [Tree.tokensIn]
  | repeatable _ ih => exact ih
  | ended => simp [Tree.tokensIn]
  | again _ _ ihFirst ihRest =>
      rw [Tree.tokensIn_append]
      exact List.forall_mem_append.mpr ⟨ihFirst, ihRest⟩
  | @token t marked found used accepted =>
      intro other mem
      rw [List.mem_singleton.mp mem]
      exact ⟨t, marked, used, accepted⟩
  | omitted => simp [Tree.tokensIn]

/-- **The words of trees.**  A family of languages that the productions of the
grammar do not lead out of holds the words of all trees that are built. -/
theorem word_of_closed {words : String → List Token → Prop} (closed : g.Closed words)
    (h : Builds g goal ts) : goal.Spells words (Tree.tokensIn ts) := by
  induction h with
  | rule hr _ ih =>
      obtain ⟨production, mem, word⟩ := ih
      exact closed _ _ (by rw [hr, Option.map_some]) production mem _ word
  | alternatives mem _ ih => exact ⟨_, mem, ih⟩
  | done => rfl
  | next _ _ ihFirst ihRest =>
      rw [Tree.tokensIn_append]
      exact ⟨_, _, rfl, ihFirst, ihRest⟩
  | @once name ts _ ih =>
      have same : Tree.tokensIn [.node name ts none] = Tree.tokensIn ts := by
        simp [Tree.tokensIn, Tree.tokens]
      rw [same]
      exact ih
  | single _ ih => exact Or.inl ih
  | leftOut => exact Or.inr ⟨rfl, rfl⟩
  | repeatable _ ih => exact ih
  | ended => exact ⟨[], rfl, List.forall_mem_nil _⟩
  | again _ _ ihFirst ihRest =>
      obtain ⟨rounds, same, all⟩ := ihRest
      refine ⟨_ :: rounds, ?_, List.forall_mem_cons.mpr ⟨ihFirst, all⟩⟩
      rw [Tree.tokensIn_append, same, List.flatten_cons]
  | token _ accepted => exact Or.inl ⟨_, rfl, accepted⟩
  | omitted => exact Or.inr ⟨rfl, rfl⟩

/-- **Trees without a leaf are those of a nullable goal.** -/
theorem nullable (h : Builds g goal ts) (empty : Tree.tokensIn ts = []) : goal.Nullable g := by
  induction h with
  | @rule name r ts hr _ ih =>
      obtain ⟨production, hp, all⟩ := ih empty
      have isNullable : r.nullable g.nullable = true := by
        rw [Rule.nullable, List.any_eq_true]
        exact ⟨production, hp, List.all_eq_true.mpr all⟩
      have closed := nullableNames_closed g.rules r (Grammar.mem_rules_of_rule? hr) isNullable
      rw [Grammar.name_of_rule? hr] at closed
      exact closed
  | alternatives mem _ ih => exact ⟨_, mem, ih empty⟩
  | done => exact fun e mem => absurd mem List.not_mem_nil
  | next _ _ ihFirst ihRest =>
      rw [Tree.tokensIn_append, List.append_eq_nil_iff] at empty
      exact List.forall_mem_cons.mpr ⟨ihFirst empty.1, ihRest empty.2⟩
  | once _ ih => exact ih (by simpa [Tree.tokensIn, Tree.tokens] using empty)
  | single _ ih =>
      have known := ih empty
      simp only [Goal.Nullable] at known
      simp [Goal.Nullable, Element.nullable, known]
  | leftOut => simp [Goal.Nullable, Element.nullable]
  | repeatable _ _ => simp [Goal.Nullable, Element.nullable]
  | ended => trivial
  | again _ _ _ _ => trivial
  | token _ _ => cases empty
  | omitted => simp [Goal.Nullable, Element.nullable]

/-- **Only rules that are referred to are below.** -/
theorem findIn?_eq_none {Good : String → Prop} (h : Builds g goal ts)
    (closed : ∀ r ∈ g.rules, Good r.name → ∀ target ∈ r.references, Good target)
    (refers : goal.Refers Good) {name : String} (other : ¬ Good name) :
    Tree.findIn? name ts = none := by
  have split : ∀ ts us : List Tree, Tree.findIn? name ts = none → Tree.findIn? name us = none →
      Tree.findIn? name (ts ++ us) = none := by
    intro ts us first second
    induction ts with
    | nil => exact second
    | cons t rest ih =>
        rw [Tree.findIn?] at first
        rw [List.cons_append, Tree.findIn?]
        cases here : Tree.find? name t with
        | none =>
            rw [here] at first
            exact ih first
        | some term =>
            rw [here] at first
            cases first
  induction h with
  | @rule target r ts hr _ ih =>
      refine ih fun production isAlternative e mem name isTarget => ?_
      refine closed r (Grammar.mem_rules_of_rule? hr) ?_ name
        (Rule.mem_references.mpr ⟨production, isAlternative, e, mem, isTarget⟩)
      rw [Grammar.name_of_rule? hr]
      exact refers
  | alternatives mem _ ih => exact ih (refers _ mem)
  | done => rfl
  | next _ _ ihFirst ihRest =>
      exact split _ _ (ihFirst (refers _ List.mem_cons_self))
        (ihRest fun e mem => refers e (List.mem_cons_of_mem _ mem))
  | @once target ts _ ih =>
      have different : target ≠ name := fun same => other (same ▸ refers)
      rw [Tree.findIn?, Tree.find?, if_neg different, ih refers]
      rfl
  | single _ ih => exact ih (refers _ rfl)
  | leftOut => rfl
  | repeatable _ ih => exact ih (refers _ rfl)
  | ended => rfl
  | again _ _ ihFirst ihRest => exact split _ _ (ihFirst refers) (ihRest refers)
  | token _ _ => rfl
  | omitted => rfl

end Builds

/-- **A parse that matches builds the trees of its root.** -/
theorem builds_of_parse (noBlank : ∀ t ∈ tokens, t.isBlank p.blankTypes = false)
    (untilFree : p.grammar.UntilFree) {term : Term} (h : (p.parse tokens).outcome = .ok term)
    (isOk : term.ok = true) :
    ∃ children, term = ⟨p.grammar.root, children, none⟩ ∧
      Builds p.grammar (.rule p.grammar.root) children := by
  rcases p.parse_cases tokens with ⟨f, faulty, -⟩ | ⟨term', o, answered, derived, concludes⟩
  · rw [h] at faulty
    cases faulty
  · rw [h] at answered
    cases answered
    cases o with
    | success children stop =>
        rw [Concludes, blanksAt_of_noBlank noBlank, List.map_nil, List.append_nil] at concludes
        split at concludes
        · obtain ⟨frontier, rfl⟩ := concludes
          cases isOk
        · exact ⟨children, concludes, derived.builds noBlank untilFree trivial rfl⟩
    | failure =>
        obtain ⟨frontier, rfl⟩ := concludes
        cases isOk
    | abort first terminator =>
        obtain rfl := concludes
        cases isOk

end Parser

/-! ### Shapes -/

namespace Tree

mutual

/-- A tree without its tokens. -/
def shape : Tree → Tree
  | .leaf _ => .leaf ⟨"", "", 0, 0⟩
  | .node rule children failure => .node rule (shapeIn children) failure

/-- Trees without their tokens. -/
def shapeIn : List Tree → List Tree
  | [] => []
  | t :: rest => shape t :: shapeIn rest

end

theorem shapeIn_append (ts us : List Tree) : shapeIn (ts ++ us) = shapeIn ts ++ shapeIn us := by
  induction ts with
  | nil => rfl
  | cons t rest ih => rw [List.cons_append, shapeIn, shapeIn, ih, List.cons_append]

/-- Trees of the same shape side by side. -/
theorem shapeIn_append_congr {ts ts' us us' : List Tree} (first : shapeIn ts = shapeIn us)
    (second : shapeIn ts' = shapeIn us') : shapeIn (ts ++ ts') = shapeIn (us ++ us') := by
  rw [shapeIn_append, shapeIn_append, first, second]

theorem shapeIn_node_congr {name : String} {ts us : List Tree} {failure : Option Failure}
    (h : shapeIn ts = shapeIn us) :
    shapeIn [.node name ts failure] = shapeIn [.node name us failure] := by
  show [node name (shapeIn ts) failure] = [node name (shapeIn us) failure]
  rw [h]

mutual

theorem length_tokens_shape : ∀ t : Tree, t.shape.tokens.length = t.tokens.length
  | .leaf _ => rfl
  | .node _ children _ => length_tokensIn_shapeIn children

/-- A shape has as many leaves. -/
theorem length_tokensIn_shapeIn :
    ∀ ts : List Tree, (tokensIn (shapeIn ts)).length = (tokensIn ts).length
  | [] => rfl
  | t :: rest => by
      rw [shapeIn, tokensIn, tokensIn, List.length_append, List.length_append,
        length_tokens_shape t, length_tokensIn_shapeIn rest]

end

/-- Trees of the same shape have as many leaves. -/
theorem length_tokensIn_congr {ts us : List Tree} (h : shapeIn ts = shapeIn us) :
    (tokensIn ts).length = (tokensIn us).length := by
  rw [← length_tokensIn_shapeIn ts, h, length_tokensIn_shapeIn us]

end Tree

namespace Parser

/-- No terminal of the grammar can tell two tokens apart. -/
def Alike (g : Grammar) (a b : Token) : Prop :=
  ∀ t marked, g.Uses (.terminal t marked) → t.accepts a = t.accepts b

section Alike

variable {p : Parser} {ts us : List Token}

/-- Without blanks, the same index is reached. -/
theorem afterBlanks_congr (noBlank : ∀ t ∈ ts, t.isBlank p.blankTypes = false)
    (noBlank' : ∀ t ∈ us, t.isBlank p.blankTypes = false) {i j : Nat} (here : i = j) :
    p.afterBlanks ts i = p.afterBlanks us j := by
  rw [afterBlanks_of_noBlank noBlank, afterBlanks_of_noBlank noBlank', here]

theorem afterBlanks_lt_congr (noBlank : ∀ t ∈ ts, t.isBlank p.blankTypes = false)
    (noBlank' : ∀ t ∈ us, t.isBlank p.blankTypes = false) {i j k l : Nat} (here : i = j)
    (there : k = l) : p.afterBlanks ts i < k ↔ p.afterBlanks us j < l := by
  rw [afterBlanks_congr noBlank noBlank' here, there]

theorem shapeIn_blanksAt (noBlank : ∀ t ∈ ts, t.isBlank p.blankTypes = false)
    (noBlank' : ∀ t ∈ us, t.isBlank p.blankTypes = false) (i j : Nat) :
    Tree.shapeIn ((p.blanksAt ts i).map Tree.leaf) =
      Tree.shapeIn ((p.blanksAt us j).map Tree.leaf) := by
  rw [blanksAt_of_noBlank noBlank, blanksAt_of_noBlank noBlank']

/-- Lists of tokens that are alike have tokens that are alike, or end together. -/
theorem alike_at (noBlank : ∀ t ∈ ts, t.isBlank p.blankTypes = false)
    (noBlank' : ∀ t ∈ us, t.isBlank p.blankTypes = false)
    (alike : List.Forall₂ (Alike p.grammar) ts us) {i j : Nat} (here : i = j) :
    (ts[p.afterBlanks ts i]? = none ∧ us[p.afterBlanks us j]? = none) ∨
      ∃ a b, ts[p.afterBlanks ts i]? = some a ∧ us[p.afterBlanks us j]? = some b ∧
        Alike p.grammar a b ∧ Tree.shapeIn [.leaf a] = Tree.shapeIn [.leaf b] ∧
        p.afterBlanks ts i + 1 = p.afterBlanks us j + 1 := by
  obtain ⟨length, each⟩ := List.forall₂_iff_get.mp alike
  subst here
  rw [afterBlanks_of_noBlank noBlank, afterBlanks_of_noBlank noBlank']
  by_cases inside : i < ts.length
  · refine Or.inr ⟨ts[i], us[i], List.getElem?_eq_getElem inside, List.getElem?_eq_getElem _, ?_,
      rfl, rfl⟩
    exact each i inside (length ▸ inside)
  · exact Or.inl ⟨List.getElem?_eq_none (by omega), List.getElem?_eq_none (by omega)⟩

/-- **Tokens that are alike are parsed in lockstep**, and what corresponds are trees
of the same shape. -/
theorem exists_lockstep_alike (noBlank : ∀ t ∈ ts, t.isBlank p.blankTypes = false)
    (noBlank' : ∀ t ∈ us, t.isBlank p.blankTypes = false) (untilFree : p.grammar.UntilFree)
    (alike : List.Forall₂ (Alike p.grammar) ts us) :
    ∃ lockstep : Lockstep p p ts us,
      lockstep.Like = fun ts us => Tree.shapeIn ts = Tree.shapeIn us :=
  ⟨{ Here := fun i j => i = j
     Like := fun ts us => Tree.shapeIn ts = Tree.shapeIn us
     grammar := rfl
     maxDepth := rfl
     untilFree := untilFree
     first := rfl
     last := alike.length_eq
     skip := afterBlanks_congr noBlank noBlank'
     blanks := fun _ => shapeIn_blanksAt noBlank noBlank' _ _
     order := afterBlanks_lt_congr noBlank noBlank'
     token := alike_at noBlank noBlank' alike
     nil := rfl
     append := Tree.shapeIn_append_congr
     node := Tree.shapeIn_node_congr }, rfl⟩

/-- **Tokens that no terminal tells apart are parsed alike**: if one list matches the
root, so does the other, with trees of the same shape. -/
theorem parse_alike (noBlank : ∀ t ∈ ts, t.isBlank p.blankTypes = false)
    (noBlank' : ∀ t ∈ us, t.isBlank p.blankTypes = false) (untilFree : p.grammar.UntilFree)
    (alike : List.Forall₂ (Alike p.grammar) ts us) {term : Term}
    (h : (p.parse ts).outcome = .ok term) (ok : term.ok = true) :
    ∃ children children', term = ⟨p.grammar.root, children, none⟩ ∧
      (p.parse us).outcome = .ok ⟨p.grammar.root, children', none⟩ ∧
      Tree.shapeIn children = Tree.shapeIn children' := by
  obtain ⟨lockstep, isShape⟩ := exists_lockstep_alike noBlank noBlank' untilFree alike
  rcases lockstep.parse with ⟨f, faulty, -⟩ | ⟨term, term', parsed, parsed', terms⟩
  · rw [h] at faulty
    cases faulty
  · rw [h] at parsed
    cases parsed
    cases terms with
    | matched like =>
        rw [isShape] at like
        exact ⟨_, _, rfl, parsed', like⟩
    | failed _ => cases ok

end Alike

end Parser

end GrammarKit
