import GrammarKit.Calculator.Evaluation
import GrammarKit.Proofs.Locality

/-!
# The parser ends on its own

The limit on the nesting of rules is not what makes the parser end.  Along a
chain of nested applications the token index never falls, and while it stays the
same the rank of the rule does (`Grammar.leftRank`); so a chain strictly descends
in a **height** that is at most the number of rules times the number of indices.

## Main Definitions

* `Parser.height` — tokens left times rules, plus the rank of the rule
* `Parser.Consults` — whether a computation applies a rule at an index
* `Parser.Running` — the stacks of nested applications of a parse

## Main Statements

* `Parser.height_lt` — what a rule may apply is lower than the rule
* `Parser.applyRule_faultsIn` — what is known of the levels left bounds the faults
  of a rule
* `Parser.applyRule_faultless` — with more levels than its height a rule has no
  fault
* `Parser.parse_halts` — no rule is active twice at one index, and a limit that
  leaves room for all pairs of a rule and an index is never met

## Design Notes

A stack of applications is not a value of the parser, whose parts only call
`apply`.  That a computation makes a certain call is therefore said through
`apply` itself: it makes the call if another answer *there*, and nowhere else,
would change its own.  An interrupt is among those answers, and it ends every
computation that meets it, so no call goes unnoticed.
-/

namespace GrammarKit.Parser

variable {p : Parser} {tokens : List Token} {apply : Apply}

/-! ### Heights -/

/-- How far a rule at an index is from the end: the tokens left count as many
times as there are rules, the rank of the rule once. -/
def height (p : Parser) (tokens : List Token) (name : String) (i : Nat) : Nat :=
  (tokens.length - i) * p.grammar.rules.length + p.grammar.leftRank name

/-- There are fewer heights than pairs of a rule and an index. -/
theorem height_lt_bound {name : String} (mem : name ∈ p.grammar.names) (i : Nat) :
    p.height tokens name i < p.grammar.rules.length * (tokens.length + 1) := by
  have rank := Grammar.leftRank_lt_length mem
  have left : (tokens.length - i) * p.grammar.rules.length ≤
      tokens.length * p.grammar.rules.length :=
    Nat.mul_le_mul_right _ (Nat.sub_le _ _)
  rw [height, Nat.mul_add, Nat.mul_one, Nat.mul_comm p.grammar.rules.length]
  omega

/-- **What a rule may apply is declared and lower than the rule.** -/
theorem height_lt {name target : String} {r : Rule} {start k : Nat}
    (hr : p.grammar.rule? name = some r) (may : p.MayApply tokens r start target k) :
    target ∈ p.grammar.names ∧ p.height tokens target k < p.height tokens name start := by
  have mem : r ∈ p.grammar.rules := Grammar.mem_rules_of_rule? hr
  rcases may with ⟨reference, lt, le⟩ | ⟨left, rfl⟩
  · -- a later index: the rank is made up for by one token less
    have declared := Grammar.declared_of_reference mem reference
    refine ⟨declared, ?_⟩
    have rank := Grammar.leftRank_lt_length declared
    have step : (tokens.length - k + 1) * p.grammar.rules.length ≤
        (tokens.length - start) * p.grammar.rules.length :=
      Nat.mul_le_mul_right _ (by omega)
    rw [Nat.add_mul, Nat.one_mul] at step
    rw [height, height]
    omega
  · -- the same index: a left reference has a lower rank
    have declared := Grammar.declared_of_reference mem (r.leftReferences_subset _ left)
    refine ⟨declared, ?_⟩
    have lower : p.grammar.leftRank target < p.grammar.leftRank name := by
      refine Grammar.leftRank_lt (p.grammar.mem_names_iff.mpr ⟨r, hr⟩) ?_
      rw [Grammar.leftTargets_eq hr]
      exact left
    rw [height, height]
    omega

/-! ### Faults of a rule -/

/-- **The faults of a rule.**  `Room` is what is known of a rule at an index and the
levels left for it.  If every application inside keeps it, a rule has no faults
but those allowed where it holds with no level left. -/
theorem applyRule_faultsIn {Allowed : Fault → Prop} (Room : Nat → String → Nat → Prop)
    (spent : ∀ name i, Room 0 name i → Allowed (.tooDeep p.maxDepth name))
    (keeps : ∀ {levels name r start target k}, p.grammar.rule? name = some r →
      p.MayApply tokens r start target k → Room (levels + 1) name start → Room levels target k) :
    ∀ (levels depth : Nat) (name : String) (i : Nat), name ∈ p.grammar.names →
      Room levels name i → FaultsIn Allowed (p.applyRule tokens levels depth name i) := by
  intro levels
  induction levels with
  | zero =>
      intro depth name i _ room f h
      cases h
      exact spent name i room
  | succ levels ih =>
      intro depth name i declared room
      obtain ⟨r, hr⟩ := p.grammar.mem_names_iff.mp declared
      rw [applyRule_succ hr]
      refine FaultsIn.bind (ruleBody_faultsIn (applyRule_sound p tokens levels (depth + 1)) ?_)
        fun answer => FaultsIn.bind faultsIn_note fun _ => faultsIn_pure _
      intro target k may
      exact ih (depth + 1) target k (height_lt hr may).1 (keeps hr may room)

/-- **With more levels than its height a rule has no fault.** -/
theorem applyRule_faultless (levels depth : Nat) (name : String) (i : Nat)
    (declared : name ∈ p.grammar.names) (room : p.height tokens name i < levels) :
    FaultsIn (fun _ => False) (p.applyRule tokens levels depth name i) := by
  refine applyRule_faultsIn (fun levels name i => p.height tokens name i < levels)
    (fun _ _ room => Nat.not_lt_zero _ room) ?_ levels depth name i declared room
  intro levels name r start target k hr may room
  have lower := (height_lt hr may).2
  omega

/-- A declared rule has no fault but that of nesting too deeply. -/
theorem applyRule_faultsIn_tooDeep (levels depth : Nat) (name : String) (i : Nat)
    (declared : name ∈ p.grammar.names) :
    FaultsIn (fun f => ∃ rule, f = .tooDeep p.maxDepth rule)
      (p.applyRule tokens levels depth name i) :=
  applyRule_faultsIn (fun _ _ _ => True) (fun name _ _ => ⟨name, rfl⟩) (fun _ _ _ => trivial)
    levels depth name i declared trivial

/-- Where rules refer to rules of lower rank only, a limit on the nesting as high
as the rank of a rule is enough for it, however many tokens there are. -/
theorem attempt_faultless_of_rank (rank : String → Nat)
    (falls : ∀ r ∈ p.grammar.rules, ∀ target ∈ r.references, rank target < rank r.name)
    {name : String} (declared : name ∈ p.grammar.names) (i : Nat)
    (room : (rank name : Int) ≤ p.maxDepth) :
    FaultsIn (fun _ => False) (p.attempt tokens name i) := by
  refine applyRule_faultsIn (fun levels name _ => rank name < levels)
    (fun _ _ room => Nat.not_lt_zero _ room) ?_ _ _ _ _ declared (by omega)
  intro levels name r start target k hr may room
  have lower : rank target < rank r.name := by
    rcases may with ⟨reference, -, -⟩ | ⟨left, -⟩
    · exact falls r (Grammar.mem_rules_of_rule? hr) target reference
    · exact falls r (Grammar.mem_rules_of_rule? hr) target (r.leftReferences_subset _ left)
  rw [Grammar.name_of_rule? hr] at lower
  omega

/-- The levels that a limit on the nesting leaves are enough for a rule at any
index, if the limit has room for all pairs of a rule and an index. -/
theorem attempt_faultless {name : String} (declared : name ∈ p.grammar.names) (i : Nat)
    (room : (p.grammar.rules.length * (tokens.length + 1) : Nat) - (1 : Int) ≤ p.maxDepth) :
    FaultsIn (fun _ => False) (p.attempt tokens name i) := by
  have bound := @height_lt_bound p tokens name declared i
  exact applyRule_faultless _ _ _ _ declared (by omega)

/-! ### Stacks of nested applications -/

/-- A way to apply rules with another answer for one rule at one index. -/
def answerAt (apply : Apply) (name : String) (index : Nat) (x : Traced Interrupt Attempt) : Apply :=
  fun m k => if m = name ∧ k = index then x else apply m k

/-- Whether a computation applies a rule at an index: some other answer there
would change its own. -/
def Consults (run : Apply → Traced Interrupt Attempt) (apply : Apply) (name : String)
    (index : Nat) : Prop :=
  ∃ x, run (answerAt apply name index x) ≠ run apply

/-- A rule applies no rule but those it may apply. -/
theorem mayApply_of_consults (sound : p.Sound tokens apply) {depth : Nat} {r : Rule}
    {start k : Nat} {name : String}
    (h : Consults (p.ruleBody tokens depth r start) apply name k) :
    p.MayApply tokens r start name k := by
  obtain ⟨x, different⟩ := h
  by_cases may : p.MayApply tokens r start name k
  · exact may
  exfalso
  refine different (ruleBody_congr sound fun m i mayOther => ?_).symm
  rw [answerAt, if_neg]
  rintro ⟨rfl, rfl⟩
  exact may mayOther

/-- **The stacks of nested applications** of a parse, the innermost first, each a
rule with the index where it started.  `levels` is what the limit on the nesting
leaves for the rules inside the innermost one. -/
inductive Running (p : Parser) (tokens : List Token) : List (String × Nat) → Prop where
  /-- A parse begins with the root at the first token. -/
  | root : Running p tokens [(p.grammar.root, 0)]
  /-- A rule on top of the stack applies another one. -/
  | nested {name target : String} {start k levels : Nat} {r : Rule}
      {outer : List (String × Nat)} :
      Running p tokens ((name, start) :: outer) →
      p.grammar.rule? name = some r →
      outer.length + (levels + 1) = (p.maxDepth + 1).toNat →
      Consults (p.ruleBody tokens outer.length r start)
        (p.applyRule tokens levels (outer.length + 1)) target k →
      Running p tokens ((target, k) :: (name, start) :: outer)

/-- A stack descends: every rule on it is lower than those it was called from,
and so much lower than the root as the stack is long. -/
structure Descends (p : Parser) (tokens : List Token) (name : String) (start : Nat)
    (outer : List (String × Nat)) : Prop where
  declared : name ∈ p.grammar.names
  lower : ∀ frame ∈ outer, p.height tokens name start < p.height tokens frame.1 frame.2
  nodup : ((name, start) :: outer).Nodup
  room : p.height tokens name start + outer.length <
    p.grammar.rules.length * (tokens.length + 1)

theorem descends_root (p : Parser) (tokens : List Token) :
    Descends p tokens p.grammar.root 0 [] where
  declared := p.grammar.root_mem_names
  lower := by simp
  nodup := by simp
  room := height_lt_bound p.grammar.root_mem_names 0

/-- One application keeps the descent. -/
theorem Descends.push {name target : String} {start k : Nat} {outer : List (String × Nat)}
    {r : Rule} (h : Descends p tokens name start outer) (hr : p.grammar.rule? name = some r)
    (may : p.MayApply tokens r start target k) :
    Descends p tokens target k ((name, start) :: outer) := by
  obtain ⟨declared, lt⟩ := height_lt hr may
  have lower : ∀ frame ∈ (name, start) :: outer,
      p.height tokens target k < p.height tokens frame.1 frame.2 := by
    intro frame mem
    rcases List.mem_cons.mp mem with rfl | deeper
    · exact lt
    · exact Nat.lt_trans lt (h.lower frame deeper)
  refine ⟨declared, lower, ?_, ?_⟩
  · refine List.nodup_cons.mpr ⟨fun mem => ?_, h.nodup⟩
    exact Nat.lt_irrefl _ (lower _ mem)
  · have room := h.room
    rw [List.length_cons]
    omega

/-- **Every stack of a parse descends.** -/
theorem Running.descends {stack : List (String × Nat)} (h : p.Running tokens stack) :
    ∃ name start outer, stack = (name, start) :: outer ∧ Descends p tokens name start outer := by
  induction h with
  | root => exact ⟨_, _, _, rfl, descends_root p tokens⟩
  | nested _ hr _ consults ih =>
      obtain ⟨name, start, outer, same, descends⟩ := ih
      cases same
      have may := mayApply_of_consults (applyRule_sound p tokens _ _) consults
      exact ⟨_, _, _, rfl, descends.push hr may⟩

/-- **The parser ends on its own.**  In every parse no rule is active twice at the
same token index, so rules nest at most as deeply as there are pairs of a rule and
an index; the only fault is that of nesting beyond the limit, and a limit with
room for all pairs is never exceeded: the parse has a term for an answer. -/
theorem parse_halts (p : Parser) (tokens : List Token) :
    (∀ name start outer, p.Running tokens ((name, start) :: outer) →
      ((name, start) :: outer).Nodup ∧
        outer.length ≤ p.grammar.rules.length * (tokens.length + 1) - 1) ∧
    (∀ f, (p.parse tokens).outcome = .error f → ∃ rule, f = .tooDeep p.maxDepth rule) ∧
    ((p.grammar.rules.length * (tokens.length + 1) : Nat) - (1 : Int) ≤ p.maxDepth →
      ∃ term, (p.parse tokens).outcome = .ok term) := by
  refine ⟨?_, ?_, ?_⟩
  · intro name start outer running
    obtain ⟨_, _, _, same, descends⟩ := running.descends
    cases same
    have room := descends.room
    exact ⟨descends.nodup, by omega⟩
  · intro f h
    rcases p.parse_cases tokens with ⟨g, hg, fault⟩ | ⟨term, o, answered, -, -⟩
    · rw [h] at hg
      cases hg
      exact applyRule_faultsIn_tooDeep _ _ _ _ p.grammar.root_mem_names f fault
    · rw [h] at answered
      cases answered
  · intro room
    rcases p.parse_cases tokens with ⟨f, -, fault⟩ | ⟨term, o, answered, -, -⟩
    · exact (attempt_faultless p.grammar.root_mem_names 0 room f fault).elim
    · exact ⟨term, answered⟩

/-- A sum under the calculator: the root applies the rule of expressions at the
same token, and the default limit has room for thirteen rules at four indices. -/
theorem parse_halts_calculator :
    Calculator.language.parser.Running (Profile.canonical.tokens "1+2")
        [("expression", 0), ("calc", 0)] ∧
      [("expression", 0), ("calc", 0)].Nodup ∧
      ((13 * (3 + 1) : Nat) - (1 : Int) ≤ 256 ∧
        ∃ term, (Calculator.language.parser.parse (Profile.canonical.tokens "1+2")).outcome =
          .ok term) := by
  have running : Calculator.language.parser.Running (Profile.canonical.tokens "1+2")
      [("expression", 0), ("calc", 0)] := by
    refine @Running.nested _ _ "calc" "expression" 0 0 256 _ [] Running.root rfl rfl ?_
    refine ⟨Traced.fail (.unterminated 0 (.literal "")), fun same => ?_⟩
    exact absurd (congrArg (fun x => x.outcome.isOk) same) (by decide +kernel)
  obtain ⟨nested, -, ends⟩ :=
    parse_halts Calculator.language.parser (Profile.canonical.tokens "1+2")
  exact ⟨running, (nested _ _ _ running).1, by decide, ends (by decide +kernel)⟩

end GrammarKit.Parser
