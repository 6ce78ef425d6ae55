import GrammarKit.Proofs.Adequacy

/-!
# Which rules a rule applies

The parts of the parser see other rules only through `apply`, so "rule `r`
started at an index applies rule `m` at index `k`" is a fact about which
values of `apply` its answer depends on.  This file bounds them: a rule
applies the rules it refers to at **later** indices inside the tokens, and at
its **own** index its left references only.

## Main Definitions

* `Parser.ruleBody` — the alternatives of a rule, given how to apply rules
* `Parser.MayApply` — later references, and left references at the same index

## Main Statements

* `Parser.ruleBody_congr` — two ways to apply rules that agree there give the
  same answer
* `Parser.ruleBody_faultsIn` — the faults of an answer are faults from there

### What is load-bearing

The second kind of application is where the nullable names enter: an element
is reached at the index where the rule started only if every element before it
matched nothing, and what matches nothing is nullable (`Derives.nullable`).
-/

namespace GrammarKit

/-- A sequence depends on its second part at the result of the first alone. -/
theorem Traced.bind_congr {ε α β : Type} {x : Traced ε α} {f g : α → Traced ε β}
    (h : ∀ a, x.outcome = .ok a → f a = g a) : x >>= f = x >>= g := by
  show Traced.bind x f = Traced.bind x g
  unfold Traced.bind
  cases hx : x.outcome with
  | error e => rfl
  | ok a => simp only [h a hx]

namespace Parser

variable {p : Parser} {tokens : List Token} {apply apply' : Apply}

/-! ### One element -/

theorem matchOnce_congr {name : String} {i : Nat}
    (here : apply name (p.afterBlanks tokens i) = apply' name (p.afterBlanks tokens i)) :
    p.matchOnce tokens apply name i = p.matchOnce tokens apply' name i := by
  unfold afterBlanks at here
  simp only [matchOnce, here]

/-- A later round starts behind the one before it, inside the tokens. -/
theorem matchMany_congr (sound : p.Sound tokens apply) {name : String} (i : Nat)
    (here : apply name (p.afterBlanks tokens i) = apply' name (p.afterBlanks tokens i))
    (later : ∀ k, i < k → k ≤ tokens.length → apply name k = apply' name k) :
    p.matchMany tokens apply name i = p.matchMany tokens apply' name i := by
  rw [matchMany, matchMany, ← matchOnce_congr here]
  refine Traced.bind_congr fun round ok => ?_
  cases hs : round.segment? with
  | none => rfl
  | some s =>
      simp only
      split
      · rename_i moved
        have derived := matchOnce_sound sound (outcome?_of_ok ok)
        rw [Attempt.outcome_of_some hs] at derived
        have behind : i < s.stop := by omega
        have inside : s.stop ≤ tokens.length := derived.stop_le behind
        have next : p.matchMany tokens apply name s.stop =
            p.matchMany tokens apply' name s.stop := by
          refine matchMany_congr sound s.stop ?_ ?_
          · have le := le_afterBlanks p tokens s.stop
            have bound := @afterBlanks_le p tokens s.stop
            exact later _ (by omega) (by omega)
          · intro k lo hi
            exact later k (by omega) hi
        rw [next]
      · rfl
termination_by tokens.length - i
decreasing_by omega

theorem matchElement_congr (sound : p.Sound tokens apply) {e : Element} {i : Nat}
    (here : ∀ name, e.target? = some name →
      apply name (p.afterBlanks tokens i) = apply' name (p.afterBlanks tokens i))
    (later : ∀ name, e.target? = some name →
      ∀ k, i < k → k ≤ tokens.length → apply name k = apply' name k) :
    p.matchElement tokens apply e i = p.matchElement tokens apply' e i := by
  cases e with
  | terminal t marked => rfl
  | reference name optional repeatable =>
      have once := matchOnce_congr (here name rfl)
      have many := matchMany_congr sound i (here name rfl) (later name rfl)
      simp only [matchElement, matchReference, once, many]

/-! ### Productions -/

/-- A production that is under way, at an index not before the one where it
started.  Only while it is still there do left references matter. -/
theorem matchProduction_congr (sound : p.Sound tokens apply) {start : Nat} :
    ∀ (production : Production) (i : Nat), start ≤ i → (start < i → i ≤ tokens.length) →
      (∀ e ∈ production, ∀ name, e.target? = some name →
        ∀ k, start < k → k ≤ tokens.length → apply name k = apply' name k) →
      (i = start → ∀ name ∈ production.leftReferences p.grammar.nullable,
        apply name start = apply' name start) →
      p.matchProduction tokens apply production i =
        p.matchProduction tokens apply' production i := by
  intro production
  induction production with
  | nil => intro i _ _ _ _; rfl
  | cons e rest ih =>
      intro i lo hi later left
      have first : p.matchElement tokens apply e i = p.matchElement tokens apply' e i := by
        refine matchElement_congr sound ?_ ?_
        · intro name target
          have le := le_afterBlanks p tokens i
          have bound := @afterBlanks_le p tokens i
          by_cases moved : start < p.afterBlanks tokens i
          · exact later e List.mem_cons_self name target _ moved (by omega)
          · have same : p.afterBlanks tokens i = start := by omega
            rw [same]
            refine left (by omega) name ?_
            simp [Production.leftReferences, target]
        · intro name target k lt le
          exact later e List.mem_cons_self name target k (by omega) le
      rw [matchProduction, matchProduction, ← first]
      refine Traced.bind_congr fun attempt ok => ?_
      cases hs : attempt.segment? with
      | none => rfl
      | some s =>
          have derived := matchElement_sound sound (outcome?_of_ok ok)
          rw [Attempt.outcome_of_some hs] at derived
          have le : i ≤ s.stop := derived.le_stop
          have inside := derived.stop_le
          have others : p.matchProduction tokens apply rest s.stop =
              p.matchProduction tokens apply' rest s.stop := by
            refine ih s.stop (by omega) (by omega) ?_ ?_
            · intro e' he'
              exact later e' (List.mem_cons_of_mem e he')
            · intro still name mem
              have same : s.stop = i := by omega
              rw [same] at derived
              have nullable : e.nullable p.grammar.nullable = true := derived.nullable rfl
              refine left (by omega) name ?_
              simp [Production.leftReferences, nullable, mem]
          simp only [others]

/-! ### Rules -/

/-- The alternatives of a rule at an index, given how to apply rules. -/
def ruleBody (p : Parser) (tokens : List Token) (depth : Nat) (r : Rule) (start : Nat)
    (apply : Apply) : Traced Interrupt Attempt :=
  p.matchAlternatives tokens apply (tryLine depth r.name r.alternatives.length start) start 1
    r.alternatives

/-- A level of nesting runs the alternatives of the rule with one level less. -/
theorem applyRule_succ {name : String} {r : Rule} (h : p.grammar.rule? name = some r)
    (levels depth start : Nat) :
    p.applyRule tokens (levels + 1) depth name start =
      p.ruleBody tokens depth r start (p.applyRule tokens levels (depth + 1)) >>= fun answer =>
        Traced.note p.debug (fun _ => answerLine depth name start answer) >>= fun _ =>
          pure answer := by
  rw [applyRule, h, ruleBody, Grammar.name_of_rule? h]

/-- What a rule started at an index may apply: its references at later indices
inside the tokens, and its left references at the same index. -/
def MayApply (p : Parser) (tokens : List Token) (r : Rule) (start : Nat) (name : String)
    (k : Nat) : Prop :=
  name ∈ r.references ∧ start < k ∧ k ≤ tokens.length ∨
    name ∈ r.leftReferences p.grammar.nullable ∧ k = start

theorem matchAlternatives_congr (label : Nat → String) {start : Nat} :
    ∀ (alternatives : List Production) (number : Nat),
      (∀ production ∈ alternatives, p.matchProduction tokens apply production start =
        p.matchProduction tokens apply' production start) →
      p.matchAlternatives tokens apply label start number alternatives =
        p.matchAlternatives tokens apply' label start number alternatives := by
  intro alternatives
  induction alternatives with
  | nil => intro number _; rfl
  | cons production rest ih =>
      intro number same
      have others := ih (number + 1) fun q hq => same q (List.mem_cons_of_mem production hq)
      simp only [matchAlternatives, same production List.mem_cons_self, others]

/-- **A rule depends on the rules it may apply alone.** -/
theorem ruleBody_congr (sound : p.Sound tokens apply) {depth : Nat} {r : Rule} {start : Nat}
    (agree : ∀ name k, p.MayApply tokens r start name k → apply name k = apply' name k) :
    p.ruleBody tokens depth r start apply = p.ruleBody tokens depth r start apply' := by
  refine matchAlternatives_congr _ _ _ fun production mem => ?_
  refine matchProduction_congr sound production start (Nat.le_refl start) (by omega) ?_ ?_
  · intro e he name target k lt le
    exact agree name k
      (Or.inl ⟨Rule.mem_references.mpr ⟨production, mem, e, he, target⟩, lt, le⟩)
  · intro _ name left
    exact agree name start (Or.inr ⟨Rule.mem_leftReferences.mpr ⟨production, mem, left⟩, rfl⟩)

/-! ### Faults -/

/-- Every fault that a computation can have has a property. -/
def FaultsIn {α : Type} (P : Fault → Prop) (x : Traced Interrupt α) : Prop :=
  ∀ f, x.outcome = .error (.fault f) → P f

variable {P : Fault → Prop}

theorem faultsIn_pure {α : Type} (a : α) : FaultsIn P (pure a : Traced Interrupt α) := by
  intro f h
  cases h

theorem FaultsIn.bind {α β : Type} {x : Traced Interrupt α} {f : α → Traced Interrupt β}
    (hx : FaultsIn P x) (hf : ∀ a, FaultsIn P (f a)) : FaultsIn P (x >>= f) := by
  intro e h
  rw [Traced.outcome_bind] at h
  cases ho : x.outcome with
  | error i =>
      rw [ho] at h
      cases h
      exact hx e ho
  | ok a =>
      rw [ho] at h
      exact hf a e h

theorem faultsIn_note {enabled : Bool} {line : Unit → String} :
    FaultsIn P (Traced.note enabled line) := by
  intro f h
  cases h

theorem matchOnce_faultsIn (within : ∀ name k, FaultsIn P (apply name k)) (name : String)
    (i : Nat) : FaultsIn P (p.matchOnce tokens apply name i) :=
  FaultsIn.bind (within _ _) fun _ => faultsIn_pure _

theorem matchMany_faultsIn (within : ∀ name k, FaultsIn P (apply name k)) (name : String)
    (i : Nat) : FaultsIn P (p.matchMany tokens apply name i) := by
  rw [matchMany]
  refine FaultsIn.bind (matchOnce_faultsIn within name i) fun round => ?_
  cases round.segment? with
  | none => exact faultsIn_pure _
  | some s =>
      simp only
      split
      · exact FaultsIn.bind (matchMany_faultsIn within name s.stop) fun _ => faultsIn_pure _
      · exact faultsIn_pure _
termination_by tokens.length - i
decreasing_by omega

theorem matchElement_faultsIn (within : ∀ name k, FaultsIn P (apply name k)) (e : Element)
    (i : Nat) : FaultsIn P (p.matchElement tokens apply e i) := by
  cases e with
  | reference name optional repeatable =>
      simp only [matchElement, matchReference]
      split
      · exact matchMany_faultsIn within name i
      · exact FaultsIn.bind (matchOnce_faultsIn within name i) fun _ => faultsIn_pure _
  | terminal t marked =>
      simp only [matchElement]
      split
      · intro f h
        simp only [matchUntil] at h
        split at h <;> cases h
      · exact faultsIn_pure _

theorem matchProduction_faultsIn (within : ∀ name k, FaultsIn P (apply name k)) :
    ∀ (production : Production) (i : Nat),
      FaultsIn P (p.matchProduction tokens apply production i) := by
  intro production
  induction production with
  | nil => intro i; exact faultsIn_pure _
  | cons e rest ih =>
      intro i
      rw [matchProduction]
      refine FaultsIn.bind (matchElement_faultsIn within e i) fun first => ?_
      cases first.segment? with
      | none => exact faultsIn_pure _
      | some s => exact FaultsIn.bind (ih s.stop) fun _ => faultsIn_pure _

theorem matchAlternatives_faultsIn (within : ∀ name k, FaultsIn P (apply name k))
    (label : Nat → String) (start : Nat) :
    ∀ (alternatives : List Production) (number : Nat),
      FaultsIn P (p.matchAlternatives tokens apply label start number alternatives) := by
  intro alternatives
  induction alternatives with
  | nil => intro number; exact faultsIn_pure _
  | cons production rest ih =>
      intro number
      rw [matchAlternatives]
      refine FaultsIn.bind faultsIn_note fun _ => ?_
      refine FaultsIn.bind (matchProduction_faultsIn within production start) fun first => ?_
      cases first.segment? with
      | some s => exact faultsIn_pure _
      | none => exact FaultsIn.bind (ih (number + 1)) fun _ => faultsIn_pure _

open Classical in
/-- A way to apply rules cut down to some applications: the others fail at once. -/
noncomputable def restrict (apply : Apply) (within : String → Nat → Prop) : Apply :=
  fun name k => if within name k then apply name k else pure ⟨none, .unreached⟩

/-- **The faults of a rule come from the rules it may apply.**  Locality turns the
question about those applications into one about all of them: outside, `apply`
may be replaced by one without faults. -/
theorem ruleBody_faultsIn (sound : p.Sound tokens apply) {depth : Nat} {r : Rule} {start : Nat}
    (within : ∀ name k, p.MayApply tokens r start name k → FaultsIn P (apply name k)) :
    FaultsIn P (p.ruleBody tokens depth r start apply) := by
  have same : p.ruleBody tokens depth r start apply =
      p.ruleBody tokens depth r start (restrict apply (p.MayApply tokens r start)) := by
    refine ruleBody_congr sound fun name k may => ?_
    rw [restrict, if_pos may]
  rw [same]
  refine matchAlternatives_faultsIn (fun name k => ?_) _ _ _ _
  by_cases may : p.MayApply tokens r start name k
  · rw [restrict, if_pos may]
    exact within name k may
  · rw [restrict, if_neg may]
    exact faultsIn_pure _

end Parser

end GrammarKit
