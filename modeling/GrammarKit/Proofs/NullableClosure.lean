import GrammarKit.Grammar.Nullable

/-!
# The nullable names are closed

`nullableNames` sweeps over the rules a bounded number of times.  The bound is
not decoration: a sweep that is not the last adds a name, the names are distinct
and all of them name a rule, so as many sweeps as there are rules are enough to
reach a set that no further sweep enlarges.

## Main Definitions

* `Nullable.Closed` — a set of names that holds every rule it makes nullable

## Main Statements

* `nullableNames_closed` — the nullable names are closed
-/

namespace GrammarKit

namespace Nullable

/-- A set of names is closed under the rules if it holds the name of every rule
that is nullable by it. -/
def Closed (rules : List Rule) (known : List String) : Prop :=
  ∀ r ∈ rules, r.nullable known = true → r.name ∈ known

/-- Distinct names of rules: what every sweep starts from and ends in. -/
structure Partial (rules : List Rule) (known : List String) : Prop where
  nodup : known.Nodup
  subset : known ⊆ rules.map Rule.name

/-! ### One sweep -/

theorem prefix_learn (known : List String) (r : Rule) : known <+: learn known r := by
  unfold learn
  split
  · exact List.prefix_refl known
  · split
    · exact List.prefix_append known [r.name]
    · exact List.prefix_refl known

theorem prefix_sweep (rules : List Rule) :
    ∀ known : List String, known <+: sweep rules known := by
  induction rules with
  | nil => intro known; exact List.prefix_refl known
  | cons r rest ih =>
      intro known
      exact (prefix_learn known r).trans (ih (learn known r))

/-- A rule that is nullable by what is known is known once it has been looked at. -/
theorem name_mem_learn {known : List String} {r : Rule} (h : r.nullable known = true) :
    r.name ∈ learn known r := by
  unfold learn
  split
  · assumption
  · simp

theorem Partial.learn {rules : List Rule} {known : List String} {r : Rule}
    (h : Partial rules known) (mem : r ∈ rules) : Partial rules (Nullable.learn known r) := by
  unfold Nullable.learn
  split
  · exact h
  · rename_i fresh
    split
    · refine ⟨?_, ?_⟩
      · exact (List.perm_append_singleton r.name known).nodup_iff.mpr
          (List.nodup_cons.mpr ⟨fresh, h.nodup⟩)
      · intro name hname
        rcases List.mem_append.mp hname with old | new
        · exact h.subset old
        · rw [List.mem_singleton] at new
          exact new ▸ List.mem_map_of_mem mem
    · exact h

/-- Sweeping over some of the rules keeps the names distinct and declared. -/
theorem Partial.sweep {rules : List Rule} :
    ∀ {some : List Rule} {known : List String}, some ⊆ rules → Partial rules known →
      Partial rules (Nullable.sweep some known) := by
  intro some
  induction some with
  | nil => intro known _ h; exact h
  | cons r rest ih =>
      intro known sub h
      have tail : rest ⊆ rules := fun s hs => sub (List.mem_cons_of_mem r hs)
      exact ih tail (h.learn (sub List.mem_cons_self))

/-- A sweep that adds nothing starts from a closed set. -/
theorem closed_of_sweep_eq {rules : List Rule} :
    ∀ {known : List String}, sweep rules known = known → Closed rules known := by
  induction rules with
  | nil => intro known _ r hr; exact absurd hr List.not_mem_nil
  | cons r rest ih =>
      intro known h
      -- the first rule adds nothing either, since later rules take nothing away
      have hle : learn known r <+: known := by
        have step : learn known r <+: sweep rest (learn known r) := prefix_sweep rest _
        rwa [show sweep rest (learn known r) = known from h] at step
      have same : learn known r = known :=
        hle.eq_of_length (Nat.le_antisymm hle.length_le (prefix_learn known r).length_le)
      have restSame : sweep rest known = known := by
        calc sweep rest known = sweep rest (learn known r) := by rw [same]
          _ = known := h
      intro s hs nullable
      rcases List.mem_cons.mp hs with rfl | later
      · exact same ▸ name_mem_learn nullable
      · exact ih restSame s later nullable

/-! ### All sweeps -/

/-- A set with as many names as there are rules holds all of them. -/
theorem Partial.closed_of_length_le {rules : List Rule} {known : List String}
    (h : Partial rules known) (full : rules.length ≤ known.length) : Closed rules known := by
  intro r hr _
  by_cases held : r.name ∈ known
  · exact held
  exfalso
  have sub : r.name :: known ⊆ rules.map Rule.name := by
    intro name hname
    rcases List.mem_cons.mp hname with rfl | old
    · exact List.mem_map_of_mem hr
    · exact h.subset old
  have nodup : (r.name :: known).Nodup := List.nodup_cons.mpr ⟨held, h.nodup⟩
  have bound := nodup.length_le_of_subset sub
  simp only [List.length_cons, List.length_map] at bound
  omega

/-- As many sweeps as there are names missing end in a closed set. -/
theorem closed_sweeps {rules : List Rule} :
    ∀ (n : Nat) {known : List String}, Partial rules known →
      rules.length ≤ n + known.length → Closed rules (sweeps rules n known) := by
  intro n
  induction n with
  | zero =>
      intro known h bound
      exact h.closed_of_length_le (by omega)
  | succ n ih =>
      intro known h bound
      have grows := prefix_sweep rules known
      rw [sweeps]
      split
      · rename_i same
        exact closed_of_sweep_eq (grows.eq_of_length same.symm).symm
      · rename_i more
        have := grows.length_le
        exact ih (h.sweep (List.Subset.refl rules)) (by omega)

end Nullable

/-- **The nullable names are closed**: a rule with an alternative that consists of
elements nullable by them is among them. -/
theorem nullableNames_closed (rules : List Rule) :
    Nullable.Closed rules (nullableNames rules) :=
  Nullable.closed_sweeps rules.length ⟨List.nodup_nil, List.nil_subset _⟩ (by simp)

end GrammarKit
