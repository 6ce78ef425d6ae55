import GrammarKit.Proofs.NullableClosure

/-!
# The nullable names are the least closed set

`nullableNames` is computed by sweeps.  What it computes is given here by rules
alone: an element **vanishes** if it has a finite derivation from optional,
repeatable and inverse elements, and a name is nullable if some production of its
rule has vanishing elements only.

## Main Definitions

* `Element.Vanishes` — elements that can match nothing, by finite derivations
* `NullableName` — names of rules with a production that vanishes

## Main Statements

* `mem_nullableNames_iff` — the sweeps find exactly the nullable names
* `Element.nullable_iff_vanishes` — so elements are nullable by them exactly if
  they vanish

## Design Notes

One direction is that the result is closed (`nullableNames_closed`), by induction
on the derivation.  The other is that no sweep ever adds a name without a
derivation.
-/

namespace GrammarKit

/-- **Elements that can match nothing**, by finite derivations. -/
inductive Element.Vanishes (rules : List Rule) : Element → Prop where
  | optional {name : String} {repeatable : Bool} :
      Vanishes rules (.reference name true repeatable)
  | repeatable {name : String} {optional : Bool} :
      Vanishes rules (.reference name optional true)
  | omitted {t : Terminal} : Vanishes rules (.terminal t true)
  /-- An inverse terminal may end at once. -/
  | inverse {t : Terminal} {optional : Bool} :
      t.inverse = true → Vanishes rules (.terminal t optional)
  /-- A reference vanishes with a production of its rule. -/
  | rule {r : Rule} {production : Production} {optional repeatable : Bool} :
      r ∈ rules → production ∈ r.alternatives → (∀ e ∈ production, Vanishes rules e) →
      Vanishes rules (.reference r.name optional repeatable)

/-- Names of rules with a production all of whose elements vanish. -/
def NullableName (rules : List Rule) (name : String) : Prop :=
  ∃ r ∈ rules, r.name = name ∧ ∃ production ∈ r.alternatives, ∀ e ∈ production, e.Vanishes rules

namespace Nullable

variable {rules : List Rule} {known : List String}

/-! ### Nothing is added without a derivation -/

/-- An element that is nullable by nullable names vanishes. -/
theorem vanishes_of_nullable (sound : ∀ name ∈ known, NullableName rules name) {e : Element}
    (h : e.nullable known = true) : e.Vanishes rules := by
  cases e with
  | reference name optional repeatable =>
      simp only [Element.nullable, Bool.or_eq_true, decide_eq_true_eq] at h
      rcases h with (rfl | rfl) | mem
      · exact .optional
      · exact .repeatable
      · obtain ⟨r, isRule, rfl, production, isAlternative, all⟩ := sound name mem
        exact .rule isRule isAlternative all
  | terminal t optional =>
      simp only [Element.nullable, Bool.or_eq_true] at h
      rcases h with rfl | inverse
      · exact .omitted
      · exact .inverse inverse

theorem sound_learn (sound : ∀ name ∈ known, NullableName rules name) {r : Rule}
    (isRule : r ∈ rules) : ∀ name ∈ learn known r, NullableName rules name := by
  unfold learn
  split
  · exact sound
  · split
    · rename_i nullable
      intro name mem
      rcases List.mem_append.mp mem with old | new
      · exact sound name old
      · rw [List.mem_singleton.mp new]
        obtain ⟨production, isAlternative, all⟩ := List.any_eq_true.mp nullable
        refine ⟨r, isRule, rfl, production, isAlternative, fun e he => ?_⟩
        exact vanishes_of_nullable sound (List.all_eq_true.mp all e he)
    · exact sound

theorem sound_sweep {some : List Rule} (sub : some ⊆ rules) :
    ∀ {known : List String}, (∀ name ∈ known, NullableName rules name) →
      ∀ name ∈ sweep some known, NullableName rules name := by
  induction some with
  | nil => intro known sound; exact sound
  | cons r rest ih =>
      intro known sound
      exact ih (fun s hs => sub (List.mem_cons_of_mem r hs))
        (sound_learn sound (sub List.mem_cons_self))

/-- **No sweep adds a name without a derivation.** -/
theorem sound_sweeps (n : Nat) :
    ∀ {known : List String}, (∀ name ∈ known, NullableName rules name) →
      ∀ name ∈ sweeps rules n known, NullableName rules name := by
  induction n with
  | zero => intro known sound; exact sound
  | succ n ih =>
      intro known sound
      rw [sweeps]
      split
      · exact sound
      · exact ih (sound_sweep (List.Subset.refl rules) sound)

/-! ### Nothing with a derivation is missing -/

/-- By a closed set of names, all elements that vanish are nullable. -/
theorem Closed.nullable_of_vanishes (closed : Closed rules known) {e : Element}
    (h : e.Vanishes rules) : e.nullable known = true := by
  induction h with
  | optional => simp [Element.nullable]
  | repeatable => simp [Element.nullable]
  | omitted => simp [Element.nullable]
  | inverse inverse => simp [Element.nullable, inverse]
  | @rule r production optional repeatable isRule isAlternative _ ih =>
      have nullable : r.nullable known = true :=
        List.any_eq_true.mpr ⟨production, isAlternative, List.all_eq_true.mpr ih⟩
      simp [Element.nullable, closed r isRule nullable]

end Nullable

/-- **The sweeps find exactly the nullable names.** -/
theorem mem_nullableNames_iff {rules : List Rule} {name : String} :
    name ∈ nullableNames rules ↔ NullableName rules name := by
  constructor
  · exact Nullable.sound_sweeps rules.length (by simp) name
  · rintro ⟨r, isRule, rfl, production, isAlternative, all⟩
    refine nullableNames_closed rules r isRule ?_
    refine List.any_eq_true.mpr ⟨production, isAlternative, ?_⟩
    exact List.all_eq_true.mpr fun e he =>
      (nullableNames_closed rules).nullable_of_vanishes (all e he)

/-- An element is nullable by the nullable names exactly if it vanishes. -/
theorem Element.nullable_iff_vanishes {rules : List Rule} {e : Element} :
    e.nullable (nullableNames rules) = true ↔ e.Vanishes rules :=
  ⟨Nullable.vanishes_of_nullable fun _ mem => mem_nullableNames_iff.mp mem,
    (nullableNames_closed rules).nullable_of_vanishes⟩

end GrammarKit
