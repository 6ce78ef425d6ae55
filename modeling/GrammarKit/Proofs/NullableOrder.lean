import GrammarKit.Proofs.NullableDerivations
import Mathlib.Data.List.Forall2

/-!
# Sweeping for nullable names ends in the least set, in any order

A sweep adds names while it goes over the rules, so that a rule sees what the rules
before it have added, and what a single sweep finds depends on their order.  What all
sweeps find together does not: sweeping goes on until a sweep adds nothing, and where
it ends there are exactly the names with a finite derivation.

## Main Definitions

* `Nullable.Settles` — sweeping until nothing is added, without a bound on the sweeps
* `Rearranged` — the same rules and the same alternatives, both in another order

## Main Statements

* `Nullable.settles_iff` — sweeping from nothing ends, and only in `nullableNames`
* `nullableNames_subset` — the nullable names are in every closed set of names
* `Rearranged.nullableName_iff` — derivations know no order
* `nullableNames_least` — all of these about one table of rules

## Design Notes

`nullableNames` counts its sweeps, which `Settles` does not: that the count never ends
them too early is part of what is proved.  Order is a matter of derivations alone; that
they have none is read off their rules, and no sweep is looked at for it.
-/

namespace GrammarKit

namespace Nullable

variable {rules : List Rule} {known result : List String}

/-! ### Sweeping without a bound -/

/-- **Sweeping until nothing is added**, from some names to others. -/
inductive Settles (rules : List Rule) : List String → List String → Prop where
  /-- A sweep that adds nothing is the last one. -/
  | still {known : List String} : sweep rules known = known → Settles rules known known
  /-- A sweep that adds a name is followed by another. -/
  | again {known result : List String} : sweep rules known ≠ known →
      Settles rules (sweep rules known) result → Settles rules known result

/-- Nothing is added to names that are closed. -/
theorem Closed.learn (closed : Closed rules known) {r : Rule} (mem : r ∈ rules) :
    Nullable.learn known r = known := by
  unfold Nullable.learn
  split
  · rfl
  · rename_i fresh
    exact if_neg fun nullable => fresh (closed r mem nullable)

theorem Closed.sweep (closed : Closed rules known) :
    ∀ {some : List Rule}, some ⊆ rules → Nullable.sweep some known = known := by
  intro some
  induction some with
  | nil => intro _; rfl
  | cons r rest ih =>
      intro sub
      show Nullable.sweep rest (Nullable.learn known r) = known
      rw [closed.learn (sub List.mem_cons_self)]
      exact ih fun s mem => sub (List.mem_cons_of_mem r mem)

/-- **As many sweeps as there are names missing are enough** to settle. -/
theorem settles_sweeps :
    ∀ (n : Nat) {known : List String}, Partial rules known → rules.length ≤ n + known.length →
      Settles rules known (sweeps rules n known) := by
  intro n
  induction n with
  | zero =>
      intro known distinct full
      -- the known names are distinct and as many as the rules: no rule is left to add
      have closed := distinct.closed_of_length_le (by omega)
      exact .still (closed.sweep (List.Subset.refl rules))
  | succ n ih =>
      intro known distinct enough
      have grows := prefix_sweep rules known
      rw [sweeps]
      split
      · rename_i same
        exact .still (grows.eq_of_length same.symm).symm
      · rename_i more
        have longer := grows.length_le
        refine .again (fun same => more (congrArg List.length same)) ?_
        exact ih (distinct.sweep (List.Subset.refl rules)) (by omega)

/-- Sweeping ends in one set of names only. -/
theorem Settles.unique {other : List String} (h : Settles rules known result)
    (h' : Settles rules known other) : result = other := by
  induction h with
  | still fixed =>
      cases h' with
      | still _ => rfl
      | again moves _ => exact absurd fixed moves
  | again moves _ ih =>
      cases h' with
      | still fixed => exact absurd fixed moves
      | again _ rest => exact ih rest

/-- **Sweeping from nothing ends**, and it ends in the nullable names. -/
theorem settles_iff : Settles rules [] result ↔ result = nullableNames rules := by
  have ends : Settles rules [] (nullableNames rules) :=
    settles_sweeps rules.length ⟨List.nodup_nil, List.nil_subset _⟩ (by simp)
  constructor
  · intro h
    exact h.unique ends
  · rintro rfl
    exact ends

end Nullable

/-- **The nullable names are in every closed set of names.** -/
theorem nullableNames_subset {rules : List Rule} {known : List String}
    (closed : Nullable.Closed rules known) : nullableNames rules ⊆ known := by
  intro name mem
  obtain ⟨r, isRule, rfl, production, isAlternative, all⟩ := mem_nullableNames_iff.mp mem
  refine closed r isRule (List.any_eq_true.mpr ⟨production, isAlternative, ?_⟩)
  exact List.all_eq_true.mpr fun e he => closed.nullable_of_vanishes (all e he)

/-! ### Order -/

/-- The rules of one table are found in another, with all their alternatives. -/
def Included (rules others : List Rule) : Prop :=
  ∀ r ∈ rules, ∃ s ∈ others, s.name = r.name ∧ r.alternatives ⊆ s.alternatives

namespace Included

variable {rules others : List Rule}

/-- A derivation is one in every table that includes the rules. -/
theorem vanishes (h : Included rules others) {e : Element} (vanishes : e.Vanishes rules) :
    e.Vanishes others := by
  induction vanishes with
  | optional => exact .optional
  | repeatable => exact .repeatable
  | omitted => exact .omitted
  | inverse inverse => exact .inverse inverse
  | rule isRule isAlternative _ ih =>
      obtain ⟨s, isOther, same, all⟩ := h _ isRule
      rw [← same]
      exact .rule isOther (all isAlternative) ih

theorem nullableName (h : Included rules others) {name : String}
    (nullable : NullableName rules name) : NullableName others name := by
  obtain ⟨r, isRule, rfl, production, isAlternative, all⟩ := nullable
  obtain ⟨s, isOther, same, more⟩ := h r isRule
  exact ⟨s, isOther, same, production, more isAlternative, fun e he => h.vanishes (all e he)⟩

/-- Tables are included rule by rule. -/
theorem of_forall₂ {Same : Rule → Rule → Prop}
    (keeps : ∀ r s, Same r s → s.name = r.name ∧ r.alternatives ⊆ s.alternatives)
    (h : List.Forall₂ Same rules others) : Included rules others := by
  induction h with
  | nil => exact List.forall_mem_nil _
  | @cons r s _ _ same _ ih =>
      refine List.forall_mem_cons.mpr ⟨⟨s, List.mem_cons_self, keeps r s same⟩, ?_⟩
      intro other isRule
      obtain ⟨found, isOther, kept⟩ := ih other isRule
      exact ⟨found, List.mem_cons_of_mem s isOther, kept⟩

end Included

/-- **The same rules in another order**, each with the same alternatives in another
order. -/
def Rearranged (rules others : List Rule) : Prop :=
  ∃ middle, rules.Perm middle ∧
    List.Forall₂ (fun r s => r.name = s.name ∧ r.alternatives.Perm s.alternatives) middle others

namespace Rearranged

variable {rules others : List Rule}

theorem included (h : Rearranged rules others) : Included rules others := by
  obtain ⟨middle, moved, same⟩ := h
  intro r isRule
  exact Included.of_forall₂ (fun r s kept => ⟨kept.1.symm, kept.2.subset⟩) same r
    (moved.mem_iff.mp isRule)

theorem included_back (h : Rearranged rules others) : Included others rules := by
  obtain ⟨middle, moved, same⟩ := h
  intro s isOther
  obtain ⟨r, isMiddle, kept⟩ :=
    Included.of_forall₂ (fun s r kept => ⟨kept.1, kept.2.symm.subset⟩) same.flip s isOther
  exact ⟨r, moved.mem_iff.mpr isMiddle, kept⟩

/-- **Derivations know no order.** -/
theorem nullableName_iff (h : Rearranged rules others) {name : String} :
    NullableName rules name ↔ NullableName others name :=
  ⟨h.included.nullableName, h.included_back.nullableName⟩

end Rearranged

/-- **The nullable names are the least fixed point.**  A name is among them exactly if
some production of its rule has elements only that vanish by a finite derivation.
Sweeping over the rules, without a bound on the sweeps, ends in them and in nothing
else; they are closed under the rules, and every other closed set holds them.  They are
the same for the same rules and alternatives in any other order. -/
theorem nullableNames_least (rules : List Rule) :
    (∀ name, name ∈ nullableNames rules ↔ NullableName rules name) ∧
    (∀ result, Nullable.Settles rules [] result ↔ result = nullableNames rules) ∧
    (Nullable.Closed rules (nullableNames rules) ∧
      ∀ known, Nullable.Closed rules known → nullableNames rules ⊆ known) ∧
    ∀ others, Rearranged rules others →
      ∀ name, name ∈ nullableNames others ↔ name ∈ nullableNames rules := by
  refine ⟨fun name => mem_nullableNames_iff, fun result => Nullable.settles_iff,
    ⟨nullableNames_closed rules, fun known => nullableNames_subset⟩, ?_⟩
  intro others rearranged name
  rw [mem_nullableNames_iff, mem_nullableNames_iff, rearranged.nullableName_iff]

/-- Rules each of which is nullable because of the next one. -/
def nullableChain : List Rule :=
  [{ name := "list", alternatives := [[.rule "items"]] },
   { name := "items", alternatives := [[.literal "none"], [.rule "item"]] },
   { name := "item", alternatives := [[.optionalOne (.ofType "IDENT")]] }]

/-- The same rules from the last to the first, with the two alternatives exchanged. -/
def nullableChainBack : List Rule :=
  [{ name := "item", alternatives := [[.optionalOne (.ofType "IDENT")]] },
   { name := "items", alternatives := [[.rule "item"], [.literal "none"]] },
   { name := "list", alternatives := [[.rule "items"]] }]

/-- A single sweep finds one name in the one order and all of them in the other, and
all sweeps find the same names, which a larger closed set holds. -/
theorem nullableNames_least_chain :
    Rearranged nullableChain nullableChainBack ∧
      Nullable.sweep nullableChain [] = ["item"] ∧
      Nullable.sweep nullableChainBack [] = ["item", "items", "list"] ∧
      (∀ name, name ∈ nullableNames nullableChainBack ↔ name ∈ nullableNames nullableChain) ∧
      Nullable.Closed nullableChain ["mark", "list", "items", "item"] ∧
      nullableNames nullableChain ⊆ ["mark", "list", "items", "item"] := by
  have rearranged : Rearranged nullableChain nullableChainBack := by
    refine ⟨nullableChain.reverse, (List.reverse_perm _).symm, ?_⟩
    exact .cons ⟨rfl, .refl _⟩ (.cons ⟨rfl, .swap _ _ _⟩ (.cons ⟨rfl, .refl _⟩ .nil))
  have closed : Nullable.Closed nullableChain ["mark", "list", "items", "item"] := by
    show ∀ r ∈ nullableChain, _
    decide
  obtain ⟨-, -, ⟨-, least⟩, order⟩ := nullableNames_least nullableChain
  exact ⟨rearranged, by decide, by decide, order _ rearranged, closed, least _ closed⟩

end GrammarKit
