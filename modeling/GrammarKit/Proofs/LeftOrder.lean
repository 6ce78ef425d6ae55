import GrammarKit.Grammar.LeftRecursion

/-!
# A search without a cycle gives an order

`LeftRecursion.search` is a depth-first search that stops at the first cycle.
When it finds none, the list of finished names it ends with is more than a set
of visited names: a name is finished only after all its targets are, so every
name stands *behind* the names it refers to.  The position in that list is the
rank on which every termination argument about left references rests.

## Main Definitions

* `LeftRecursion.Layered` — each name stands behind all its targets
* `LeftRecursion.Ordered` — what the finished names are at any time
* `LeftRecursion.Extends` — what a visit may do to them

## Main Statements

* `LeftRecursion.search_ordered` — the names a search ends with are ordered and
  are all the names
* `LeftRecursion.Ordered.idxOf_lt` — a target stands before the name that has it

## Design Notes

The depth of a visit is a bound on its recursion, not part of the algorithm.  It
is never used up, because a path repeats no name: this is where the length of
the path enters the induction.
-/

namespace GrammarKit.LeftRecursion

variable {targets : String → List String} {names path : List String}

/-- Each name stands behind all its targets. -/
def Layered (targets : String → List String) (order : List String) : Prop :=
  ∀ before name after, order = before ++ name :: after → targets name ⊆ before

theorem layered_nil : Layered targets [] := by
  intro before name after h
  simp at h

/-- A name may follow once all its targets are there. -/
theorem Layered.concat {order : List String} {name : String} (h : Layered targets order)
    (sub : targets name ⊆ order) : Layered targets (order ++ [name]) := by
  intro before m after split
  rcases List.eq_nil_or_concat after with rfl | ⟨init, last, rfl⟩
  · obtain ⟨rfl, single⟩ := List.append_inj' split rfl
    obtain rfl : name = m := by simpa using single
    exact sub
  · have split' : order ++ [name] = (before ++ m :: init) ++ [last] := by
      rw [split]; simp
    obtain ⟨rfl, -⟩ := List.append_inj' split' rfl
    exact h before m init rfl

/-- Finished names: distinct, each behind its targets. -/
structure Ordered (targets : String → List String) (names finished : List String) : Prop where
  layered : Layered targets finished
  nodup : finished.Nodup
  subset : finished ⊆ names

/-- A target stands before every name that has it. -/
theorem Ordered.idxOf_lt {order : List String} {name target : String}
    (h : Ordered targets names order) (mem : name ∈ order) (ht : target ∈ targets name) :
    order.idxOf target < order.idxOf name := by
  obtain ⟨before, after, rfl, fresh⟩ := List.eq_append_cons_of_mem mem
  have early : target ∈ before := h.layered before name after rfl ht
  rw [List.idxOf_append, if_pos early, List.idxOf_append, if_neg fresh]
  have := List.idxOf_lt_length_of_mem early
  omega

/-! ### What a visit does -/

/-- The finished names after a part of the search: the old ones are still there
and no name of the path has been added, for a path never meets itself. -/
structure Extends (targets : String → List String) (names path finished next : List String) :
    Prop where
  ordered : Ordered targets names next
  old : finished ⊆ next
  kept : ∀ m ∈ path, m ∈ next → m ∈ finished

theorem Extends.refl {finished : List String} (h : Ordered targets names finished) :
    Extends targets names path finished finished :=
  ⟨h, List.Subset.refl finished, fun _ _ mem => mem⟩

theorem Extends.trans {first second third : List String}
    (h₁ : Extends targets names path first second)
    (h₂ : Extends targets names path second third) :
    Extends targets names path first third :=
  ⟨h₂.ordered, List.Subset.trans h₁.old h₂.old, fun m hm mem => h₁.kept m hm (h₂.kept m hm mem)⟩

/-- A sequence of searches gives an answer only if both parts do. -/
private theorem exists_of_bind_eq_ok {x : Except (List String) (List String)}
    {f : List String → Except (List String) (List String)} {final : List String}
    (h : x >>= f = .ok final) : ∃ middle, x = .ok middle ∧ f middle = .ok final := by
  cases x with
  | error cycle => cases h
  | ok middle => exact ⟨middle, rfl, h⟩

/-- Folding a step that extends the finished names and finishes what it is given
finishes all that it is given. -/
theorem foldlM_extends (path : List String)
    {step : List String → String → Except (List String) (List String)} :
    ∀ (todo : List String),
      (∀ next ∈ todo, ∀ finished final, Ordered targets names finished →
        step finished next = .ok final →
          Extends targets names path finished final ∧ next ∈ final) →
      ∀ finished final, Ordered targets names finished → todo.foldlM step finished = .ok final →
        Extends targets names path finished final ∧ todo ⊆ final := by
  intro todo
  induction todo with
  | nil =>
      intro _ finished final ordered h
      obtain rfl : finished = final := by simpa [pure, Except.pure] using h
      exact ⟨.refl ordered, List.nil_subset _⟩
  | cons next rest ih =>
      intro good finished final ordered h
      rw [List.foldlM_cons] at h
      obtain ⟨middle, hstep, hfold⟩ := exists_of_bind_eq_ok h
      obtain ⟨toMiddle, hnext⟩ :=
        good next List.mem_cons_self finished middle ordered hstep
      obtain ⟨toFinal, hrest⟩ :=
        ih (fun m hm => good m (List.mem_cons_of_mem next hm)) middle final
          toMiddle.ordered hfold
      refine ⟨toMiddle.trans toFinal, ?_⟩
      intro m hm
      rcases List.mem_cons.mp hm with rfl | later
      · exact toFinal.old hnext
      · exact hrest later

/-- **A visit that finds no cycle finishes its name** and keeps the finished
names in order. -/
theorem visit_extends (declared : ∀ n ∈ names, targets n ⊆ names) :
    ∀ (depth : Nat) (path finished : List String) (name : String) (final : List String),
      path.Nodup → path ⊆ names → name ∈ names → name ∉ path → name ∉ finished →
      names.length < depth + path.length → Ordered targets names finished →
      visit targets depth path finished name = .ok final →
        Extends targets names path finished final ∧ name ∈ final := by
  intro depth
  induction depth with
  | zero =>
      intro path finished name final nodup sub _ _ _ bound
      have := nodup.length_le_of_subset sub
      omega
  | succ depth ih =>
      intro path finished name final nodup sub mem off fresh bound ordered h
      have nodup' : (path ++ [name]).Nodup :=
        (List.perm_append_singleton name path).nodup_iff.mpr (List.nodup_cons.mpr ⟨off, nodup⟩)
      have sub' : path ++ [name] ⊆ names :=
        List.append_subset.mpr ⟨sub, by simpa using mem⟩
      rw [visit] at h
      obtain ⟨last, hfold, hlast⟩ := exists_of_bind_eq_ok h
      obtain rfl : last ++ [name] = final := by simpa using hlast
      -- the targets are visited with the name already on the path
      obtain ⟨toLast, done⟩ :=
        foldlM_extends (path ++ [name]) (targets name)
          (by
            intro next hnext finished final ordered hstep
            split at hstep
            · simp at hstep
            · rename_i offPath
              split at hstep
              · rename_i known
                obtain rfl : finished = final := by simpa using hstep
                exact ⟨.refl ordered, known⟩
              · rename_i unknown
                exact ih (path ++ [name]) finished next final nodup' sub'
                  (declared name mem hnext) offPath unknown (by simp; omega) ordered hstep)
          finished last ordered hfold
      have unfinished : name ∉ last := fun hlast =>
        fresh (toLast.kept name (by simp) hlast)
      refine ⟨⟨⟨toLast.ordered.layered.concat done, ?_, ?_⟩, ?_, ?_⟩, by simp⟩
      · exact (List.perm_append_singleton name last).nodup_iff.mpr
          (List.nodup_cons.mpr ⟨unfinished, toLast.ordered.nodup⟩)
      · exact List.append_subset.mpr ⟨toLast.ordered.subset, by simpa using mem⟩
      · exact List.Subset.trans toLast.old (List.subset_append_left _ _)
      · intro m hm hmem
        rcases List.mem_append.mp hmem with inLast | new
        · exact toLast.kept m (by simp [hm]) inLast
        · rw [List.mem_singleton] at new
          exact absurd (new ▸ hm) off

/-- **A search without a cycle orders all names.** -/
theorem search_ordered (declared : ∀ n ∈ names, targets n ⊆ names) {final : List String}
    (h : search targets names = .ok final) :
    Ordered targets names final ∧ names ⊆ final := by
  have empty : Ordered targets names [] :=
    ⟨layered_nil, List.nodup_nil, List.nil_subset names⟩
  obtain ⟨extended, all⟩ :=
    foldlM_extends [] names
      (by
        intro name mem finished final ordered hstep
        split at hstep
        · rename_i known
          obtain rfl : finished = final := by simpa using hstep
          exact ⟨.refl ordered, known⟩
        · rename_i unknown
          exact visit_extends declared _ [] finished name final List.nodup_nil
            (List.nil_subset names) mem List.not_mem_nil unknown (by simp) ordered hstep)
      [] final empty h
  exact ⟨extended.ordered, all⟩

end GrammarKit.LeftRecursion
