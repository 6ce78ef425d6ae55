import GrammarKit.Proofs.QueryStages

/-!
# Layouts of tokens

Tokens that no word reaches across fall into parts, and passes over them go on
part by part.  A **layout** is such a division in which every part folds into one
word when it is left alone; word building then ends in these words.

## Main Definitions

* `Query.Gap` — tokens that no word before them reaches into
* `Query.Folds` — passes over a part end in one word
* `Query.Layout` — parts that fold into words, with gaps between them

## Main Statements

* `Query.sweep_append` — a sweep goes on part by part
* `Query.Layout.step`, `Query.Layout.fixed` — a pass keeps a layout, and what it
  leaves as it is are the words
* `Query.tokenize_of_layout` — so word building ends in the words

## Design Notes

A token without a role is never part of a word, so it makes a gap.  The parts of
a layout take different numbers of passes; one that is folded stays as it is.
-/

namespace GrammarKit.Query

open GrammarKit.Parser

/-! ### Gaps -/

/-- Tokens that no word before them reaches into: the first has no role. -/
def Gap (w : List Token) : Prop :=
  ∀ t, w.head? = some t → role t = none

theorem gap_nil : Gap [] := nofun

theorem gap_cons {t : Token} (h : role t = none) (w : List Token) : Gap (t :: w) := by
  intro u same
  cases same
  exact h

section Gaps

variable {rest : List Token}

theorem next_of_gap (gap : Gap rest) (r : Role) : next r rest = false := by
  cases rest with
  | nil => rfl
  | cons t w => exact fits_of_role_none (gap t rfl) r

theorem next_append (gap : Gap rest) (r : Role) (ahead : List Token) :
    next r (ahead ++ rest) = next r ahead := by
  cases ahead with
  | nil => exact next_of_gap gap r
  | cons t w => rfl

theorem fraction_append (gap : Gap rest) (ahead : List Token) :
    fraction (ahead ++ rest) = fraction ahead := by
  cases ahead with
  | nil => simp [fraction, nextAll, next_of_gap gap]
  | cons d more =>
      simp only [fraction, nextAll, next_append gap, List.cons_append, List.drop_succ_cons,
        List.drop_zero, next_cons]

theorem steps_append (gap : Gap rest) (ahead : List Token) :
    steps (ahead ++ rest) = steps ahead := by
  match ahead with
  | [] =>
      have none : nextAll [.dot, .name] rest = false := by simp [nextAll, next_of_gap gap]
      rw [List.nil_append, steps_of_not_next none]
      rfl
  | [d] =>
      have none : nextAll [.dot, .name] (d :: rest) = false := by
        simp [nextAll, next_of_gap gap]
      show steps (d :: rest) = _
      rw [steps_of_not_next none]
      rfl
  | d :: n :: more =>
      rw [List.cons_append, List.cons_append, steps, steps, steps_append gap more]

theorem seek_append {r : Role} {ahead : List Token} {n : Nat} (h : seek r ahead = some n)
    (rest : List Token) : seek r (ahead ++ rest) = some n := by
  rw [seek, List.findIdx?_append]
  rw [seek] at h
  rw [h]
  rfl

/-- **A word that ends before a gap** does not depend on what is behind it. -/
theorem munch_append (gap : Gap rest) {t : Token} {ahead : List Token} {word : String × Nat}
    (h : munch t ahead = some word) : munch t (ahead ++ rest) = some word := by
  have behind : next .number ahead = true →
      fraction ((ahead ++ rest).drop 1) = fraction (ahead.drop 1) := by
    intro isNext
    obtain ⟨u, more, rfl, -⟩ := exists_of_next isNext
    exact fraction_append gap more
  unfold munch at h ⊢
  cases hr : role t with
  | none =>
      rw [hr] at h
      exact h
  | some r =>
      rw [hr] at h
      cases r
      case blockOpen | dashes | slashes | mark =>
        obtain ⟨n, found, rfl⟩ := Option.map_eq_some_iff.mp h
        simp only [seek_append found, Option.map_some]
      case plus | minus =>
        -- the fraction of a number behind a sign counts only if the number is there
        simp only [next_append gap] at h ⊢
        by_cases isNext : next .number ahead = true
        · simp only [behind isNext]
          exact h
        · simp only [isNext] at h ⊢
          exact h
      all_goals
        simp only [next_append gap, fraction_append gap, steps_append gap] at h ⊢
        exact h

theorem steps_le (ahead : List Token) : steps ahead ≤ ahead.length := by
  match ahead with
  | [] => exact Nat.le_refl _
  | [d] => exact Nat.zero_le _
  | d :: n :: more =>
      have others := steps_le more
      rw [steps]
      split
      · simp only [List.length_cons]
        omega
      · exact Nat.zero_le _

theorem fraction_le (ahead : List Token) : fraction ahead ≤ ahead.length := by
  unfold fraction
  split
  · rename_i both
    simp only [nextAll, Bool.and_true, Bool.and_eq_true] at both
    obtain ⟨d, more, rfl, -⟩ := exists_of_next both.1
    obtain ⟨n, more, rfl, -⟩ := exists_of_next both.2
    simp
  · exact Nat.zero_le _

theorem seek_lt {r : Role} {ahead : List Token} {n : Nat} (h : seek r ahead = some n) :
    n < ahead.length :=
  (List.findIdx?_eq_some_iff_getElem.mp h).1

/-- A word is taken from the tokens ahead. -/
theorem munch_le {t : Token} {ahead : List Token} {type : String} {n : Nat}
    (h : munch t ahead = some (type, n)) : n ≤ ahead.length := by
  have one : ∀ {r : Role}, next r ahead = true → 1 ≤ ahead.length := by
    intro r isNext
    obtain ⟨u, more, rfl, -⟩ := exists_of_next isNext
    simp
  unfold munch at h
  split at h
  · cases h
    exact Nat.zero_le _
  · cases h
    exact steps_le ahead
  · cases h
    exact fraction_le ahead
  · split at h
    · rename_i isNext
      cases h
      exact one isNext
    · cases h
      exact Nat.zero_le _
  · obtain ⟨m, found, same⟩ := Option.map_eq_some_iff.mp h
    cases same
    exact seek_lt found
  · obtain ⟨m, found, same⟩ := Option.map_eq_some_iff.mp h
    cases same
    exact Nat.le_of_lt (seek_lt found)
  · obtain ⟨m, found, same⟩ := Option.map_eq_some_iff.mp h
    cases same
    exact Nat.le_of_lt (seek_lt found)
  · obtain ⟨m, found, same⟩ := Option.map_eq_some_iff.mp h
    cases same
    exact seek_lt found
  · cases h
    exact Nat.zero_le _
  · split at h
    · rename_i signed
      cases h
      obtain ⟨u, more, rfl, -⟩ := exists_of_next signed.2
      have others := fraction_le more
      simp only [List.drop_succ_cons, List.drop_zero, List.length_cons]
      omega
    · split at h
      · rename_i paired
        cases h
        obtain ⟨r, -, isNext⟩ := List.any_eq_true.mp paired
        exact one isNext
      · cases h
        exact Nat.zero_le _

/-- The sweep of a word and of what is behind it. -/
theorem sweep_cons {t : Token} {ahead : List Token} {type : String} {n : Nat}
    (h : munch t ahead = some (type, n)) :
    sweep (t :: ahead) = (sweep (ahead.drop n)).map (fold type t (ahead.take n) :: ·) := by
  rw [sweep, h]

/-- A token that is a word by itself. -/
theorem sweep_kept {t : Token} {ahead : List Token} (h : munch t ahead = some (t.type, 0)) :
    sweep (t :: ahead) = (sweep ahead).map (t :: ·) := by
  rw [sweep_cons h, List.take_zero, fold_kept_eq, List.drop_zero]

theorem munch_of_role_none {t : Token} (h : role t = none) (ahead : List Token) :
    munch t ahead = some (t.type, 0) := by
  rw [munch, h]

/-- **A sweep goes on part by part.** -/
theorem sweep_append (gap : Gap rest) {w w' : List Token} (h : sweep w = some w') :
    sweep (w ++ rest) = (sweep rest).map (w' ++ ·) := by
  match w with
  | [] =>
      rw [sweep] at h
      cases h
      simp
  | t :: ahead =>
      cases word : munch t ahead with
      | none =>
          rw [sweep, word] at h
          cases h
      | some folded =>
          obtain ⟨type, n⟩ := folded
          have inside := munch_le word
          rw [sweep_cons word] at h
          obtain ⟨others, further, rfl⟩ := Option.map_eq_some_iff.mp h
          have behind := sweep_append gap further
          rw [List.cons_append, sweep_cons (munch_append gap word),
            List.drop_append_of_le_length inside, List.take_append_of_le_length inside, behind,
            Option.map_map]
          rfl
termination_by w.length

/-- A sweep leaves a gap a gap. -/
theorem gap_sweep {swept : List Token} (gap : Gap rest) (h : sweep rest = some swept) :
    Gap swept := by
  cases rest with
  | nil =>
      rw [sweep] at h
      cases h
      exact gap_nil
  | cons t w =>
      have lone := gap t rfl
      rw [sweep_kept (munch_of_role_none lone w)] at h
      obtain ⟨others, -, rfl⟩ := Option.map_eq_some_iff.mp h
      exact gap_cons lone others

theorem Swept.length_le {tokens swept : List Token} (h : Swept tokens swept) :
    swept.length ≤ tokens.length := by
  induction h with
  | nil => exact Nat.le_refl _
  | cons _ _ ih =>
      simp only [List.length_cons, List.length_append]
      omega

end Gaps

/-! ### Parts and layouts -/

/-- What matters of a token: its type and text. -/
def key (t : Token) : String × String :=
  (t.type, t.text)

/-- **Passes over a part end in one word**, which stays as it is. -/
inductive Folds (v : String × String) : List Token → Prop where
  | done {t : Token} : key t = v → sweep [t] = some [t] → Folds v [t]
  | pass {w w' : List Token} : sweep w = some w' → Folds v w' → Folds v w

/-- **Parts that fold into words**, with gaps between them. -/
inductive Layout : List (String × String) → List Token → Prop where
  | nil : Layout [] []
  /-- A token that no word takes. -/
  | solo {t : Token} {vs : List (String × String)} {w : List Token} :
      role t = none → Layout vs w → Layout (key t :: vs) (t :: w)
  | part {v : String × String} {u : List Token} {vs : List (String × String)} {w : List Token} :
      Folds v u → Gap w → Layout vs w → Layout (v :: vs) (u ++ w)

section Layouts

variable {v : String × String} {vs us : List (String × String)} {u w : List Token}

theorem Folds.step (h : Folds v u) : ∃ u', sweep u = some u' ∧ Folds v u' := by
  cases h with
  | done same fixed => exact ⟨_, fixed, .done same fixed⟩
  | pass first others => exact ⟨_, first, others⟩

theorem Folds.fixed (h : Folds v u) (fixed : sweep u = some u) : u.map key = [v] := by
  induction h with
  | done same _ => rw [List.map_cons, same, List.map_nil]
  | pass first _ ih =>
      rw [fixed] at first
      cases first
      exact ih fixed

theorem Layout.append (first : Layout vs u) (gap : Gap w) (second : Layout us w) :
    Layout (vs ++ us) (u ++ w) := by
  induction first with
  | nil => exact second
  | solo lone _ ih => exact .solo lone ih
  | @part v u vs rest folds before _ ih =>
      rw [List.append_assoc]
      refine .part folds ?_ ih
      intro t isNext
      cases rest with
      | nil => exact gap t isNext
      | cons x more => exact before t isNext

/-- A part by itself. -/
theorem Folds.layout (h : Folds v u) : Layout [v] u := by
  have alone := Layout.part h gap_nil .nil
  rwa [List.append_nil] at alone

/-- **A pass keeps a layout.** -/
theorem Layout.step (h : Layout vs w) : ∃ w', sweep w = some w' ∧ Layout vs w' := by
  induction h with
  | nil => exact ⟨[], by rw [sweep], .nil⟩
  | @solo t vs w lone _ ih =>
      obtain ⟨w', swept, layout⟩ := ih
      refine ⟨t :: w', ?_, .solo lone layout⟩
      rw [sweep_kept (munch_of_role_none lone w), swept]
      rfl
  | part folds gap _ ih =>
      obtain ⟨w', swept, layout⟩ := ih
      obtain ⟨u', first, others⟩ := folds.step
      refine ⟨u' ++ w', ?_, .part others (gap_sweep gap swept) layout⟩
      rw [sweep_append gap first, swept]
      rfl

/-- **What a pass leaves as it is are the words.** -/
theorem Layout.fixed (h : Layout vs w) (fixed : sweep w = some w) : w.map key = vs := by
  induction h with
  | nil => rfl
  | @solo t vs w lone _ ih =>
      rw [sweep_kept (munch_of_role_none lone w)] at fixed
      obtain ⟨w', swept, same⟩ := Option.map_eq_some_iff.mp fixed
      cases same
      rw [List.map_cons, ih swept]
  | @part v u vs w folds gap layout ih =>
      obtain ⟨u', first, -⟩ := folds.step
      obtain ⟨w', second, -⟩ := layout.step
      rw [sweep_append gap first, second] at fixed
      -- no part grows, so each is left as it is
      have short := (swept_of_sweep first).length_le
      have short' := (swept_of_sweep second).length_le
      have whole : u' ++ w' = u ++ w := Option.some.inj fixed
      have length := congrArg List.length whole
      rw [List.length_append, List.length_append] at length
      obtain ⟨rfl, rfl⟩ := List.append_inj whole (by omega)
      rw [List.map_append, folds.fixed first, ih second]
      rfl

/-- Passes over a layout settle. -/
theorem words_layout (vs : List (String × String)) :
    words.Progresses (fun w => (∀ t ∈ w, Regular t) ∧ Layout vs w) (fun _ => False) weigh := by
  rintro w ⟨regular, layout⟩
  obtain ⟨w', swept, layout'⟩ := layout.step
  have progress := sweep_progress regular swept
  refine Or.inl ⟨w', (pass_eq_ok_iff regular).mpr swept, ⟨progress.regular, layout'⟩, ?_⟩
  exact progress.moves.imp And.left id

/-- **Word building ends in the words of a layout**, less the blanks. -/
theorem tokenize_of_layout {source : String} (h : Layout vs (Profile.standalone.tokens source)) :
    ∃ tokens, (language.tokenize source false).outcome = .ok tokens ∧
      tokens.map key = vs.filter fun v => v.1 ∉ Token.blankTypes := by
  have regular : ∀ t ∈ Profile.standalone.tokens source, Regular t :=
    fun t mem => regular_of_fits (Profile.fits_of_mem_tokens mem)
  have room := weigh_le (Profile.standalone.tokens source)
  rw [outcome_tokenize]
  rcases WordBuilder.build_of_measure (words_layout vs) rfl ⟨regular, h⟩ (by omega) false with
    ⟨settled, result, ⟨regularWords, layout⟩, fixed, built, same⟩ | ⟨e, -, impossible⟩
  · refine ⟨result, built, ?_⟩
    rw [if_neg Bool.false_ne_true] at same
    rw [same, ← layout.fixed ((pass_eq_ok_iff regularWords).mp fixed), List.filter_map]
    congr 1
    refine List.filter_congr fun t _ => ?_
    simp [Token.isBlank, key]
    rfl
  · exact impossible.elim

end Layouts

end GrammarKit.Query
