import GrammarKit.Proofs.QueryLayout

/-!
# The parts of words fold again

Passes over the parts that the lexer makes of a word fold them into the word: a
name or a number link by link, an operator at once, a string in two passes.

## Main Definitions

* `Query.Links` — the tokens of a name or a number

## Main Statements

* `Query.Links.sweep`, `Query.Links.folds` — a pass leaves fewer links, and passes
  leave one
* `Query.Marked.closedBy`, `Query.folds_string` — the first mark of the kind
  closes a string, so two passes fold it
* `Query.folds_of_munch` — two passes fold what the second takes for one word
* `Query.folds_comparison`, `Query.folds_pair` — operators

## Design Notes

Links of names and of numbers differ in their marks and in how many of them one
pass folds; both end in a single link because some pair of neighbours can always
be folded.
-/

namespace GrammarKit.Query

open GrammarKit.Parser
open Profile (RunKind tokenAt)

/-! ### Links -/

/-- The marks that may stand before a name or a number. -/
def Role.marks : Role → List Role
  | .name => [.colon]
  | .number => [.plus, .minus]
  | _ => []

/-- **The tokens of a name or a number**: tokens of the type with full stops between
them, and marks before them. -/
inductive Links (core : Role) : List Token → Prop where
  | last {t : Token} : t.type = core.terminal.value → Links core [t]
  | mark {m : Token} {r : Role} {w : List Token} :
      role m = some r → r ∈ core.marks → (r = .minus → next .minus w = false) → Links core w →
      Links core (m :: w)
  | step {t d : Token} {w : List Token} :
      t.type = core.terminal.value → role d = some .dot → Links core w → Links core (t :: d :: w)

/-- What may stand behind a token of a name or a number. -/
def Tail (core : Role) (w : List Token) : Prop :=
  w = [] ∨ ∃ d w', w = d :: w' ∧ role d = some .dot ∧ Links core w'

section Links

variable {core : Role} {t : Token} {w : List Token}

/-- The type decides that a token is a name or a number. -/
theorem role_of_core (isCore : core ∈ [Role.name, .number]) (h : t.type = core.terminal.value) :
    role t = some core := by
  have accepted : core.terminal.accepts t = true := by
    simp only [List.mem_cons, List.not_mem_nil, or_false] at isCore
    rcases isCore with rfl | rfl <;> simp [Terminal.accepts, Role.terminal, Terminal.ofType,
      Terminal.valueOf, h]
  simp only [List.mem_cons, List.not_mem_nil, or_false] at isCore
  rcases isCore with rfl | rfl
  · exact List.find?_cons_of_pos accepted
  · have rejected : Role.name.terminal.accepts t = false := by
      rw [Terminal.accepts]
      show (Text.upper t.type == _) = false
      rw [h]
      decide
    refine (List.find?_cons_of_neg ?_).trans (List.find?_cons_of_pos accepted)
    rw [rejected]
    exact Bool.false_ne_true

theorem Links.tail (h : Links core (t :: w)) (isHere : role t = some core)
    (isCore : core ∈ [Role.name, .number]) : Tail core w := by
  have apart : ∀ core ∈ [Role.name, .number], core ∉ core.marks := by decide
  cases h with
  | last _ => exact Or.inl rfl
  | mark isMark mem _ _ =>
      rw [isHere] at isMark
      cases isMark
      exact (apart _ isCore mem).elim
  | step _ isDot links => exact Or.inr ⟨_, _, rfl, isDot, links⟩

/-- Links begin with a token of the type, or with a mark. -/
theorem Links.head (h : Links core w) (isCore : core ∈ [Role.name, .number]) :
    ∃ t rest, w = t :: rest ∧ (role t = some core ∧ t.type = core.terminal.value ∨
      ∃ r ∈ core.marks, role t = some r) := by
  cases h with
  | last type => exact ⟨_, _, rfl, Or.inl ⟨role_of_core isCore type, type⟩⟩
  | mark isMark mem _ _ => exact ⟨_, _, rfl, Or.inr ⟨_, mem, isMark⟩⟩
  | step type _ _ => exact ⟨_, _, rfl, Or.inl ⟨role_of_core isCore type, type⟩⟩

/-- Links that begin with a mark are more than one. -/
theorem Links.length_ne_one {r : Role} (h : Links core (t :: w)) (isMark : role t = some r)
    (mem : r ∈ core.marks) (isCore : core ∈ [Role.name, .number]) : w.length ≠ 0 := by
  have apart : ∀ core ∈ [Role.name, .number], core ∉ core.marks := by decide
  cases h with
  | last type =>
      rw [role_of_core isCore type] at isMark
      cases isMark
      exact (apart _ isCore mem).elim
  | mark _ _ _ inner => cases inner <;> simp
  | step _ _ _ => simp

/-- The steps of a path lead to its end or to a mark. -/
theorem tail_steps {w : List Token} (h : Tail .name w) :
    Tail .name (w.drop (steps w)) ∧ (steps w = 0 → w.length ≠ 2) := by
  have colon : ∀ r ∈ Role.name.marks, (r == Role.name || r.bare == Role.name) = false := by decide
  rcases h with rfl | ⟨d, w', rfl, isDot, links⟩
  · exact ⟨Or.inl rfl, by simp⟩
  · have dot := fits_role isDot
    obtain ⟨t, rest, rfl, ⟨isName, -⟩ | ⟨r, mem, isMark⟩⟩ := links.head (by decide)
    · have behind := tail_steps (links.tail isName (by decide))
      rw [steps, dot, fits_role isName, Bool.and_true, if_pos rfl]
      refine ⟨?_, by omega⟩
      rw [Nat.add_comm 2, List.drop_succ_cons, List.drop_succ_cons]
      exact behind.1
    · have none : fits .name t = false := (fits_of_role isMark _).trans (colon r mem)
      have zero : steps (d :: t :: rest) = 0 := by
        rw [steps, none, Bool.and_false]
        rfl
      have more := links.length_ne_one isMark mem (by decide)
      rw [zero]
      refine ⟨Or.inr ⟨d, t :: rest, rfl, isDot, links⟩, fun _ => ?_⟩
      simp only [List.length_cons]
      omega
termination_by w.length

/-- So does a fraction. -/
theorem tail_fraction (h : Tail .number w) :
    Tail .number (w.drop (fraction w)) ∧ (fraction w = 0 → w.length ≠ 2) := by
  have signs : ∀ r ∈ Role.number.marks, (r == Role.number || r.bare == Role.number) = false := by
    decide
  rcases h with rfl | ⟨d, w', rfl, isDot, links⟩
  · exact ⟨Or.inl rfl, by simp⟩
  · have dot := fits_role isDot
    obtain ⟨t, rest, rfl, ⟨isNumber, -⟩ | ⟨r, mem, isMark⟩⟩ := links.head (by decide)
    · have two : fraction (d :: t :: rest) = 2 := by
        simp [fraction, nextAll, dot, fits_role isNumber]
      rw [two]
      exact ⟨links.tail isNumber (by decide), by omega⟩
    · have none : fits .number t = false := (fits_of_role isMark _).trans (signs r mem)
      have zero : fraction (d :: t :: rest) = 0 := by
        simp [fraction, nextAll, dot, none]
      have more := links.length_ne_one isMark mem (by decide)
      rw [zero]
      refine ⟨Or.inr ⟨d, t :: rest, rfl, isDot, links⟩, fun _ => ?_⟩
      simp only [List.length_cons]
      omega

/-- **The word that begins a name or a number** ends where links go on. -/
theorem munch_core (isCore : core ∈ [Role.name, .number]) (isHere : role t = some core)
    (tail : Tail core w) :
    ∃ n, munch t w = some (core.terminal.value, n) ∧ Tail core (w.drop n) ∧
      (n = 0 → w.length ≠ 2) := by
  simp only [List.mem_cons, List.not_mem_nil, or_false] at isCore
  rcases isCore with rfl | rfl
  · exact ⟨steps w, by rw [munch, isHere]; rfl, tail_steps tail⟩
  · exact ⟨fraction w, by rw [munch, isHere]; rfl, tail_fraction tail⟩

/-- A mark before a token of the type is folded with it. -/
theorem munch_mark {m : Token} {r : Role} (isCore : core ∈ [Role.name, .number])
    (isMark : role m = some r) (mem : r ∈ core.marks) (isHere : role t = some core)
    (tail : Tail core w) :
    ∃ n, munch m (t :: w) = some (core.terminal.value, n + 1) ∧ Tail core (w.drop n) := by
  have isNext := fits_role isHere
  simp only [List.mem_cons, List.not_mem_nil, or_false] at isCore
  rcases isCore with rfl | rfl
  · simp only [Role.marks, List.mem_singleton] at mem
    subst mem
    refine ⟨0, ?_, tail⟩
    rw [munch, isMark]
    show some (if fits .name t = true then _ else _) = _
    rw [if_pos isNext]
    rfl
  · have sign : r = .plus ∨ r = .minus := by simpa [Role.marks] using mem
    refine ⟨fraction w, ?_, (tail_fraction tail).1⟩
    rcases sign with rfl | rfl <;>
      simp [munch, isMark, isNext, Nat.add_comm, Role.terminal, Terminal.ofType]

/-- A mark before another one is kept. -/
theorem munch_marks {m : Token} {r r' : Role} (isCore : core ∈ [Role.name, .number])
    (isMark : role m = some r) (mem : r ∈ core.marks) (isMark' : role t = some r')
    (mem' : r' ∈ core.marks) (apart : r = .minus → fits .minus t = false) :
    munch m (t :: w) = some (m.type, 0) := by
  have notCore : ∀ core ∈ [Role.name, .number], ∀ r ∈ core.marks,
      (r == core || r.bare == core) = false := by
    decide
  have none : fits core t = false := (fits_of_role isMark' _).trans (notCore core isCore r' mem')
  simp only [List.mem_cons, List.not_mem_nil, or_false] at isCore
  rcases isCore with rfl | rfl
  · simp only [Role.marks, List.mem_singleton] at mem
    subst mem
    simp [munch, isMark, none]
  · have sign : r = .plus ∨ r = .minus := by simpa [Role.marks] using mem
    rcases sign with rfl | rfl
    · simp [munch, isMark, none, Role.partners]
    · simp [munch, isMark, none, Role.partners, apart rfl]

/-- A full stop is kept. -/
theorem munch_dot (isDot : role t = some .dot) (w : List Token) :
    munch t w = some (t.type, 0) := by
  simp [munch, isDot, Role.partners]

/-- A single link is left as it is. -/
theorem sweep_last (isCore : core ∈ [Role.name, .number]) (type : t.type = core.terminal.value) :
    Query.sweep [t] = some [t] := by
  obtain ⟨n, word, -⟩ := munch_core isCore (role_of_core isCore type) (Or.inl rfl)
  have zero : n = 0 := Nat.le_zero.mp (munch_le word)
  rw [zero, ← type] at word
  rw [sweep_kept word, Query.sweep]
  rfl

/-- **A pass over links leaves links**, fewer of them unless there is one only. -/
theorem Links.sweep (isCore : core ∈ [Role.name, .number]) {w : List Token} (h : Links core w) :
    ∃ w', sweep w = some w' ∧ Links core w' ∧ (next .minus w = false → next .minus w' = false) ∧
      (w'.length < w.length ∨ w.length = 1) := by
  have notMinus : ∀ core ∈ [Role.name, .number], (core == .minus || core.bare == .minus) = false := by
    decide
  -- a token of the type, with links behind it that are swept already
  have begins : ∀ (u : Token) (tail : List Token), u.type = core.terminal.value → Tail core tail →
      tail.length < w.length → ∃ w', (Query.sweep tail).map (u :: ·) = some w' ∧ Links core w' ∧
        next .minus w' = false ∧ w'.length ≤ tail.length + 1 ∧
        (w'.length < tail.length + 1 ∨ tail = [] ∨ tail.length = 2) := by
    intro u tail type isTail short
    have quiet : fits .minus u = false :=
      (fits_of_role (role_of_core isCore type) _).trans (notMinus core isCore)
    rcases isTail with rfl | ⟨d, rest, rfl, isDot, links⟩
    · exact ⟨[u], by rw [Query.sweep]; rfl, .last type, quiet, by simp, by simp⟩
    · have smaller : rest.length < w.length := by
        simp only [List.length_cons] at short
        omega
      obtain ⟨rest', swept, links', -, fewer⟩ := Links.sweep isCore links
      have atMost := (swept_of_sweep swept).length_le
      refine ⟨u :: d :: rest', ?_, .step type isDot links', quiet, ?_, ?_⟩
      · rw [sweep_kept (munch_dot isDot rest), swept]
        rfl
      · simp only [List.length_cons]
        omega
      · simp only [List.length_cons]
        rcases fewer with fewer | one
        · exact Or.inl (by omega)
        · exact Or.inr (Or.inr (by omega))
  cases h with
  | @last t type => exact ⟨[t], sweep_last isCore type, .last type, fun here => here, Or.inr rfl⟩
  | @step t d rest type isDot links =>
      obtain ⟨n, word, tail, gone⟩ :=
        munch_core isCore (role_of_core isCore type) (Or.inr ⟨d, rest, rfl, isDot, links⟩)
      have inside := munch_le word
      obtain ⟨w', swept, links', quiet, short, fewer⟩ := begins
        (fold core.terminal.value t ((d :: rest).take n)) ((d :: rest).drop n) rfl tail
        (by simp only [List.length_drop, List.length_cons]; omega)
      refine ⟨w', by rw [sweep_cons word, swept], links', fun _ => quiet, Or.inl ?_⟩
      simp only [List.length_drop, List.length_cons] at short fewer inside ⊢
      by_cases zero : n = 0
      · have more := gone zero
        simp only [List.length_cons] at more
        rcases fewer with fewer | empty | two
        · omega
        · rw [zero] at empty
          cases empty
        · omega
      · omega
  | @mark m r rest isMark mem apart links =>
      obtain ⟨t, others, rfl, ⟨isHere, -⟩ | ⟨r', mem', isMark'⟩⟩ := links.head isCore
      · obtain ⟨n, word, tail⟩ :=
          munch_mark isCore isMark mem isHere (links.tail isHere isCore)
        have inside := munch_le word
        obtain ⟨w', swept, links', quiet, short, -⟩ := begins
          (fold core.terminal.value m ((t :: others).take (n + 1))) (others.drop n) rfl tail
          (by simp only [List.length_drop, List.length_cons]; omega)
        refine ⟨w', by rw [sweep_cons word, List.drop_succ_cons, swept], links', fun _ => quiet,
          Or.inl ?_⟩
        simp only [List.length_drop, List.length_cons] at short inside ⊢
        omega
      · obtain ⟨rest', swept, links', quiet, fewer⟩ := Links.sweep isCore links
        have more := links.length_ne_one isMark' mem' isCore
        refine ⟨m :: rest', ?_, .mark isMark mem (fun isMinus => quiet (apart isMinus)) links',
          fun here => here, Or.inl ?_⟩
        · rw [sweep_kept (munch_marks isCore isMark mem isMark' mem' apart), swept]
          rfl
        · simp only [List.length_cons] at fewer more ⊢
          omega
termination_by w.length

/-- **Links fold into one.** -/
theorem Links.folds (isCore : core ∈ [Role.name, .number]) {w : List Token} (h : Links core w) :
    Folds (core.terminal.value, String.ofList (chars w)) w := by
  obtain ⟨w', swept, links, -, fewer⟩ := h.sweep isCore
  by_cases one : w.length = 1
  · obtain ⟨t, rfl⟩ := List.length_eq_one_iff.mp one
    have type : t.type = core.terminal.value := by
      cases h with
      | last type => exact type
      | mark _ _ _ inner => cases inner
    refine .done ?_ (sweep_last isCore type)
    rw [key, type, chars_cons, chars_nil, List.append_nil, String.ofList_toList]
  · have shorter : w'.length < w.length := fewer.resolve_right one
    have others := Links.folds isCore links
    rw [(swept_of_sweep swept).chars_eq] at others
    exact .pass swept others
termination_by w.length

end Links

/-! ### Strings -/

section Strings

variable {double : Bool} {cs : List Char}

/-- A sweep of raw tokens misses no terminator. -/
theorem sweep_of_raw {w : List Token} (raw : ∀ t ∈ w, Profile.standalone.Fits t) :
    ∃ w', sweep w = some w' := by
  match w with
  | [] => exact ⟨[], by rw [sweep]⟩
  | t :: ahead =>
      simp only [List.forall_mem_cons] at raw
      obtain ⟨⟨type, n⟩, word⟩ : ∃ word, munch t ahead = some word := by
        unfold munch
        cases hr : role t with
        | none => exact ⟨_, rfl⟩
        | some r =>
            cases r with
            | blockOpen => exact (not_open_of_raw raw.1 (by decide) hr).elim
            | dashes => exact (not_open_of_raw raw.1 (by decide) hr).elim
            | slashes => exact (not_open_of_raw raw.1 (by decide) hr).elim
            | mark double => exact (not_mark_of_raw raw.1 hr).elim
            | _ => exact ⟨_, rfl⟩
      obtain ⟨others, further⟩ :=
        sweep_of_raw fun u (mem : u ∈ ahead.drop n) => raw.2 u (List.mem_of_mem_drop mem)
      exact ⟨_, by rw [sweep_cons word, further]; rfl⟩
termination_by w.length

theorem Closes.of_smooth {ds : List Char} (plain : ∀ c ∈ cs, c ∉ escapable)
    (h : Closes (quoteChar double) (cs ++ ds)) : Closes (quoteChar double) ds := by
  induction cs with
  | nil => exact h
  | cons c cs ih =>
      simp only [List.forall_mem_cons] at plain
      rw [List.cons_append] at h
      rcases h.of_cons with ⟨rfl, -⟩ | ⟨rfl, -⟩ | ⟨-, -, inner⟩
      · exact (plain.1 (quoteChar_mem_escapable double)).elim
      · exact absurd (by decide : '\\' ∈ escapable) plain.1
      · exact ih plain.2 inner

/-- Whether the last token, and no other, is a mark of the kind. -/
def ClosedBy (double : Bool) (w : List Token) : Prop :=
  ∃ body close, w = body ++ [close] ∧ (∀ t ∈ body, fits (.mark double) t = false) ∧
    role close = some (.mark double)

/-- What is not the quote is passed over. -/
theorem ClosedBy.cons {t : Token} {w : List Token} (h : ClosedBy double w) (regular : Regular t)
    (spelled : Spelled t) (other : t.text.toList ≠ [quoteChar double]) : ClosedBy double (t :: w) := by
  obtain ⟨body, close, rfl, inside, closed⟩ := h
  refine ⟨t :: body, close, rfl, List.forall_mem_cons.mpr ⟨?_, inside⟩, closed⟩
  refine Bool.eq_false_iff.mpr fun isMark => other ?_
  exact spelled_quote spelled regular (role_of_fits isMark nofun)

/-- **The first mark of the kind closes a string.** -/
theorem Marked.closedBy {w : List Token} (h : Marked w) (regular : ∀ t ∈ w, Regular t)
    (spelled : ∀ t ∈ w, Spelled t) (closes : Closes (quoteChar double) (chars w)) :
    ClosedBy double w := by
  induction h with
  | nil => cases closes
  | @smooth t w plain _ ih =>
      simp only [List.forall_mem_cons] at regular spelled
      refine (ih regular.2 spelled.2 (closes.of_smooth plain)).cons regular.1 spelled.1
        fun same => ?_
      rw [same] at plain
      exact plain _ List.mem_cons_self (quoteChar_mem_escapable double)
  | @backslash t w text single _ ih =>
      simp only [List.forall_mem_cons] at regular spelled
      rw [chars_cons, text, List.singleton_append] at closes
      rcases closes.of_backslash with ⟨c, ds, begins, isEscaped, -⟩ | ⟨-, behind⟩
      · exact (single c (by rw [begins]; rfl) isEscaped).elim
      · refine (ih regular.2 spelled.2 behind).cons regular.1 spelled.1 fun same => ?_
        rw [text] at same
        exact backslash_ne_quoteChar double (List.cons.inj same).1
  | @escape t c w text isEscaped _ ih =>
      simp only [List.forall_mem_cons] at regular spelled
      rw [chars_cons, text, List.cons_append, List.singleton_append] at closes
      rcases closes.of_backslash with ⟨d, ds, begins, -, behind⟩ | ⟨single, -⟩
      · rw [← (List.cons.inj begins).2] at behind
        refine (ih regular.2 spelled.2 behind).cons regular.1 spelled.1 fun same => ?_
        rw [text] at same
        cases (List.cons.inj same).2
      · exact (single c rfl isEscaped).elim
  | @mark t other w isMark _ ih =>
      simp only [List.forall_mem_cons] at regular spelled
      have text := spelled_quote spelled.1 regular.1 isMark
      rw [chars_cons, text, List.singleton_append] at closes
      rcases closes.of_quote with ⟨rfl, nothing⟩ | ⟨different, behind⟩
      · exact ⟨[], t, by rw [eq_nil_of_chars spelled.2 nothing]; rfl, by simp, isMark⟩
      · refine (ih regular.2 spelled.2 behind).cons regular.1 spelled.1 fun same => different ?_
        rw [text] at same
        exact quoteChar_injective _ _ (List.cons.inj same).1

/-- What begins with a quote begins with a mark. -/
theorem Marked.head_quote {w : List Token} (h : Marked w) (regular : ∀ t ∈ w, Regular t)
    (spelled : ∀ t ∈ w, Spelled t) (text : chars w = quoteChar double :: cs) :
    ∃ t rest, w = t :: rest ∧ role t = some (.mark double) ∧ chars rest = cs ∧ Marked rest := by
  cases h with
  | nil => cases text
  | @smooth t w plain _ =>
      simp only [List.forall_mem_cons] at spelled
      obtain ⟨c, more, first⟩ := List.exists_cons_of_ne_nil spelled.1.filled
      rw [chars_cons, first, List.cons_append] at text
      rw [first, (List.cons.inj text).1] at plain
      exact (plain _ List.mem_cons_self (quoteChar_mem_escapable double)).elim
  | backslash same _ _ =>
      rw [chars_cons, same] at text
      exact (backslash_ne_quoteChar double (List.cons.inj text).1).elim
  | escape same _ _ =>
      rw [chars_cons, same] at text
      exact (backslash_ne_quoteChar double (List.cons.inj text).1).elim
  | @mark t other w isMark rest =>
      simp only [List.forall_mem_cons] at regular spelled
      rw [chars_cons, spelled_quote spelled.1 regular.1 isMark, List.singleton_append] at text
      obtain ⟨same, behind⟩ := List.cons.inj text
      rw [quoteChar_injective _ _ same] at isMark
      exact ⟨t, w, rfl, isMark, behind, rest⟩

/-- A token that no role's type or text goes with has none. -/
theorem role_eq_none {t : Token} (regular : Regular t) (spelled : Spelled t)
    (types : ∀ r ∈ Role.typed, r.terminal.value ≠ t.type)
    (values : ∀ r ∈ Role.spelled, r.terminal.value.toList ≠ t.text.toList) : role t = none := by
  cases hr : role t with
  | none => rfl
  | some r =>
      rcases r.mem_typed_or_mem_spelled with mem | mem
      · exact (types r mem (type_of_role regular hr mem).symm).elim
      · exact (values r mem (spelled_mark spelled regular mem hr).symm).elim

/-- A string has no role: it is longer than a quote. -/
theorem role_string {t : Token} (regular : Regular t) (spelled : Spelled t)
    (type : t.type = stringType double) (text : t.text.toList = quoteChar double :: cs)
    (more : cs ≠ []) : role t = none := by
  have types : ∀ r ∈ Role.typed, ∀ double, r.terminal.value ≠ stringType double := by decide
  have values : ∀ r ∈ Role.spelled, ∀ double,
      r.terminal.value.toList.head? = some (quoteChar double) →
        r.terminal.value.toList.length = 1 := by
    decide
  refine role_eq_none regular spelled (fun r mem => type ▸ types r mem double) ?_
  intro r mem value
  rw [text] at value
  have one := values r mem double (by rw [value]; rfl)
  rw [value, List.length_cons, Nat.add_eq_right, List.length_eq_zero_iff] at one
  exact more one

/-- The last token is the first of a role. -/
theorem seek_last {r : Role} {body : List Token} {close : Token}
    (inside : ∀ t ∈ body, fits r t = false) (closed : fits r close = true) :
    seek r (body ++ [close]) = some body.length := by
  rw [seek, List.findIdx?_append, List.findIdx?_eq_none_iff.mpr inside, Option.none_or,
    List.findIdx?_cons, closed, if_pos rfl]
  simp

/-- All tokens are one word. -/
theorem sweep_whole {ahead : List Token} {t : Token} {type : String}
    (word : munch t ahead = some (type, ahead.length)) :
    sweep (t :: ahead) = some [fold type t ahead] := by
  rw [sweep_cons word, List.drop_length, List.take_length, sweep]
  rfl

/-- **Two passes fold what the second takes for one word**, if it has no role then. -/
theorem folds_of_munch {w ahead : List Token} {t : Token} {type : String}
    (first : sweep w = some (t :: ahead)) (word : munch t ahead = some (type, ahead.length))
    (lone : role (fold type t ahead) = none) : Folds (type, String.ofList (chars w)) w := by
  refine .pass first (.pass (sweep_whole word) (.done ?_ ?_))
  · rw [key, ← (swept_of_sweep first).chars_eq, chars_cons, ← toList_text_fold type,
      String.ofList_toList]
    rfl
  · rw [sweep_kept (munch_of_role_none lone []), sweep]
    rfl

/-- **What the lexer makes of a string folds into the string**: the first pass marks
its quotes, the second folds what they enclose. -/
theorem folds_string {w : List Token} (raw : ∀ t ∈ w, Profile.standalone.Fits t)
    (text : chars w = quoteChar double :: cs) (closes : Closes (quoteChar double) cs) :
    Folds (stringType double, String.ofList (quoteChar double :: cs)) w := by
  have sound := sound_of_raw raw
  obtain ⟨w', first⟩ := sweep_of_raw raw
  have sound' := sound.step first
  have swept := swept_of_sweep first
  have marked := swept.marked raw sound'.regular
  obtain ⟨t, rest, rfl, isMark, textRest, markedRest⟩ :=
    marked.head_quote sound'.regular sound'.spelled (swept.chars_eq.trans text)
  obtain ⟨body, close, rfl, inside, closed⟩ := markedRest.closedBy
    (fun u mem => sound'.regular u (List.mem_cons_of_mem t mem))
    (fun u mem => sound'.spelled u (List.mem_cons_of_mem t mem)) (textRest ▸ closes)
  have word : munch t (body ++ [close]) = some (stringType double, (body ++ [close]).length) := by
    rw [munch, isMark]
    show (seek (.mark double) (body ++ [close])).map _ = _
    rw [seek_last inside (fits_role closed), List.length_append]
    rfl
  have chars : (fold (stringType double) t (body ++ [close])).text.toList =
      quoteChar double :: cs := by
    rw [toList_text_fold, ← chars_cons, swept.chars_eq, text]
  have isSound := sound'.step (sweep_whole word)
  have filled : cs ≠ [] := by
    rintro rfl
    cases closes
  have lone := role_string (isSound.regular _ List.mem_cons_self)
    (isSound.spelled _ List.mem_cons_self) rfl chars filled
  have folds := folds_of_munch first word lone
  rwa [text] at folds

end Strings

/-! ### Operators -/

/-- Whether a token has a role does not depend on where it stands. -/
theorem role_mk (type text : String) (line column : Int) :
    role ⟨type, text, line, column⟩ = role ⟨type, text, 0, 0⟩ := rfl

/-- A comparison character by itself is kept. -/
theorem folds_comparison {t : Token} {r : Role} (hr : role t = some r)
    (mem : r ∈ [Role.less, .equal, .greater]) : Folds (key t) [t] := by
  have word : munch t [] = some (t.type, 0) := by
    simp only [List.mem_cons, List.not_mem_nil, or_false] at mem
    rcases mem with rfl | rfl | rfl <;> simp [munch, hr, Role.partners]
  refine .done rfl ?_
  rw [sweep_kept word, sweep]
  rfl

/-- Two comparison characters that go together are folded at once. -/
theorem folds_pair {t u : Token} {r r' : Role} (hr : role t = some r)
    (mem : r ∈ [Role.less, .greater]) (partner : r' ∈ r.partners) (hr' : role u = some r')
    (lone : role (fold "PUNCT" t [u]) = none) :
    Folds ("PUNCT", t.text ++ u.text) [t, u] := by
  have word : munch t [u] = some ("PUNCT", 1) := by
    simp only [List.mem_cons, List.not_mem_nil, or_false] at mem
    rcases mem with rfl | rfl <;> simp [munch, hr] <;> exact ⟨r', partner, fits_role hr'⟩
  have swept : sweep [t, u] = some [fold "PUNCT" t [u]] := by
    rw [sweep_cons word]
    show (sweep []).map _ = _
    rw [sweep]
    rfl
  refine .pass swept (.done ?_ ?_)
  · simp [key, fold, Token.join]
  · rw [sweep_kept (munch_of_role_none lone []), sweep]
    rfl

end GrammarKit.Query
