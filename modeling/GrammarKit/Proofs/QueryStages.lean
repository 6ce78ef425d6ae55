import GrammarKit.Proofs.QuerySpelling

/-!
# The stages of word building

The passes over a query bring strings about in three stages.  The tokens of the
lexer are **raw**.  After the first pass they are **marked**: escapes are folded,
no two tokens can be read as one, and every bare quote has become a mark.  After
the second pass the quotes are paired up and the tokens are **calm**.

## Main Definitions

* `Query.RawWord` — the words of raw tokens
* `Query.Marked`, `Query.Calm`, `Query.Stage` — the stages
* `Query.Sound` — what holds between passes

## Main Statements

* `Query.Marked.closes` — between two marks stands a string
* `Query.Swept.marked`, `Query.Swept.calm` — each pass leads to the next stage
* `Query.Sound.step`, `Query.words_sound` — one pass and all of them
* `Query.tokenize_spelled` — every word of a source is spelled

## Design Notes

A string is the one word whose text depends on what the pass before has done, so
the stage is part of the invariant.  The last stage is never left: where no quote
is bare, none becomes a mark.
-/

namespace GrammarKit.Query

open GrammarKit.Parser
open Profile (RunKind)

/-! ### Stages -/

/-- **Tokens in which escapes and quotes are marked.** -/
inductive Marked : List Token → Prop where
  | nil : Marked []
  | smooth {t : Token} {w : List Token} :
      (∀ c ∈ t.text.toList, c ∉ escapable) → Marked w → Marked (t :: w)
  /-- A backslash that escapes nothing. -/
  | backslash {t : Token} {w : List Token} :
      t.text.toList = ['\\'] → (∀ c, (chars w).head? = some c → c ∉ escapable) → Marked w →
      Marked (t :: w)
  | escape {t : Token} {c : Char} {w : List Token} :
      t.text.toList = ['\\', c] → c ∈ escapable → Marked w → Marked (t :: w)
  | mark {t : Token} {double : Bool} {w : List Token} :
      role t = some (.mark double) → Marked w → Marked (t :: w)

/-- Tokens without quotes, marked or not. -/
def Calm (w : List Token) : Prop :=
  ∀ t ∈ w, ∀ double, fits (.quote double) t = false

section Stages

variable {t : Token} {w : List Token}

theorem Marked.tail (h : Marked (t :: w)) : Marked w := by
  cases h with
  | smooth _ rest => exact rest
  | backslash _ _ rest => exact rest
  | escape _ _ rest => exact rest
  | mark _ rest => exact rest

theorem Marked.of_append {u : List Token} (h : Marked (u ++ w)) : Marked w := by
  induction u with
  | nil => exact h
  | cons t rest ih => exact ih h.tail

/-- **Between two marks stands a string.** -/
theorem Marked.closes {double : Bool} {body rest : List Token} {close : Token}
    (h : Marked (body ++ close :: rest)) (regular : ∀ t ∈ body ++ [close], Regular t)
    (spelled : ∀ t ∈ body ++ [close], Spelled t)
    (inside : ∀ t ∈ body, fits (.mark double) t = false)
    (closed : role close = some (.mark double)) :
    Closes (quoteChar double) (chars (body ++ [close])) := by
  induction body with
  | nil =>
      simp only [List.nil_append, List.forall_mem_cons] at regular spelled
      rw [List.nil_append, chars_cons, spelled_quote spelled.1 regular.1 closed]
      exact .close
  | cons t body ih =>
      simp only [List.cons_append, List.forall_mem_cons] at regular spelled inside
      have behind := ih h.tail regular.2 spelled.2 inside.2
      have filled : chars (body ++ [close]) ≠ [] := by
        rw [chars_append, chars_cons, spelled_quote (spelled.2 close (by simp))
          (regular.2 close (by simp)) closed]
        simp
      rw [List.cons_append, chars_cons]
      cases h with
      | smooth plain _ => exact behind.smooth plain
      | backslash text single _ =>
          rw [text]
          refine .plain (backslash_ne_quoteChar double) (fun _ c head => single c ?_) behind
          have split : body ++ close :: rest = (body ++ [close]) ++ rest := by simp
          show (chars (body ++ close :: rest)).head? = some c
          rw [split, chars_append, List.head?_append_of_ne_nil _ filled]
          exact head
      | escape text isEscaped _ =>
          rw [text]
          exact .escape isEscaped behind
      | @mark _ double' _ isMark _ =>
          have same : double' ≠ double := by
            rintro rfl
            rw [fits_role isMark] at inside
            cases inside.1
          rw [spelled_quote spelled.1 regular.1 isMark]
          refine .plain (fun equal => same (quoteChar_injective _ _ equal)) (fun equal => ?_) behind
          exact (backslash_ne_quoteChar double' equal.symm).elim

/-! #### From raw tokens to marked ones -/

/-- Tokens that neither escape nor can be escaped. -/
def Plain (t : Token) : Prop :=
  ∀ r ∈ Role.backslash.partners, fits r t = false

theorem plain_of_role {r : Role} (h : role t = some r)
    (other : ∀ r' ∈ Role.backslash.partners, (r == r' || r.bare == r') = false) : Plain t :=
  fun r' mem => (fits_of_role h r').trans (other r' mem)

/-- A token that is not plain is a backslash or a quote. -/
theorem plain_of_ne (backslash : role t ≠ some .backslash)
    (quotes : ∀ double, role t ≠ some (.quote double) ∧ role t ≠ some (.mark double)) :
    Plain t := by
  cases hr : role t with
  | none => exact fun r _ => fits_of_role_none hr r
  | some r =>
      cases r with
      | backslash => exact (backslash hr).elim
      | quote double => exact ((quotes double).1 hr).elim
      | mark double => exact ((quotes double).2 hr).elim
      | _ => exact plain_of_role hr (by decide)

/-- A raw token with a character that opens no run is nothing else. -/
theorem text_of_closed {c : Char} (raw : Profile.standalone.Fits t) (mem : c ∈ t.text.toList)
    (closed : Profile.standalone.opens? c = none) : t.text.toList = [c] := by
  cases raw with
  | punctuation d _ text _ _ =>
      rw [text, String.toList_singleton] at mem ⊢
      rw [List.mem_singleton.mp mem]
  | run kind _ chars =>
      obtain ⟨d, rest, same, opens, continues⟩ := chars
      rw [same] at mem
      have isOpen : (Profile.standalone.opens? c).isSome = true := by
        rcases List.mem_cons.mp mem with rfl | later
        · rw [opens]
          rfl
        · exact opens?_of_continues (continues c later)
      rw [closed] at isOpen
      cases isOpen

/-- A raw token with a character of a mark is the mark. -/
theorem fits_of_mem {c : Char} {r : Role} (raw : Profile.standalone.Fits t)
    (mem : c ∈ t.text.toList) (closed : Profile.standalone.opens? c = none)
    (isSpelled : r ∈ Role.spelled) (value : r.terminal.value.toList = [c]) : fits r t = true := by
  refine fits_of_text (regular_of_fits raw) isSpelled ?_
  rw [← String.toList_inj, text_of_closed raw mem closed, value]

/-- A raw token with a backslash or a quote in it can be escaped. -/
theorem exists_partner {c : Char} (raw : Profile.standalone.Fits t) (mem : c ∈ t.text.toList)
    (isEscaped : c ∈ escapable) : ∃ r ∈ Role.backslash.partners, fits r t = true := by
  have roles : ∀ c ∈ escapable, Profile.standalone.opens? c = none ∧
      ∃ r ∈ Role.backslash.partners, r ∈ Role.spelled ∧ r.terminal.value.toList = [c] := by
    decide
  obtain ⟨closed, r, isPartner, isSpelled, value⟩ := roles c isEscaped
  exact ⟨r, isPartner, fits_of_mem raw mem closed isSpelled value⟩

/-- A raw token that is plain has no such character. -/
theorem smooth_of_raw (raw : Profile.standalone.Fits t) (plain : Plain t) :
    ∀ c ∈ t.text.toList, c ∉ escapable := by
  intro c mem isEscaped
  obtain ⟨r, isPartner, isHere⟩ := exists_partner raw mem isEscaped
  have clash := plain r isPartner
  rw [isHere] at clash
  cases clash

/-- A raw token has one character, or begins with a run. -/
theorem not_open_of_raw {r : Role} (raw : Profile.standalone.Fits t)
    (mem : r ∈ [Role.blockOpen, .dashes, .slashes]) : role t ≠ some r := by
  have values : ∀ r ∈ [Role.blockOpen, .dashes, .slashes], r ∈ Role.spelled ∧
      r.terminal.value.toList.length = 2 ∧
      ∀ c ∈ r.terminal.value.toList, Profile.standalone.opens? c = none := by
    decide
  intro isHere
  obtain ⟨isSpelled, two, closed⟩ := values r mem
  have text := spelled_mark (spelled_of_fits raw) (regular_of_fits raw) isSpelled isHere
  cases raw with
  | punctuation d _ single _ _ =>
      rw [← text, single, String.toList_singleton] at two
      cases two
  | run kind _ chars =>
      obtain ⟨d, rest, same, opens, -⟩ := chars
      rw [← text, same] at closed
      rw [closed d List.mem_cons_self] at opens
      cases opens

theorem not_mark_of_raw {double : Bool} (raw : Profile.standalone.Fits t) :
    role t ≠ some (.mark double) := by
  have typed : ∀ double, Role.mark double ∈ Role.typed ∧
      (Role.mark double).terminal.value ≠ "PUNCT" ∧
      ∀ kind ∈ [RunKind.blank, .word, .number], kind.tokenType ≠
        (Role.mark double).terminal.value := by
    decide
  intro isHere
  obtain ⟨isTyped, notPunctuation, notRun⟩ := typed double
  have type := type_of_role (regular_of_fits raw) isHere isTyped
  cases raw with
  | punctuation _ isPunctuation _ _ _ => exact notPunctuation (type.symm.trans isPunctuation)
  | run kind isRun _ =>
      refine notRun kind ?_ (isRun.symm.trans type)
      cases kind <;> decide

/-- The roles of the tokens that names and numbers are folded from. -/
def Role.linking : List Role :=
  [.name, .number, .dot, .colon, .plus, .minus]

/-- **The words of raw tokens**: marks of more than one character are not there yet. -/
inductive RawWord (t : Token) (rest : List Token) : List Token → String → Prop where
  | kept : Alone t rest → RawWord t rest [] t.type
  | quote {double : Bool} : role t = some (.quote double) → RawWord t rest [] (quoteType double)
  | pair {r r' : Role} {p : Token} :
      role t = some r → r' ∈ r.partners → fits r' p = true → RawWord t rest [p] "PUNCT"
  | linked {more : List Token} {type : String} :
      (∀ u ∈ t :: more, ∃ r ∈ Role.linking, role u = some r) → RawWord t rest more type

section RawWords

variable {more rest : List Token} {type : String}

theorem Steps.linked (h : Steps more) : ∀ u ∈ more, ∃ r ∈ Role.linking, role u = some r := by
  induction h with
  | nil => simp
  | step isDot isName _ ih =>
      simp only [List.forall_mem_cons]
      exact ⟨⟨_, by decide, isDot⟩, ⟨_, by decide, isName⟩, ih⟩

theorem Fraction.linked (h : Fraction more) : ∀ u ∈ more, ∃ r ∈ Role.linking, role u = some r := by
  cases h with
  | nil => simp
  | part isDot isNumber =>
      simp only [List.forall_mem_cons]
      exact ⟨⟨_, by decide, isDot⟩, ⟨_, by decide, isNumber⟩, by simp⟩

theorem Word.raw (h : Word t rest more type) (raw : Profile.standalone.Fits t) :
    RawWord t rest more type := by
  cases h with
  | kept alone => exact .kept alone
  | path isName steps =>
      exact .linked (List.forall_mem_cons.mpr ⟨⟨_, by decide, isName⟩, steps.linked⟩)
  | placeholder isColon isName =>
      refine .linked (List.forall_mem_cons.mpr ⟨⟨_, by decide, isColon⟩, ?_⟩)
      simpa using ⟨_, by decide, isName⟩
  | number isNumber fraction =>
      exact .linked (List.forall_mem_cons.mpr ⟨⟨_, by decide, isNumber⟩, fraction.linked⟩)
  | @signed sign n others isSign isHere isNumber fraction =>
      have signs : ∀ sign ∈ [Role.plus, .minus], sign ∈ Role.linking := by decide
      refine .linked (List.forall_mem_cons.mpr ⟨⟨sign, signs sign isSign, isHere⟩, ?_⟩)
      exact List.forall_mem_cons.mpr ⟨⟨_, by decide, isNumber⟩, fraction.linked⟩
  | pair isHere isPartner isThere => exact .pair isHere isPartner isThere
  | comment isOpen isHere _ => exact (not_open_of_raw raw isOpen isHere).elim
  | quote isQuote => exact .quote isQuote
  | string isMark _ _ => exact (not_mark_of_raw raw isMark).elim

end RawWords

/-- A word of plain tokens is smooth. -/
theorem smooth_fold {more : List Token} (raw : ∀ u ∈ t :: more, Profile.standalone.Fits u)
    (plain : ∀ u ∈ t :: more, Plain u) (type : String) :
    ∀ c ∈ (fold type t more).text.toList, c ∉ escapable := by
  intro c mem
  rw [toList_text_fold, ← chars_cons] at mem
  obtain ⟨u, isThere, inside⟩ := List.mem_flatMap.mp mem
  exact smooth_of_raw (raw u isThere) (plain u isThere) c inside

/-- What is left of a backslash that is kept escapes nothing. -/
theorem Alone.single {rest : List Token} (h : Alone t rest) (isBackslash : role t = some .backslash)
    (raw : ∀ u ∈ rest, Profile.standalone.Fits u) :
    ∀ c, (chars rest).head? = some c → c ∉ escapable := by
  intro c head escapes
  have unpaired := h.unpaired .backslash isBackslash
  cases rest with
  | nil => cases head
  | cons u others =>
      have isRaw := raw u List.mem_cons_self
      rw [chars_cons, List.head?_append_of_ne_nil _ (spelled_of_fits isRaw).filled] at head
      obtain ⟨r, isPartner, isHere⟩ := exists_partner isRaw (List.mem_of_mem_head? head) escapes
      exact List.any_eq_false.mp unpaired r isPartner isHere

/-- **The first pass marks escapes and quotes.** -/
theorem Swept.marked {tokens swept : List Token} (h : Swept tokens swept)
    (raw : ∀ t ∈ tokens, Profile.standalone.Fits t) (regular : ∀ t ∈ swept, Regular t) :
    Marked swept := by
  induction h with
  | nil => exact .nil
  | @cons t more rest swept type word further ih =>
      simp only [List.forall_mem_cons, List.forall_mem_append] at raw regular
      obtain ⟨rawHere, rawMore, rawRest⟩ := raw
      have behind := ih rawRest regular.2
      have both : ∀ u ∈ t :: more, Profile.standalone.Fits u := by
        simpa using ⟨rawHere, rawMore⟩
      have smooth : Plain t → (∀ u ∈ more, Plain u) → Marked (fold type t more :: swept) :=
        fun here others => .smooth
          (smooth_fold both (List.forall_mem_cons.mpr ⟨here, others⟩) type) behind
      have spelled := spelled_of_fits rawHere
      have isRegular := regular_of_fits rawHere
      cases word.raw rawHere with
      | kept alone =>
          by_cases isBackslash : role t = some .backslash
          · -- had an escapable character stood behind it, the two would have been folded
            refine .backslash ?_ ?_ behind
            · rw [toList_text_fold, chars_nil, List.append_nil]
              exact spelled_mark spelled isRegular (by decide) isBackslash
            · rw [further.chars_eq]
              exact alone.single isBackslash rawRest
          · exact smooth (plain_of_ne isBackslash alone.unquoted) (by simp)
      | linked linked =>
          have apart : ∀ r ∈ Role.linking, ∀ s ∈ Role.backslash.partners,
              (r == s || r.bare == s) = false := by
            decide
          have plain : ∀ u ∈ t :: more, Plain u := by
            intro u mem
            obtain ⟨r, isLinking, isHere⟩ := linked u mem
            exact plain_of_role isHere (apart r isLinking)
          simp only [List.forall_mem_cons] at plain
          exact smooth plain.1 plain.2
      | @pair r r' p isHere isPartner isThere =>
          by_cases isBackslash : r = .backslash
          · subst isBackslash
            have partners : ∀ r ∈ Role.backslash.partners, r ∈ Role.spelled ∧
                ∃ c ∈ escapable, r.terminal.value.toList = [c] := by
              decide
            obtain ⟨isSpelled, c, escapes, value⟩ := partners r' isPartner
            have isRaw := rawMore p List.mem_cons_self
            refine .escape ?_ escapes behind
            rw [toList_text_fold, chars_cons, spelled_mark spelled isRegular (by decide) isHere,
              text_of_fits (regular_of_fits isRaw) (spelled_of_fits isRaw).kept isSpelled isThere,
              value]
            rfl
          · have others : ∀ r ∈ Role.typed ++ Role.spelled, r ≠ .backslash → ∀ r' ∈ r.partners,
                (∀ s ∈ Role.backslash.partners, (r == s || r.bare == s) = false ∧
                  (r' == s || r'.bare == s) = false) ∧ ∀ double, r' ≠ .quote double := by
              decide
            obtain ⟨apart, notQuote⟩ := others r
              (List.mem_append.mpr r.mem_typed_or_mem_spelled) isBackslash r' isPartner
            refine smooth (plain_of_role isHere fun s mem => (apart s mem).1) ?_
            have isThere := role_of_fits isThere notQuote
            simpa using plain_of_role isThere fun s mem => (apart s mem).2
      | @quote double isQuote =>
          have typed : ∀ double, Role.mark double ∈ Role.typed ∧
              quoteType double = (Role.mark double).terminal.value := by
            decide
          exact .mark (role_of_type regular.1 (typed double).1 (typed double).2) behind

/-! #### From marked tokens to calm ones -/

/-- Marked tokens have no bare quotes. -/
theorem Marked.not_quote (h : Marked w) (regular : ∀ t ∈ w, Regular t)
    (spelled : ∀ t ∈ w, Spelled t) : ∀ t ∈ w, ∀ double, role t ≠ some (.quote double) := by
  have values : ∀ double, Role.quote double ∈ Role.spelled ∧
      (Role.quote double).terminal.value.toList = [quoteChar double] := by
    decide
  induction h with
  | nil => simp
  | smooth plain _ ih =>
      simp only [List.forall_mem_cons] at regular spelled ⊢
      refine ⟨fun double isQuote => ?_, ih regular.2 spelled.2⟩
      have text := spelled_mark spelled.1 regular.1 (values double).1 isQuote
      rw [(values double).2] at text
      rw [text] at plain
      exact plain _ List.mem_cons_self (quoteChar_mem_escapable double)
  | backslash single _ _ ih =>
      simp only [List.forall_mem_cons] at regular spelled ⊢
      refine ⟨fun double isQuote => ?_, ih regular.2 spelled.2⟩
      have text := spelled_mark spelled.1 regular.1 (values double).1 isQuote
      rw [(values double).2, single] at text
      exact backslash_ne_quoteChar double (List.cons.inj text).1
  | escape escaped _ _ ih =>
      simp only [List.forall_mem_cons] at regular spelled ⊢
      refine ⟨fun double isQuote => ?_, ih regular.2 spelled.2⟩
      have text := spelled_mark spelled.1 regular.1 (values double).1 isQuote
      rw [(values double).2, escaped] at text
      cases (List.cons.inj text).2
  | mark isMark _ ih =>
      simp only [List.forall_mem_cons] at regular spelled ⊢
      refine ⟨fun double isQuote => ?_, ih regular.2 spelled.2⟩
      rw [isMark] at isQuote
      cases isQuote

theorem role_of_quote {double : Bool} (h : fits (.quote double) t = true) :
    role t = some (.quote double) ∨ role t = some (.mark double) := by
  rw [fits, Option.any_eq_true] at h
  obtain ⟨r, found, same⟩ := h
  simp only [Bool.or_eq_true, beq_iff_eq] at same
  rcases same with rfl | same
  · exact Or.inl found
  · cases r with
    | mark other =>
        cases same
        exact Or.inr found
    | quote other =>
        cases same
        exact Or.inl found
    | _ => cases same

/-- **Where no quote is bare, a sweep leaves none at all.** -/
theorem Swept.calm {tokens swept : List Token} (h : Swept tokens swept)
    (regular : ∀ t ∈ tokens, Regular t) (spelled : ∀ t ∈ tokens, Spelled t)
    (regular' : ∀ t ∈ swept, Regular t) (spelled' : ∀ t ∈ swept, Spelled t)
    (marked : ∀ t ∈ tokens, ∀ double, role t ≠ some (.quote double)) : Calm swept := by
  have values : ∀ double, Role.quote double ∈ Role.spelled ∧
      (Role.quote double).terminal.value.toList = [quoteChar double] := by
    decide
  induction h with
  | nil => simp [Calm]
  | @cons t more rest swept type word further ih =>
      simp only [List.forall_mem_cons, List.forall_mem_append] at regular spelled marked
      simp only [List.forall_mem_cons] at regular' spelled'
      refine List.forall_mem_cons.mpr ⟨fun double => Bool.eq_false_iff.mpr fun isQuote => ?_,
        ih regular.2.2 spelled.2.2 regular'.2 spelled'.2 marked.2.2⟩
      obtain ⟨isSpelled, value⟩ := values double
      have text := congrArg String.toList
        (text_of_fits regular'.1 spelled'.1.kept isSpelled isQuote)
      rw [value] at text
      obtain ⟨here, empty⟩ := single_of_fold (by simpa using ⟨spelled.1, spelled.2.1⟩) text
      rw [← value, String.toList_inj] at here
      rcases role_of_quote (fits_of_text regular.1 isSpelled here) with bare | isMark
      · exact marked.1 double bare
      · -- a mark is folded with the one that closes the string
        cases word with
        | kept alone => exact (alone.unquoted double).2 isMark
        | string => exact List.append_ne_nil_of_right_ne_nil _ (List.cons_ne_nil _ _) empty
        | signed => cases empty
        | pair => cases empty
        | placeholder => cases empty
        | comment isOpen isHere _ =>
            rw [isMark] at isHere
            cases isHere
            simp at isOpen
        | path isHere _ => exact absurd (isMark.symm.trans isHere) (by simp)
        | number isHere _ => exact absurd (isMark.symm.trans isHere) (by simp)
        | quote isHere => exact absurd (isMark.symm.trans isHere) (by simp)

/-- **The stages of tokens.** -/
inductive Stage (w : List Token) : Prop where
  | raw : (∀ t ∈ w, Profile.standalone.Fits t) → Stage w
  | marked : Marked w → Stage w
  | calm : Calm w → Stage w

theorem Stage.of_append {u : List Token} (h : Stage (u ++ w)) : Stage w := by
  cases h with
  | raw all => exact .raw fun t mem => all t (List.mem_append_right u mem)
  | marked all => exact .marked all.of_append
  | calm all => exact .calm fun t mem => all t (List.mem_append_right u mem)

/-- **A string is closed** in every stage. -/
theorem Stage.closes {more rest : List Token} {type : String} {double : Bool}
    (h : Stage (t :: (more ++ rest))) (regular : ∀ u ∈ more, Regular u)
    (spelled : ∀ u ∈ more, Spelled u) (word : Word t rest more type)
    (isMark : role t = some (.mark double)) : Closes (quoteChar double) (chars more) := by
  cases h with
  | raw all => exact (not_mark_of_raw (all t List.mem_cons_self) isMark).elim
  | calm all =>
      have quiet := all t List.mem_cons_self double
      rw [fits_of_role isMark] at quiet
      simp [Role.bare] at quiet
  | marked all =>
      cases word with
      | @string other body close isHere inside closed =>
          obtain rfl : other = double := by
            rw [isMark] at isHere
            cases isHere
            rfl
          have behind := all.tail
          rw [List.append_assoc] at behind
          exact behind.closes regular spelled inside closed
      | kept alone => exact ((alone.unquoted double).2 isMark).elim
      | comment isOpen isHere _ =>
          rw [isMark] at isHere
          cases isHere
          simp at isOpen
      | @signed sign _ _ isSign isHere _ _ =>
          rw [isMark] at isHere
          cases isHere
          simp at isSign
      | pair isHere isPartner _ =>
          rw [isMark] at isHere
          cases isHere
          cases isPartner
      | path isHere _ => exact absurd (isMark.symm.trans isHere) (by simp)
      | number isHere _ => exact absurd (isMark.symm.trans isHere) (by simp)
      | placeholder isHere _ => exact absurd (isMark.symm.trans isHere) (by simp)
      | quote isHere => exact absurd (isMark.symm.trans isHere) (by simp)

end Stages

/-! ### All passes -/

/-- **What holds between passes.** -/
structure Sound (w : List Token) : Prop where
  regular : ∀ t ∈ w, Regular t
  spelled : ∀ t ∈ w, Spelled t
  apart : w.IsChain Apart
  stage : Stage w

/-- A sweep of sound tokens gives spelled ones. -/
theorem Swept.spelled {tokens swept : List Token} (h : Swept tokens swept) (sound : Sound tokens) :
    ∀ t ∈ swept, Spelled t := by
  induction h with
  | nil => simp
  | @cons t more rest swept type word further ih =>
      obtain ⟨regular, spelled, apart, stage⟩ := sound
      have behind : Sound rest := by
        refine ⟨fun u mem => regular u ?_, fun u mem => spelled u ?_, ?_, ?_⟩
        · exact List.mem_cons_of_mem t (List.mem_append_right more mem)
        · exact List.mem_cons_of_mem t (List.mem_append_right more mem)
        · rw [← List.cons_append] at apart
          exact apart.right_of_append
        · rw [← List.cons_append] at stage
          exact stage.of_append
      simp only [List.forall_mem_cons, List.forall_mem_append] at regular spelled
      refine List.forall_mem_cons.mpr ⟨?_, ih behind⟩
      refine word.spelled (by simpa using ⟨regular.1, regular.2.1⟩)
        (by simpa using ⟨spelled.1, spelled.2.1⟩) ?_
        (fun double isMark => stage.closes regular.2.1 spelled.2.1 word isMark)
      intro n isNext
      refine (List.isChain_cons.mp apart).1 n ?_
      rw [List.head?_append, isNext]
      rfl

/-- **One pass.** -/
theorem Sound.step {tokens next : List Token} (sound : Sound tokens) (h : sweep tokens = some next) :
    Sound next := by
  have swept := swept_of_sweep h
  have regular := (sweep_progress sound.regular h).regular
  have spelled := swept.spelled sound
  refine ⟨regular, spelled, swept.apart sound.regular sound.spelled, ?_⟩
  cases sound.stage with
  | raw all => exact .marked (swept.marked all regular)
  | marked all =>
      exact .calm (swept.calm sound.regular sound.spelled regular spelled
        (all.not_quote sound.regular sound.spelled))
  | calm all =>
      refine .calm (swept.calm sound.regular sound.spelled regular spelled ?_)
      intro t mem double isQuote
      have quiet := all t mem double
      rw [fits_role isQuote] at quiet
      cases quiet

/-- **All passes.** -/
theorem words_sound : words.Progresses Sound Unterminated weigh := by
  intro tokens sound
  rcases words_progresses tokens sound.regular with ⟨next, ok, -, moves⟩ | failed
  · exact Or.inl ⟨next, ok, sound.step ((pass_eq_ok_iff sound.regular).mp ok), moves⟩
  · exact Or.inr failed

/-- The tokens of the lexer are sound. -/
theorem sound_of_raw {tokens : List Token} (raw : ∀ t ∈ tokens, Profile.standalone.Fits t) :
    Sound tokens := by
  have minus : Profile.standalone.opens? '-' = none := by decide
  have apart : ∀ t u, Profile.standalone.Fits u → Apart t u := by
    intro t u isRaw _ isNumber head
    cases isRaw with
    | punctuation _ type _ _ _ => exact absurd (type.symm.trans isNumber) (by decide)
    | run kind _ chars =>
        obtain ⟨c, rest, same, opens, -⟩ := chars
        rw [same] at head
        cases head
        rw [minus] at opens
        cases opens
  refine ⟨fun t mem => regular_of_fits (raw t mem), fun t mem => spelled_of_fits (raw t mem), ?_,
    .raw raw⟩
  induction tokens with
  | nil => exact .nil
  | cons t rest ih =>
      simp only [List.forall_mem_cons] at raw
      refine List.isChain_cons.mpr ⟨fun u isNext => apart t u ?_, ih raw.2⟩
      exact raw.2 u (List.mem_of_mem_head? isNext)

/-- The words of a source are built from the tokens of the lexer. -/
theorem outcome_tokenize (source : String) (raw : Bool) :
    (language.tokenize source raw).outcome =
      (words.build (Profile.standalone.tokens source) raw).outcome := by
  rw [Language.tokenize, Traced.outcome_bind, Profile.outcome_tokenize]
  rfl

/-- **Every word of a source is spelled** as its type says, and no blanks are left. -/
theorem tokenize_spelled {source : String} {tokens : List Token}
    (h : (language.tokenize source false).outcome = .ok tokens) :
    ∀ t ∈ tokens, Regular t ∧ Spelled t ∧
      t.type ∈ ["IDENT", "NUMLIT", "PUNCT", "STRLIT-DQ", "STRLIT-SQ"] := by
  have sound := sound_of_raw fun t (mem : t ∈ Profile.standalone.tokens source) =>
    Profile.fits_of_mem_tokens mem
  have room := weigh_le (Profile.standalone.tokens source)
  rw [outcome_tokenize] at h
  rcases WordBuilder.build_of_measure words_sound rfl sound (by omega) false with
    ⟨settled, result, soundWords, fixed, built, same⟩ | ⟨e, failed, -⟩
  · rw [built] at h
    cases h
    rw [if_neg Bool.false_ne_true] at same
    subst same
    intro t mem
    obtain ⟨isWord, notBlank⟩ := List.mem_filter.mp mem
    have solid : ∀ type ∈ settledTypes, type ∉ Token.blankTypes →
        type ∈ ["IDENT", "NUMLIT", "PUNCT", "STRLIT-DQ", "STRLIT-SQ"] := by
      decide
    have isSolid : t.type ∉ words.blankTypes := by simpa [Token.isBlank] using notBlank
    exact ⟨soundWords.regular t isWord, soundWords.spelled t isWord,
      solid t.type (settled_of_fixed soundWords.regular fixed t isWord) isSolid⟩
  · rw [failed] at h
    cases h

end GrammarKit.Query
