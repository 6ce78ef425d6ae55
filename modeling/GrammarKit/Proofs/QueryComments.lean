import GrammarKit.Proofs.QueryLiterals

/-!
# When a block comment is closed

The first pass joins the characters of comment marks from left to right, inside of
comments too, and the second looks for the first closing mark.  A slash that stands
before the mark can take its star away.  So a comment whose body has no closing
mark ends where it should if an even number of slashes stands before the mark; if
the number is odd, no mark is left to close it.

## Main Definitions

* `Query.commentPairs` — the pairs that slashes and stars are joined to
* `Query.endingSlashes` — how many slashes a text ends in
* `Query.Breaks` — passes that come to miss a terminator

## Main Statements

* `Query.Swept.cut_chars` — the first pass cuts the text up into these pairs
* `Query.closing_cut` — the number of slashes decides whether the mark is cut off
* `Query.folds_comment`, `Query.breaks_comment` — two passes fold a comment, or break
* `Query.tokenize_blockComment` — what becomes of a comment

## Design Notes

Pairs of other characters never share one with these, so they can be left out: all
that matters of the first pass is how it takes slashes and stars.
-/

namespace GrammarKit.Query

open GrammarKit.Parser

/-! ### Slashes and stars -/

/-- The pairs that slashes and stars are joined to. -/
def commentPairs : List (Char × Char) :=
  [('/', '*'), ('*', '/'), ('/', '/')]

/-- The mark that closes a comment. -/
def closingMark : List Char :=
  ['*', '/']

/-- How many slashes a text ends in. -/
def endingSlashes (cs : List Char) : Nat :=
  (cs.reverse.takeWhile (· == '/')).length

section Slashes

variable {c d : Char} {cs : List Char}

theorem endingSlashes_le (cs : List Char) : endingSlashes cs ≤ cs.length := by
  have le := (List.takeWhile_sublist (l := cs.reverse) (· == '/')).length_le
  rwa [List.length_reverse] at le

/-- Another character in front counts only if all others do. -/
theorem endingSlashes_cons (c : Char) (cs : List Char) :
    endingSlashes (c :: cs) =
      if endingSlashes cs = cs.length ∧ c = '/' then endingSlashes cs + 1 else endingSlashes cs := by
  rw [endingSlashes, List.reverse_cons, List.takeWhile_append, List.length_reverse]
  show (if endingSlashes cs = cs.length then _ else _ : List Char).length = _
  by_cases all : endingSlashes cs = cs.length
  · rw [if_pos all, all]
    by_cases isSlash : c = '/'
    · simp [isSlash]
    · simp [isSlash]
  · rw [if_neg all, if_neg (fun both => all both.1)]
    rfl

theorem endingSlashes_of_ne (other : c ≠ '/') : endingSlashes (c :: cs) = endingSlashes cs := by
  rw [endingSlashes_cons, if_neg (fun both => other both.2)]

theorem endingSlashes_cons_of_ne (other : d ≠ '/') :
    endingSlashes (c :: d :: cs) = endingSlashes cs := by
  have le := endingSlashes_le cs
  have same := @endingSlashes_of_ne d cs other
  rw [endingSlashes_cons, same, if_neg]
  rintro ⟨all, -⟩
  rw [List.length_cons] at all
  omega

/-- Two slashes in front do not change whether the number is even. -/
theorem endingSlashes_slashes (cs : List Char) :
    endingSlashes ('/' :: '/' :: cs) % 2 = endingSlashes cs % 2 := by
  have le := endingSlashes_le cs
  rw [endingSlashes_cons, endingSlashes_cons, List.length_cons]
  by_cases all : endingSlashes cs = cs.length
  · simp only [all, and_self, if_true]
    omega
  · have short : endingSlashes cs ≠ cs.length + 1 := by omega
    simp [all, short]

/-- What is left of a text without a closing mark has none. -/
theorem not_infix_of_cons (h : ¬ closingMark <:+: c :: cs) : ¬ closingMark <:+: cs :=
  fun inside => h (inside.trans (List.infix_cons List.infix_rfl))

/-- What becomes of a closing mark behind some slashes. -/
structure Closing (slashes : Nat) (units : List (List Char)) : Prop where
  ends : slashes % 2 = 0 → EndsAt closingMark units
  missing : slashes % 2 = 1 → closingMark ∉ units

/-- Other units in front of it change nothing. -/
theorem Closing.cons {slashes slashes' : Nat} {unit : List Char} {units : List (List Char)}
    (h : Closing slashes units) (other : unit ≠ closingMark)
    (parity : slashes' % 2 = slashes % 2) : Closing slashes' (unit :: units) where
  ends even := (endsAt_of_ne other).mpr (h.ends (parity.symm.trans even))
  missing odd := by
    rw [List.mem_cons, not_or]
    exact ⟨other.symm, h.missing (parity.symm.trans odd)⟩

/-- **The number of slashes before a closing mark decides whether it is cut off**: if it
is even, the text ends at its first closing mark, and otherwise there is none. -/
theorem closing_cut (cs : List Char) (h : ¬ closingMark <:+: cs) :
    Closing (endingSlashes cs) (cut commentPairs (cs ++ closingMark)) := by
  have fromSlash : ∀ pair ∈ commentPairs, pair.2 = '*' → pair.1 = '/' := by decide
  -- what is cut off in front takes no slashes from the end, or takes two
  match cs with
  | [] => exact ⟨fun _ => by decide, fun odd => absurd odd (by decide)⟩
  | [c] =>
      by_cases isSlash : c = '/'
      · subst isSlash
        exact ⟨fun even => absurd even (by decide), fun _ => by decide⟩
      · have single : ∀ d, closingMark.head? = some d → (c, d) ∉ commentPairs := by
          intro d head mem
          cases head
          exact isSlash (fromSlash _ mem rfl)
        rw [List.singleton_append, cut_single single]
        exact (closing_cut [] (by decide)).cons (by simp [closingMark])
          (by rw [endingSlashes_of_ne isSlash])
  | c :: d :: cs =>
      have noMark := not_infix_of_cons h
      by_cases pair : (c, d) ∈ commentPairs
      · rw [List.cons_append, List.cons_append, cut_pair pair]
        have behind := closing_cut cs (not_infix_of_cons noMark)
        simp only [commentPairs, List.mem_cons, Prod.mk.injEq, List.not_mem_nil, or_false] at pair
        rcases pair with ⟨rfl, rfl⟩ | ⟨rfl, rfl⟩ | ⟨rfl, rfl⟩
        · exact behind.cons (by decide) (by rw [endingSlashes_cons_of_ne (by decide)])
        · exact (h (List.prefix_append closingMark cs).isInfix).elim
        · exact behind.cons (by decide) (endingSlashes_slashes cs)
      · have behind := closing_cut (d :: cs) noMark
        rw [List.cons_append, cut_single (fun e head => by cases head; exact pair)]
        refine behind.cons (by simp [closingMark]) ?_
        by_cases isSlash : c = '/'
        · have other : d ≠ '/' := by
            rintro rfl
            rw [isSlash] at pair
            exact pair (by decide)
          rw [endingSlashes_cons_of_ne other, endingSlashes_of_ne other]
        · rw [endingSlashes_of_ne isSlash]

end Slashes

/-! ### The first pass -/

/-- Slashes and stars, each with its role. -/
def commentMarks : List (Char × Role) :=
  [('/', .slash), ('*', .star)]

/-- What is known of slashes and stars: what they pair with is a partner of the role. -/
theorem commentMarks_spec : ∀ m ∈ commentMarks, m.2 ∈ Role.spelled ∧
    m.2.terminal.value.toList = [m.1] ∧ Profile.standalone.opens? m.1 = none ∧
    (∀ double, m.2 ≠ .quote double) ∧
    ∀ pair ∈ commentPairs, pair.1 = m.1 → ∃ n ∈ commentMarks, n.1 = pair.2 ∧ n.2 ∈ m.2.partners := by
  decide

/-- A pair begins with a slash or a star. -/
theorem commentPairs_first : ∀ pair ∈ commentPairs, ∃ m ∈ commentMarks, pair.1 = m.1 := by
  decide

/-- Characters that are neither slashes nor stars. -/
def Smooth (cs : List Char) : Prop :=
  ∀ c ∈ cs, ∀ m ∈ commentMarks, c ≠ m.1

/-- The text of a token, cut up: a pair stays together. -/
def pieces (t : Token) : List (List Char) :=
  if t.text.toList ∈ commentPairs.map (fun pair => [pair.1, pair.2]) then [t.text.toList]
  else t.text.toList.map ([·])

section Pieces

variable {t : Token} {c d : Char} {cs ds : List Char}

theorem cut_smooth (smooth : Smooth cs) (ds : List Char) :
    cut commentPairs (cs ++ ds) = cs.map ([·]) ++ cut commentPairs ds := by
  induction cs with
  | nil => rfl
  | cons c cs ih =>
      simp only [Smooth, List.forall_mem_cons] at smooth
      rw [List.cons_append, cut_single, ih smooth.2]
      · rfl
      · intro d _ mem
        obtain ⟨m, isMark, same⟩ := commentPairs_first _ mem
        exact smooth.1 m isMark same

theorem pieces_smooth (smooth : Smooth t.text.toList) : pieces t = t.text.toList.map ([·]) := by
  refine if_neg fun isPair => ?_
  obtain ⟨pair, mem, same⟩ := List.mem_map.mp isPair
  obtain ⟨m, isMark, first⟩ := commentPairs_first pair mem
  exact smooth pair.1 (by rw [← same]; exact List.mem_cons_self) m isMark first

theorem pieces_single (text : t.text.toList = [c]) : pieces t = [[c]] := by
  rw [pieces, text, if_neg (by simp [commentPairs])]
  rfl

theorem pieces_pair (text : t.text.toList = [c, d]) (mem : (c, d) ∈ commentPairs) :
    pieces t = [[c, d]] := by
  rw [pieces, text, if_pos (List.mem_map.mpr ⟨_, mem, rfl⟩)]

/-- A pair among the pieces of a token is all there is of it. -/
theorem text_of_mem_pieces (mem : [c, d] ∈ pieces t) :
    t.text.toList = [c, d] ∧ pieces t = [[c, d]] := by
  unfold pieces at mem ⊢
  split at mem
  · rename_i isPair
    have text := List.mem_singleton.mp mem
    rw [if_pos isPair, ← text]
    exact ⟨rfl, rfl⟩
  · obtain ⟨e, -, same⟩ := List.mem_map.mp mem
    cases same

theorem pieces_ne_nil (filled : t.text.toList ≠ []) : pieces t ≠ [] := by
  unfold pieces
  split
  · exact List.cons_ne_nil _ _
  · simpa using filled

end Pieces

section FirstPass

variable {t : Token} {rest : List Token}

/-- A raw token that is neither a slash nor a star has none in it. -/
theorem smooth_of_fits (raw : Profile.standalone.Fits t)
    (other : ∀ m ∈ commentMarks, fits m.2 t = false) : Smooth t.text.toList := by
  rintro c mem m isMark rfl
  obtain ⟨isSpelled, value, closed, -⟩ := commentMarks_spec m isMark
  have isHere := fits_of_mem raw mem closed isSpelled value
  rw [other m isMark] at isHere
  cases isHere

/-- Behind a slash or a star that is kept stands nothing that it pairs with. -/
theorem Alone.unjoined (h : Alone t rest) {m : Char × Role} (isMark : m ∈ commentMarks)
    (isHere : role t = some m.2) (raw : ∀ u ∈ rest, Profile.standalone.Fits u) :
    ∀ d, (chars rest).head? = some d → (m.1, d) ∉ commentPairs := by
  intro d head mem
  have unpaired := h.unpaired m.2 isHere
  cases rest with
  | nil => cases head
  | cons u others =>
      have isRaw := raw u List.mem_cons_self
      rw [chars_cons, List.head?_append_of_ne_nil _ (spelled_of_fits isRaw).filled] at head
      obtain ⟨-, -, -, -, partners⟩ := commentMarks_spec m isMark
      obtain ⟨n, isMark', rfl, isPartner⟩ := partners _ mem rfl
      obtain ⟨isSpelled, value, closed, -⟩ := commentMarks_spec n isMark'
      have isThere := fits_of_mem isRaw (List.mem_of_mem_head? head) closed isSpelled value
      exact List.any_eq_false.mp unpaired n.2 isPartner isThere

/-- What is folded from tokens that are neither slashes nor stars has none in it. -/
theorem smooth_fold_of_fits {more : List Token} (raw : ∀ u ∈ t :: more, Profile.standalone.Fits u)
    (other : ∀ u ∈ t :: more, ∀ m ∈ commentMarks, fits m.2 u = false) (type : String) :
    Smooth (fold type t more).text.toList := by
  intro c mem
  rw [toList_text_fold, ← chars_cons] at mem
  obtain ⟨u, isThere, inside⟩ := List.mem_flatMap.mp mem
  exact smooth_of_fits (raw u isThere) (other u isThere) c inside

/-- **A word of the first pass is cut off** from what stands behind it. -/
theorem RawWord.cut_fold {more : List Token} {type : String} (h : RawWord t rest more type)
    (raw : ∀ u ∈ t :: more, Profile.standalone.Fits u)
    (rawRest : ∀ u ∈ rest, Profile.standalone.Fits u) :
    cut commentPairs ((fold type t more).text.toList ++ chars rest) =
      pieces (fold type t more) ++ cut commentPairs (chars rest) := by
  have smooth : Smooth (fold type t more).text.toList →
      cut commentPairs ((fold type t more).text.toList ++ chars rest) =
        pieces (fold type t more) ++ cut commentPairs (chars rest) := by
    intro smooth
    rw [cut_smooth smooth, pieces_smooth smooth]
  have text := toList_text_fold type t more
  have rawHere := raw t List.mem_cons_self
  have spelled := spelled_of_fits rawHere
  have regular := regular_of_fits rawHere
  cases h with
  | kept alone =>
      by_cases marked : ∃ m ∈ commentMarks, role t = some m.2
      · obtain ⟨m, isMark, isHere⟩ := marked
        obtain ⟨isSpelled, value, -⟩ := commentMarks_spec m isMark
        rw [chars_nil, List.append_nil, spelled_mark spelled regular isSpelled isHere, value] at text
        rw [pieces_single text, text, List.singleton_append,
          cut_single (alone.unjoined isMark isHere rawRest)]
        rfl
      · refine smooth (smooth_fold_of_fits raw (fun u here m isMark => ?_) _)
        obtain rfl := List.mem_singleton.mp here
        refine Bool.eq_false_iff.mpr fun isHere => marked ⟨m, isMark, ?_⟩
        exact role_of_fits isHere (commentMarks_spec m isMark).2.2.2.1
  | @quote double isQuote =>
      have apart : ∀ double, ∀ m ∈ commentMarks,
          (Role.quote double == m.2 || (Role.quote double).bare == m.2) = false := by
        decide
      refine smooth (smooth_fold_of_fits raw (fun u here m isMark => ?_) _)
      obtain rfl := List.mem_singleton.mp here
      exact (fits_of_role isQuote m.2).trans (apart double m isMark)
  | linked linked =>
      have apart : ∀ r ∈ Role.linking, ∀ m ∈ commentMarks,
          (r == m.2 || r.bare == m.2) = false := by
        decide
      refine smooth (smooth_fold_of_fits raw (fun u mem m isMark => ?_) _)
      obtain ⟨r, isLinking, isHere⟩ := linked u mem
      exact (fits_of_role isHere m.2).trans (apart r isLinking m isMark)
  | @pair r r' p isHere isPartner isThere =>
      have partners : ∀ r ∈ Role.typed ++ Role.spelled, ∀ r' ∈ r.partners,
          r ∈ Role.spelled ∧ r' ∈ Role.spelled ∧
          ((∃ pair ∈ commentPairs,
              r.terminal.value.toList ++ r'.terminal.value.toList = [pair.1, pair.2]) ∨
            ∀ c ∈ r.terminal.value.toList ++ r'.terminal.value.toList, ∀ m ∈ commentMarks,
              c ≠ m.1) := by
        decide
      have rawThere := raw p (List.mem_cons_of_mem t List.mem_cons_self)
      obtain ⟨isSpelled, isSpelled', joined⟩ :=
        partners r (List.mem_append.mpr r.mem_typed_or_mem_spelled) r' isPartner
      rw [chars_cons, chars_nil, List.append_nil, spelled_mark spelled regular isSpelled isHere,
        text_of_fits (regular_of_fits rawThere) (spelled_of_fits rawThere).kept isSpelled'
          isThere] at text
      rcases joined with ⟨pair, isPair, same⟩ | apart
      · rw [same] at text
        rw [pieces_pair text isPair, text, List.cons_append, List.singleton_append, cut_pair isPair]
        rfl
      · refine smooth ?_
        rw [text]
        exact apart

/-- **The first pass cuts the text up**: its tokens have the pieces of the whole text. -/
theorem Swept.cut_chars {tokens swept : List Token} (h : Swept tokens swept)
    (raw : ∀ t ∈ tokens, Profile.standalone.Fits t) :
    cut commentPairs (chars tokens) = swept.flatMap pieces := by
  induction h with
  | nil => rfl
  | @cons t more rest swept type word further ih =>
      simp only [List.forall_mem_cons, List.forall_mem_append] at raw
      obtain ⟨rawHere, rawMore, rawRest⟩ := raw
      rw [List.flatMap_cons, ← ih rawRest, chars_cons, chars_append, ← List.append_assoc,
        ← toList_text_fold type]
      exact (word.raw rawHere).cut_fold (List.forall_mem_cons.mpr ⟨rawHere, rawMore⟩) rawRest

end FirstPass

/-! ### The second pass -/

section SecondPass

variable {w : List Token} {c d : Char} {cs : List Char}

/-- What begins with a pair begins with a token of that text. -/
theorem head_of_pieces {units : List (List Char)} (spelled : ∀ t ∈ w, Spelled t)
    (h : w.flatMap pieces = [c, d] :: units) :
    ∃ t ahead, w = t :: ahead ∧ t.text.toList = [c, d] ∧ ahead.flatMap pieces = units := by
  cases w with
  | nil => cases h
  | cons t ahead =>
      obtain ⟨unit, others, first⟩ := List.exists_cons_of_ne_nil
        (pieces_ne_nil (spelled t List.mem_cons_self).filled)
      rw [List.flatMap_cons, first, List.cons_append] at h
      obtain ⟨rfl, behind⟩ := List.cons.inj h
      obtain ⟨text, only⟩ := @text_of_mem_pieces t c d (by rw [first]; exact List.mem_cons_self)
      rw [first] at only
      rw [(List.cons.inj only).2, List.nil_append] at behind
      exact ⟨t, ahead, rfl, text, behind⟩

theorem eq_nil_of_pieces (spelled : ∀ t ∈ w, Spelled t) (h : w.flatMap pieces = []) : w = [] := by
  cases w with
  | nil => rfl
  | cons t ahead =>
      rw [List.flatMap_cons, List.append_eq_nil_iff] at h
      exact (pieces_ne_nil (spelled t List.mem_cons_self).filled h.1).elim

/-- What has no pair among its pieces has no token of that text. -/
theorem text_ne_of_pieces (isPair : (c, d) ∈ commentPairs) (h : [c, d] ∉ w.flatMap pieces) :
    ∀ t ∈ w, t.text.toList ≠ [c, d] := by
  intro t mem text
  refine h (List.mem_flatMap.mpr ⟨t, mem, ?_⟩)
  rw [pieces_pair text isPair]
  exact List.mem_singleton_self _

/-- What ends at the first of some pairs ends at the first token of that text. -/
theorem last_of_pieces (spelled : ∀ t ∈ w, Spelled t) (isPair : (c, d) ∈ commentPairs)
    (h : EndsAt [c, d] (w.flatMap pieces)) :
    ∃ body close, w = body ++ [close] ∧ close.text.toList = [c, d] ∧
      ∀ t ∈ body, t.text.toList ≠ [c, d] := by
  induction w with
  | nil => exact (endsAt_nil h).elim
  | cons t ahead ih =>
      simp only [List.forall_mem_cons] at spelled
      rw [List.flatMap_cons] at h
      by_cases mem : [c, d] ∈ pieces t
      · obtain ⟨text, only⟩ := text_of_mem_pieces mem
        rw [only, List.singleton_append, endsAt_cons] at h
        rcases h with ⟨-, nothing⟩ | ⟨other, -⟩
        · exact ⟨[], t, by rw [eq_nil_of_pieces spelled.2 nothing]; rfl, text, by simp⟩
        · exact (other rfl).elim
      · obtain ⟨body, close, rfl, closed, inside⟩ := ih spelled.2 ((endsAt_append mem).mp h)
        refine ⟨t :: body, close, rfl, closed, List.forall_mem_cons.mpr ⟨fun text => ?_, inside⟩⟩
        rw [pieces_pair text isPair] at mem
        exact mem (List.mem_singleton_self _)

/-- **Behind the first mark of a comment** the first pass leaves the pieces of the text. -/
theorem sweep_blockOpen (raw : ∀ t ∈ w, Profile.standalone.Fits t)
    (text : chars w = '/' :: '*' :: cs) :
    ∃ t ahead, sweep w = some (t :: ahead) ∧ Sound (t :: ahead) ∧ role t = some .blockOpen ∧
      ahead.flatMap pieces = cut commentPairs cs := by
  obtain ⟨w', swept⟩ := sweep_of_raw raw
  have sound := (sound_of_raw raw).step swept
  have units := (swept_of_sweep swept).cut_chars raw
  rw [text, cut_pair (by decide)] at units
  obtain ⟨t, ahead, rfl, opening, behind⟩ := head_of_pieces sound.spelled units.symm
  refine ⟨t, ahead, swept, sound, ?_, behind⟩
  refine role_of_fits (fits_of_text (sound.regular t List.mem_cons_self) (by decide) ?_) nofun
  exact String.toList_inj.mp opening

theorem not_blockClose {t : Token} (regular : Regular t) (spelled : Spelled t)
    (other : t.text.toList ≠ closingMark) : fits .blockClose t = false := by
  refine Bool.eq_false_iff.mpr fun isClose => other ?_
  exact congrArg String.toList (text_of_fits regular spelled.kept (by decide) isClose)

/-- A comment has no role: it is longer than a mark. -/
theorem role_comment {t : Token} (regular : Regular t) (spelled : Spelled t)
    (type : t.type = "WS-BLOCK-COMMENT") (long : 2 < t.text.toList.length) : role t = none := by
  have types : ∀ r ∈ Role.typed, r.terminal.value ≠ "WS-BLOCK-COMMENT" := by decide
  have values : ∀ r ∈ Role.spelled, r.terminal.value.toList.length ≤ 2 := by decide
  refine role_eq_none regular spelled (fun r mem => type ▸ types r mem) ?_
  intro r mem value
  have short := values r mem
  rw [value] at short
  omega

/-- **A comment that ends at its first closing mark is folded.** -/
theorem folds_comment (raw : ∀ t ∈ w, Profile.standalone.Fits t)
    (text : chars w = '/' :: '*' :: cs) (ends : EndsAt closingMark (cut commentPairs cs)) :
    Folds ("WS-BLOCK-COMMENT", String.ofList (chars w)) w := by
  obtain ⟨t, ahead, first, sound, opening, units⟩ := sweep_blockOpen raw text
  have regular := sound.regular
  have spelled := sound.spelled
  simp only [List.forall_mem_cons] at regular spelled
  rw [← units] at ends
  obtain ⟨body, close, rfl, closed, inside⟩ := last_of_pieces spelled.2 (by decide) ends
  have quiet : ∀ u ∈ body, fits .blockClose u = false := by
    intro u mem
    have isThere := List.mem_append_left [close] mem
    exact not_blockClose (regular.2 u isThere) (spelled.2 u isThere) (inside u mem)
  have isClose : fits .blockClose close = true :=
    fits_of_text (regular.2 close (by simp)) (by decide) (String.toList_inj.mp closed)
  have word : munch t (body ++ [close]) =
      some ("WS-BLOCK-COMMENT", (body ++ [close]).length) := by
    rw [munch, opening]
    show (seek .blockClose (body ++ [close])).map _ = _
    rw [seek_last quiet isClose, List.length_append]
    rfl
  have folded := sound.step (sweep_whole word)
  refine folds_of_munch first word (role_comment (folded.regular _ List.mem_cons_self)
    (folded.spelled _ List.mem_cons_self) rfl ?_)
  rw [toList_text_fold, spelled_mark spelled.1 regular.1 (by decide) opening, chars_append,
    chars_cons, closed]
  simp [Role.terminal, Terminal.literal]

end SecondPass

/-! ### Comments that are not closed -/

/-- **Passes that come to miss a terminator.** -/
inductive Breaks : List Token → Prop where
  | here {w : List Token} : sweep w = none → Breaks w
  | pass {w w' : List Token} : sweep w = some w' → Breaks w' → Breaks w

section Breaking

variable {w : List Token}

theorem Breaks.not_fixed (h : Breaks w) : sweep w ≠ some w := by
  induction h with
  | here missing =>
      rw [missing]
      nofun
  | pass first _ ih =>
      intro fixed
      rw [first] at fixed
      cases fixed
      exact ih first

/-- Passes that break never settle. -/
theorem words_break :
    words.Progresses (fun w => (∀ t ∈ w, Regular t) ∧ Breaks w) Unterminated weigh := by
  rintro w ⟨regular, breaks⟩
  rcases pass_progress regular with ⟨next, ok, progress⟩ | failed
  · have swept := (pass_eq_ok_iff regular).mp ok
    refine Or.inl ⟨next, ok, ⟨progress.regular, ?_⟩, progress.moves.imp And.left id⟩
    cases breaks with
    | here missing =>
        rw [missing] at swept
        cases swept
    | pass first others =>
        rw [first] at swept
        cases swept
        exact others
  · exact Or.inr failed

/-- **A source whose passes break** has no words. -/
theorem tokenize_of_breaks {source : String} (h : Breaks (Profile.standalone.tokens source))
    (raw : Bool) : ∃ e, (language.tokenize source raw).outcome = .error e ∧ Unterminated e := by
  have regular : ∀ t ∈ Profile.standalone.tokens source, Regular t :=
    fun t mem => regular_of_fits (Profile.fits_of_mem_tokens mem)
  have room := weigh_le (Profile.standalone.tokens source)
  rw [outcome_tokenize]
  rcases WordBuilder.build_of_measure words_break rfl ⟨regular, h⟩ (by omega) raw with
    ⟨settled, -, ⟨regularWords, breaks⟩, fixed, -⟩ | failed
  · exact (breaks.not_fixed ((pass_eq_ok_iff regularWords).mp fixed)).elim
  · exact failed

/-- **A comment without a closing mark breaks** in the second pass. -/
theorem breaks_comment {cs : List Char} (raw : ∀ t ∈ w, Profile.standalone.Fits t)
    (text : chars w = '/' :: '*' :: cs) (missing : closingMark ∉ cut commentPairs cs) :
    Breaks w := by
  obtain ⟨t, ahead, first, sound, opening, units⟩ := sweep_blockOpen raw text
  rw [← units] at missing
  have others := text_ne_of_pieces (by decide) missing
  have quiet : ∀ u ∈ ahead, fits .blockClose u = false := by
    intro u mem
    have isThere := List.mem_cons_of_mem t mem
    exact not_blockClose (sound.regular u isThere) (sound.spelled u isThere) (others u mem)
  have nothing : munch t ahead = none := by
    rw [munch, opening]
    show (seek .blockClose ahead).map _ = none
    rw [seek, List.findIdx?_eq_none_iff.mpr quiet]
    rfl
  exact .pass first (.here (by rw [sweep, nothing]))

end Breaking

/-! ### Sources -/

/-- **When a block comment is closed.**  A comment whose body has no closing mark is left
out, and is one token if blanks are kept, as long as its body ends in an even number of
slashes.  If the number is odd, the last of them takes the star of the closing mark,
and the comment is never closed. -/
theorem tokenize_blockComment (body : String) (kept : ∀ c ∈ body.toList, isKept c = true)
    (inner : ¬ closingMark <:+: body.toList) (raw : Bool) :
    (endingSlashes body.toList % 2 = 0 →
      (language.tokenize ("/*" ++ body ++ "*/") raw).outcome =
        .ok (if raw then [⟨"WS-BLOCK-COMMENT", "/*" ++ body ++ "*/", 1, 1⟩] else [])) ∧
    (endingSlashes body.toList % 2 = 1 →
      ∃ e, (language.tokenize ("/*" ++ body ++ "*/") raw).outcome = .error e ∧ Unterminated e) := by
  have text : ("/*" ++ body ++ "*/").toList = '/' :: '*' :: (body.toList ++ closingMark) := by
    simp [closingMark]
  have keptText : ∀ c ∈ ("/*" ++ body ++ "*/").toList, isKept c = true := by
    have marks : isKept '/' = true ∧ isKept '*' = true := by decide
    rw [text]
    simpa [closingMark, marks, or_imp, forall_and] using kept
  have fits : ∀ t ∈ Profile.standalone.tokens ("/*" ++ body ++ "*/"), Profile.standalone.Fits t :=
    fun t mem => Profile.fits_of_mem_tokens mem
  have chars : chars (Profile.standalone.tokens ("/*" ++ body ++ "*/")) =
      ("/*" ++ body ++ "*/").toList :=
    chars_tokensFrom keptText .start
  have closing := closing_cut body.toList inner
  constructor
  · intro even
    have folds := folds_comment fits (chars.trans text) (closing.ends even)
    rw [chars, String.ofList_toList] at folds
    rw [tokenize_of_folds text (by decide) (by decide) folds raw]
    have blank : "WS-BLOCK-COMMENT" ∈ Token.blankTypes := by decide
    simp [blank]
  · intro odd
    exact tokenize_of_breaks (breaks_comment fits (chars.trans text) (closing.missing odd)) raw

/-- Quotes, other marks and two slashes are part of a comment; a single slash at its end
is not. -/
theorem tokenize_blockComment_slashes :
    let body := " \x27/* -- \"b\\//"
    (∀ c ∈ body.toList, isKept c = true) ∧ ¬ closingMark <:+: body.toList ∧
      (language.tokenize ("/*" ++ body ++ "*/") true).outcome =
        .ok [⟨"WS-BLOCK-COMMENT", "/* \x27/* -- \"b\\//*/", 1, 1⟩] ∧
      (language.tokenize ("/*" ++ body ++ "*/") false).outcome = .ok [] ∧
      ∃ e, (language.tokenize ("/*" ++ "b/" ++ "*/") false).outcome = .error e ∧ Unterminated e := by
  intro body
  have kept : ∀ c ∈ body.toList, isKept c = true := by decide
  have inner : ¬ closingMark <:+: body.toList := by decide +kernel
  exact ⟨kept, inner, (tokenize_blockComment _ kept inner true).1 (by decide),
    (tokenize_blockComment _ kept inner false).1 (by decide),
    (tokenize_blockComment "b/" (by decide) (by decide +kernel) false).2 (by decide)⟩

/-- **Not every block comment is skipped**: one slash before the closing mark is enough. -/
theorem not_forall_blockComment_skipped :
    ¬ ∀ body : String, (∀ c ∈ body.toList, isKept c = true) →
      ¬ closingMark <:+: body.toList →
      (language.tokenize ("/*" ++ body ++ "*/") false).outcome = .ok [] := by
  intro skipped
  have found := skipped "a/" (by decide) (by decide +kernel)
  have missing : (language.tokenize ("/*" ++ "a/" ++ "*/") false).outcome.toOption = none := by
    decide +kernel
  rw [found] at missing
  cases missing

end GrammarKit.Query
