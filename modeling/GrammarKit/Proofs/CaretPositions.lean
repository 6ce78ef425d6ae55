import GrammarKit.Proofs.TokenPositions
import GrammarKit.Text.Lines

/-!
# Carets and positions

There are two ways to find a place in a source.  The lexer counts as it goes: a line
feed opens a line, and every other character, a carriage return too, takes a column.
A caret is drawn under a line that was cut out after all line ends had been made line
feeds.  The two agree as long as every carriage return stands before a line feed, and
where one does not, they differ from there to the end of the source.

## Main Definitions

* `Text.ReturnsPaired` — every carriage return stands right before a line feed

## Main Statements

* `Text.splitLines_append` — the lines of a text are counted as the lexer counts them
* `Text.endPosition_eq` — the end of a source is the position behind its unified
  characters
* `Text.advanceAll_unifyLineEnds_iff` — unifying line ends keeps the position behind
  exactly if carriage returns are paired
* `Profile.Coherent.stateAfter_snd` — the lexer's counters go through the characters
* `Profile.tokenize_carets` — carets stand under the first characters of tokens, and
  sources end where the lexer stops counting

## Design Notes

Line and column of `Position.advanceAll_start` are the number of lines that are full
and the length of the one that is not.  With that, both halves are about one
question: whether unified characters lead to the position of the characters
themselves.
-/

namespace GrammarKit

namespace Text

/-! ### Paired carriage returns -/

/-- **Every carriage return stands right before a line feed.** -/
def ReturnsPaired (cs : List Char) : Prop :=
  ∀ i < cs.length, cs[i]? = some '\r' → cs[i + 1]? = some '\n'

instance (cs : List Char) : Decidable (ReturnsPaired cs) :=
  inferInstanceAs (Decidable (∀ i < cs.length, cs[i]? = some '\r' → cs[i + 1]? = some '\n'))

@[simp] theorem returnsPaired_nil : ReturnsPaired [] := nofun

theorem returnsPaired_cons {c : Char} {cs : List Char} :
    ReturnsPaired (c :: cs) ↔ (c = '\r' → cs.head? = some '\n') ∧ ReturnsPaired cs := by
  constructor
  · intro paired
    refine ⟨fun here => ?_, fun i inside here => ?_⟩
    · simpa [List.head?_eq_getElem?] using paired 0 (by simp) (by simpa using here)
    · exact paired (i + 1) (Nat.succ_lt_succ inside) here
  · rintro ⟨first, others⟩ i inside here
    cases i with
    | zero => simpa [List.head?_eq_getElem?] using first (by simpa using here)
    | succ i => exact others i (Nat.lt_of_succ_lt_succ inside) here

@[simp] theorem returnsPaired_pair {cs : List Char} :
    ReturnsPaired ('\r' :: '\n' :: cs) ↔ ReturnsPaired cs := by
  simp [returnsPaired_cons]

theorem returnsPaired_other {c : Char} {cs : List Char} (other : c ≠ '\r') :
    ReturnsPaired (c :: cs) ↔ ReturnsPaired cs := by
  simp [returnsPaired_cons, other]

/-! ### Unified line ends -/

theorem unifyLineEnds_other {c : Char} {cs : List Char} (other : c ≠ '\r') :
    unifyLineEnds (c :: cs) = c :: unifyLineEnds cs := by
  rw [unifyLineEnds, if_neg other]
  exact fun _ here _ => other here

/-- **Unifying goes on behind any character that is not the second half of a line
end**, and what stands before it is paired by itself. -/
theorem unifyLineEnds_append {u v : List Char} (paired : ReturnsPaired (u ++ v))
    (fresh : v.head? ≠ some '\n') :
    ReturnsPaired u ∧ unifyLineEnds (u ++ v) = unifyLineEnds u ++ unifyLineEnds v := by
  fun_induction unifyLineEnds u with
  | case1 => exact ⟨returnsPaired_nil, rfl⟩
  | case2 rest ih =>
      obtain ⟨before, both⟩ := ih (returnsPaired_pair.mp paired)
      exact ⟨returnsPaired_pair.mpr before, congrArg ('\n' :: ·) both⟩
  | case3 c rest lone ih =>
      obtain ⟨first, others⟩ := returnsPaired_cons.mp paired
      -- a carriage return here would need a line feed, and `v` does not bring one
      have other : c ≠ '\r' := by
        rintro rfl
        cases rest with
        | nil => exact fresh (first rfl)
        | cons d rest => exact lone rest rfl (by simpa using first rfl)
      obtain ⟨before, both⟩ := ih others
      refine ⟨(returnsPaired_other other).mpr before, ?_⟩
      rw [if_neg other, List.cons_append, unifyLineEnds_other other, both, List.cons_append]

/-- Unifying line ends loses no line feed, and makes none exactly if carriage returns
are paired. -/
theorem count_unifyLineEnds (cs : List Char) :
    cs.count '\n' ≤ (unifyLineEnds cs).count '\n' ∧
      ((unifyLineEnds cs).count '\n' = cs.count '\n' → ReturnsPaired cs) := by
  fun_induction unifyLineEnds cs with
  | case1 => exact ⟨Nat.le_refl _, fun _ => returnsPaired_nil⟩
  | case2 rest ih => simpa using ih
  | case3 c rest _ ih =>
      by_cases lone : c = '\r'
      · -- a lone carriage return is one line feed too many, whatever follows
        subst lone
        simp
        omega
      · rw [if_neg lone, returnsPaired_other lone, List.count_cons, List.count_cons]
        exact ⟨Nat.add_le_add_right ih.1 _, fun same => ih.2 (Nat.add_right_cancel same)⟩

theorem advanceAll_unifyLineEnds {cs : List Char} (paired : ReturnsPaired cs) :
    ∀ position : Position, position.advanceAll (unifyLineEnds cs) = position.advanceAll cs := by
  fun_induction unifyLineEnds cs with
  | case1 => exact fun _ => rfl
  | case2 rest ih => exact fun position => ih (returnsPaired_pair.mp paired) _
  | case3 c rest lone ih =>
      obtain ⟨first, others⟩ := returnsPaired_cons.mp paired
      have other : c ≠ '\r' := by
        rintro rfl
        obtain ⟨rest', rfl⟩ := List.head?_eq_some_iff.mp (first rfl)
        exact lone rest' rfl rfl
      intro position
      rw [if_neg other]
      exact ih others _

/-- **Unifying line ends keeps the position behind** the characters exactly if every
carriage return stands before a line feed: one that does not makes a line feed, which
the characters themselves do not have. -/
theorem advanceAll_unifyLineEnds_iff (cs : List Char) :
    Position.start.advanceAll (unifyLineEnds cs) = Position.start.advanceAll cs ↔
      ReturnsPaired cs := by
  refine ⟨fun same => ?_, fun paired => advanceAll_unifyLineEnds paired _⟩
  rw [Position.advanceAll_start, Position.advanceAll_start, Position.mk.injEq] at same
  exact (count_unifyLineEnds cs).2 (Nat.add_left_cancel same.1)

/-! ### Lines -/

theorem splitLines_cons {c : Char} {cs line : List Char} {lines : List (List Char)}
    (rest : splitLines cs = line :: lines) :
    splitLines (c :: cs) =
      if c = '\n' then [] :: line :: lines else (c :: line) :: lines := by
  rw [splitLines, rest]

/-- **The lines of a text are counted as positions are**: as many are full as there are
line feeds, and the one that is left open, and that whatever follows goes on with, is
as long as the indent. -/
theorem splitLines_append (u : List Char) :
    ∃ front last, front.length = u.count '\n' ∧ last.length = Position.indent u ∧
      ∀ v first rest, splitLines v = first :: rest →
        splitLines (u ++ v) = front ++ (last ++ first) :: rest := by
  induction u using List.reverseRecOn with
  | nil => exact ⟨[], [], rfl, rfl, fun v first rest split => split⟩
  | append_singleton u c ih =>
      obtain ⟨front, last, full, opened, extend⟩ := ih
      by_cases feed : c = '\n'
      · refine ⟨front ++ [last], [], by simp [feed, full], by simp [feed, Position.indent],
          fun v first rest split => ?_⟩
        have here := splitLines_cons (c := c) split
        rw [if_pos feed] at here
        rw [List.append_assoc, List.singleton_append, extend _ _ _ here]
        simp
      · refine ⟨front, last ++ [c], by simp [feed, full],
          by simp [feed, Position.indent, opened], fun v first rest split => ?_⟩
        have here := splitLines_cons (c := c) split
        rw [if_neg feed] at here
        rw [List.append_assoc, List.singleton_append, extend _ _ _ here]
        simp

/-- **A source ends behind its unified characters.** -/
theorem endPosition_eq (source : String) :
    endPosition source =
      (((Position.start.advanceAll (unifyLineEnds source.toList)).line : Int),
        ((Position.start.advanceAll (unifyLineEnds source.toList)).column : Int)) := by
  obtain ⟨front, last, full, opened, extend⟩ := splitLines_append (unifyLineEnds source.toList)
  have lines : sourceLines source = front ++ [last] := by
    simpa [sourceLines] using extend [] [] [] rfl
  have final : lastLine source = last := by simp [lastLine, lines]
  rw [endPosition, final, lines, Position.advanceAll_start]
  simp [full, opened, Int.add_comm]

/-- A caret at a place of its line stands under the character there. -/
theorem underline_append (before behind : List Char) (c : Char) :
    underline (before ++ c :: behind) (before.length + 1) =
      String.ofList
        (before ++ c :: behind ++ '\n' :: List.replicate before.length ' ' ++ ['^']) := by
  simp [underline]

/-- **Where carriage returns are paired, the line of a position has the character that
stands there**, unless this is part of a line end itself. -/
theorem lineAt?_of_append {source : String} {u v : List Char} {c : Char}
    (split : source.toList = u ++ c :: v) (paired : ReturnsPaired source.toList)
    (notReturn : c ≠ '\r') (notFeed : c ≠ '\n') :
    ∃ before behind, before.length = Position.indent u ∧
      lineAt? source (1 + u.count '\n') = some (before ++ c :: behind) := by
  rw [split] at paired
  obtain ⟨pairedBefore, unified⟩ := unifyLineEnds_append paired (by simpa using notFeed)
  -- before the character, unified and plain characters lead to the same position
  have same := advanceAll_unifyLineEnds pairedBefore .start
  rw [Position.advanceAll_start, Position.advanceAll_start, Position.mk.injEq] at same
  obtain ⟨front, last, full, opened, extend⟩ := splitLines_append (unifyLineEnds u)
  obtain ⟨first, rest, after⟩ := List.exists_cons_of_ne_nil (splitLines_ne_nil (unifyLineEnds v))
  have here := splitLines_cons (c := c) after
  rw [if_neg notFeed] at here
  have lines : sourceLines source = front ++ (last ++ c :: first) :: rest := by
    rw [sourceLines, split, unified, unifyLineEnds_other notReturn, extend _ _ _ here]
  refine ⟨last, first, by omega, ?_⟩
  have index : (1 + (u.count '\n' : Int) - 1).toNat = front.length := by omega
  rw [lineAt?, if_pos (by omega), index, lines]
  simp

end Text

namespace Profile

variable {p : Profile}

/-! ### The lexer's counters -/

/-- Whatever is read, the counters go on by one character. -/
theorem Coherent.advanceIn_step (coherent : p.Coherent) (run : Option OpenRun)
    (position : Position) (c : Char) :
    advanceIn (p.step run position c).2 position c = position.advance c := by
  cases run with
  | none => exact p.advanceIn_begin position c
  | some run =>
      cases more : p.continues run.kind c with
      | true =>
          rw [step, if_pos more]
          exact coherent.advance_eq more position
      | false =>
          rw [step, if_neg (by rw [more]; exact Bool.false_ne_true)]
          exact p.advanceIn_begin position c

/-- **Whatever is open, the counters go through the characters one by one.** -/
theorem Coherent.stateAfter_snd (coherent : p.Coherent) (cs : List Char) :
    ∀ run position, (p.stateAfter run position cs).2 = position.advanceAll cs := by
  induction cs with
  | nil => exact fun run position => rfl
  | cons c cs ih =>
      intro run position
      rw [stateAfter, coherent.advanceIn_step, ih, Position.advanceAll_cons]

/-! ### Carets -/

theorem coherent_of_builtin (builtin : p ∈ [canonical, standalone]) : p.Coherent := by
  simp only [List.mem_cons, List.not_mem_nil, or_false] at builtin
  rcases builtin with rfl | rfl
  · exact canonical_coherent
  · exact standalone_coherent

/-- **A token that stands in a source has its caret under its first character**, if
carriage returns are paired and the token does not begin within a line end. -/
theorem StandsAt.caret {source : String} {index : Nat} {t : Token}
    (stands : StandsAt source.toList index t) (paired : Text.ReturnsPaired source.toList) :
    ∃ c, t.text.toList.head? = some c ∧ (c ≠ '\r' → c ≠ '\n' →
      ∃ before behind, Text.lineAt? source t.line = some (before ++ c :: behind) ∧
        t.column = before.length + 1 ∧
        Text.caretSnippet source t.line t.column =
          String.ofList
            (before ++ c :: behind ++ '\n' :: List.replicate before.length ' ' ++ ['^'])) := by
  obtain ⟨c, text, chars⟩ : ∃ c text, t.text.toList = c :: text :=
    List.exists_cons_of_ne_nil (by simpa using stands.filled)
  obtain ⟨later, ahead⟩ := stands.text
  have split : source.toList = source.toList.take index ++ c :: (text ++ later) := by
    rw [← List.cons_append, ← chars, ahead, List.take_append_drop]
  refine ⟨c, by rw [chars]; rfl, fun notReturn notFeed => ?_⟩
  obtain ⟨before, behind, indent, line⟩ :=
    Text.lineAt?_of_append split paired notReturn notFeed
  have column : t.column = before.length + 1 := by rw [stands.column, indent, Int.add_comm]
  rw [← stands.line] at line
  refine ⟨before, behind, line, column, ?_⟩
  rw [Text.caretSnippet, line, column]
  exact Text.underline_append before behind c

/-- **Carets stand where the lexer counted, exactly if no carriage return is alone.**
Under either built-in profile, if every carriage return of a source stands before a
line feed, then every token has a first character, and unless this is a carriage
return or a line feed, the line of the token is there, has this character at the
token's column, and is drawn with the caret under it.  And the end of any source is
where the lexer's counters are after its last character exactly if every carriage
return stands before a line feed; the counters are those that the lexer would go on
with. -/
theorem tokenize_carets {ε : Type} (builtin : p ∈ [canonical, standalone]) (debug : Bool)
    (source : String) :
    (Text.ReturnsPaired source.toList →
      ∃ tokens, (p.tokenize debug source : Traced ε (List Token)).outcome = .ok tokens ∧
        ∀ t ∈ tokens, ∃ c, t.text.toList.head? = some c ∧ (c ≠ '\r' → c ≠ '\n' →
          ∃ before behind, Text.lineAt? source t.line = some (before ++ c :: behind) ∧
            t.column = before.length + 1 ∧
            Text.caretSnippet source t.line t.column =
              String.ofList
                (before ++ c :: behind ++ '\n' :: List.replicate before.length ' ' ++ ['^']))) ∧
    (∃ given, ∀ rest, p.scan none .start (source.toList ++ rest) = given ++
      p.scan (p.stateAfter none .start source.toList).1
        (p.stateAfter none .start source.toList).2 rest) ∧
    (Text.endPosition source =
        (((p.stateAfter none .start source.toList).2.line : Int),
          ((p.stateAfter none .start source.toList).2.column : Int)) ↔
      Text.ReturnsPaired source.toList) := by
  have coherent := coherent_of_builtin builtin
  refine ⟨?_, p.scan_resume source.toList none .start, ?_⟩
  · intro paired
    obtain ⟨placed, same, tiles, -⟩ := exists_tiles coherent source
    refine ⟨_, outcome_tokenize p debug source, fun t mem => ?_⟩
    rw [same] at mem
    obtain ⟨x, placed, rfl⟩ := List.mem_map.mp mem
    exact (tiles.stands x placed).caret paired
  · rw [coherent.stateAfter_snd, Text.endPosition_eq, ← Text.advanceAll_unifyLineEnds_iff,
      Prod.mk.injEq, Int.natCast_inj, Int.natCast_inj]
    constructor
    · rintro ⟨line, column⟩
      calc Position.start.advanceAll (Text.unifyLineEnds source.toList)
          = ⟨(Position.start.advanceAll source.toList).line,
              (Position.start.advanceAll source.toList).column⟩ := by rw [← line, ← column]
        _ = Position.start.advanceAll source.toList := rfl
    · intro same
      rw [same]
      exact ⟨rfl, rfl⟩

/-- A word behind a paired carriage return and a character that is dropped, and the end
of a source whose first carriage return stands before another. -/
theorem tokenize_carets_dropped :
    (∃ tokens, (standalone.tokenize false "x\r\n§b" : Traced Unit (List Token)).outcome =
        .ok tokens ∧
      ⟨Token.wordType, "b", 2, 2⟩ ∈ tokens ∧
      ∃ before behind, Text.lineAt? "x\r\n§b" 2 = some (before ++ 'b' :: behind) ∧
        (2 : Int) = before.length + 1 ∧
        Text.caretSnippet "x\r\n§b" 2 2 =
          String.ofList
            (before ++ 'b' :: behind ++ '\n' :: List.replicate before.length ' ' ++ ['^'])) ∧
    Text.endPosition "x\r\r\nb" ≠
      (((standalone.stateAfter none .start "x\r\r\nb".toList).2.line : Int),
        ((standalone.stateAfter none .start "x\r\r\nb".toList).2.column : Int)) := by
  constructor
  · obtain ⟨tokens, given, carets⟩ :=
      (tokenize_carets (ε := Unit) (p := standalone) (by simp) false "x\r\n§b").1 (by decide)
    have isToken : ⟨Token.wordType, "b", 2, 2⟩ ∈ tokens := by
      rw [outcome_tokenize, Except.ok.injEq] at given
      exact given ▸ by decide +kernel
    obtain ⟨c, first, caret⟩ := carets _ isToken
    obtain rfl : 'b' = c := Option.some.inj first
    exact ⟨tokens, given, isToken, caret (by decide) (by decide)⟩
  · have ends := (tokenize_carets (ε := Unit) (p := standalone) (by simp) false "x\r\r\nb").2.2
    exact mt ends.mp (by decide)

end Profile

end GrammarKit
