import GrammarKit.Proofs.Lexing
import Mathlib.Data.List.Induction

/-!
# Tokens tile the source

Every lexeme starts where the one before it ends, so the characters before a
token fix its index in the source, and with it line and column.  Tokens therefore
lie in the source in order and without overlap, and what lies between them is what
the profile drops.

## Main Definitions

* `Profile.keeps` — the characters that belong to some class of a profile
* `Profile.Coherent` — what a profile needs for every character to have its line
* `Profile.Follow` — lexemes that follow each other from a position on
* `Profile.StandsAt` — a token at an index of a source, with a true position
* `Profile.Tiles` — tokens at their indices, in order and without overlap

## Main Statements

* `Position.advanceAll_start` — a position counts line feeds, and the characters
  behind the last one
* `Profile.scan_follow` — the lexemes of a scan follow each other
* `Profile.exists_tiles` — the tokens of a source tile it
* `Profile.tokenize_tiles` — which characters lie outside them, for the built-in
  profiles

## Design Notes

The lexer knows positions and no indices.  The two are related once, for the
characters before a lexeme, and everything about indices is then a fact about a
list of lexemes that follow each other.

The lexer opens a line at a line feed only among blanks.  So the position of a token
counts all line feeds before it only if none of them is inside a word or a numeral,
and neither of the built-in profiles lets one in.
-/

namespace GrammarKit

/-! ### Positions count characters -/

/-- How many characters stand behind the last line feed. -/
def Position.indent (cs : List Char) : Nat :=
  (cs.reverse.takeWhile (· ≠ '\n')).length

/-- **A position counts the line feeds** before it, and the characters behind the
last of them. -/
theorem Position.advanceAll_start (cs : List Char) :
    Position.start.advanceAll cs = ⟨1 + cs.count '\n', 1 + indent cs⟩ := by
  induction cs using List.reverseRecOn with
  | nil => rfl
  | append_singleton cs c ih =>
      rw [advanceAll_append, ih, advanceAll_cons, advanceAll_nil, advance]
      split
      · rename_i feed
        simp [feed, indent, Nat.add_assoc]
      · rename_i other
        simp [other, indent, right, Nat.add_comm]

namespace Profile

variable {p : Profile}

/-! ### Lexemes that follow each other -/

/-- Whether a character belongs to a class: it opens a run or is punctuation. -/
def keeps (p : Profile) (c : Char) : Bool :=
  (p.opens? c).isSome || p.punctuation c

/-- **A profile whose runs are made of what belongs to a class**, and in which line feeds
continue blanks alone. -/
structure Coherent (p : Profile) : Prop where
  keeps : ∀ kind c, p.continues kind c = true → p.keeps c = true
  feed : ∀ kind, p.continues kind '\n' = true → kind = .blank

/-- Line feeds continue blanks alone where no word or numeral takes one in. -/
theorem blank_of_feed (word : p.wordContinue '\n' = false) (number : p.numberContinue '\n' = false) :
    ∀ kind, p.continues kind '\n' = true → kind = .blank := by
  intro kind more
  cases kind with
  | blank => rfl
  | word => exact absurd (word.symm.trans more) Bool.false_ne_true
  | number => exact absurd (number.symm.trans more) Bool.false_ne_true

/-- In a run of such a profile positions count line feeds. -/
theorem Coherent.advance_eq (coherent : p.Coherent) {kind : RunKind} {c : Char}
    (more : p.continues kind c = true) (position : Position) :
    kind.advance position c = position.advance c := by
  have other : kind ≠ .blank → position.advance c = position.right := by
    intro solid
    rw [Position.advance, if_neg]
    rintro rfl
    exact solid (coherent.feed kind more)
  cases kind with
  | blank => rfl
  | word => exact (other (by decide)).symm
  | number => exact (other (by decide)).symm

/-- **Lexemes that follow each other** from a position on: each starts where the one
before it ends.  Tokens are made of characters that are kept, and all others are
dropped one by one. -/
inductive Follow (p : Profile) : Position → List Lexeme → Prop where
  | nil {position : Position} : Follow p position []
  | token {type text : String} {position : Position} {rest : List Lexeme} :
      text ≠ "" → (∀ c ∈ text.toList, p.keeps c = true) →
      Follow p (position.advanceAll text.toList) rest →
      Follow p position (.token (tokenAt type text position) :: rest)
  | dropped {c : Char} {position : Position} {rest : List Lexeme} :
      p.keeps c = false → Follow p (position.advance c) rest →
      Follow p position (.dropped c position :: rest)

/-- What is known of an open run: it is not empty, its characters are kept, and the
next character stands behind them. -/
structure OpenRun.Grown (p : Profile) (run : OpenRun) (position : Position) : Prop where
  filled : run.text ≠ ""
  kept : ∀ c ∈ run.text.toList, p.keeps c = true
  behind : position = run.start.advanceAll run.text.toList

/-- A character outside any run is given out at once, or it opens a run. -/
theorem begin_follow (p : Profile) (position : Position) (c : Char) {rest : List Lexeme}
    (idle : (p.begin position c).2 = none → p.Follow (position.advance c) rest)
    (opened : ∀ run, (p.begin position c).2 = some run → run.Grown p (position.advance c) →
      p.Follow run.start rest) :
    p.Follow position ((p.begin position c).1 ++ rest) := by
  unfold begin at *
  cases opens : p.opens? c with
  | some kind =>
      rw [opens] at opened
      have kept : p.keeps c = true := by rw [keeps, opens]; rfl
      exact opened ⟨kind, position, String.singleton c⟩ rfl ⟨by simp, by simpa using kept, by simp⟩
  | none =>
      rw [opens] at idle
      by_cases mark : p.punctuation c = true
      · have kept : p.keeps c = true := by rw [keeps, mark, Bool.or_true]
        rw [if_pos mark] at idle ⊢
        exact .token (by simp) (by simpa using kept) (by simpa using idle)
      · have lost : p.keeps c = false := by rw [keeps, opens]; simpa using mark
        rw [if_neg mark] at idle ⊢
        exact .dropped lost (idle rfl)

/-- **The lexemes of a scan follow each other**, from the open run on if there is
one. -/
theorem scan_follow (coherent : p.Coherent) (cs : List Char) :
    (∀ position, p.Follow position (p.scan none position cs)) ∧
      ∀ run position, OpenRun.Grown p run position →
        p.Follow run.start (p.scan (some run) position cs) := by
  induction cs with
  | nil =>
      refine ⟨fun position => .nil, fun run position grown => ?_⟩
      exact .token grown.filled grown.kept .nil
  | cons c cs ih =>
      have fresh : ∀ position, p.Follow position (p.scan none position (c :: cs)) := by
        intro position
        rw [scan_none_cons]
        refine p.begin_follow position c (fun idle => ?_) fun run opened grown => ?_
        · rw [idle]
          exact ih.1 _
        · rw [opened]
          exact ih.2 run _ grown
      refine ⟨fresh, fun run position grown => ?_⟩
      cases more : p.continues run.kind c with
      | true =>
          rw [scan_some_cons more, coherent.advance_eq more]
          refine ih.2 { run with text := run.text.push c } _ ⟨by simp, ?_, ?_⟩
          · intro d mem
            rcases List.mem_append.mp (String.toList_push c ▸ mem) with before | new
            · exact grown.kept d before
            · rw [List.mem_singleton.mp new]
              exact coherent.keeps run.kind c more
          · simp [grown.behind, Position.advanceAll_append]
      | false =>
          -- the run closes, and the character starts afresh behind it
          rw [scan_close more]
          exact .token grown.filled grown.kept (grown.behind ▸ fresh position)

/-! ### Tokens at their indices -/

/-- Tokens of lexemes with their indices, the first lexeme at the given one. -/
def place (index : Nat) : List Lexeme → List (Nat × Token)
  | [] => []
  | .token t :: rest => (index, t) :: place (index + t.text.length) rest
  | .dropped _ _ :: rest => place (index + 1) rest

@[simp] theorem map_snd_place (lexemes : List Lexeme) :
    ∀ index, (place index lexemes).map Prod.snd = lexemes.filterMap Lexeme.token? := by
  induction lexemes with
  | nil => intro index; rfl
  | cons lexeme rest ih =>
      intro index
      cases lexeme with
      | token t => simp [place, Lexeme.token?, ih]
      | dropped c position => rw [place, ih, List.filterMap_cons_none rfl]

/-- **A token at an index of a source**: the source has its text there, its line is
one more than the number of line feeds before it, and its column one more than the
number of characters between the last of these and the token. -/
structure StandsAt (source : List Char) (index : Nat) (t : Token) : Prop where
  filled : t.text ≠ ""
  text : t.text.toList <+: source.drop index
  line : t.line = 1 + (source.take index).count '\n'
  column : t.column = 1 + Position.indent (source.take index)

/-- **Tokens at their indices**, in order and without overlap. -/
structure Tiles (source : List Char) (placed : List (Nat × Token)) : Prop where
  stands : ∀ x ∈ placed, StandsAt source x.1 x.2
  apart : placed.Pairwise fun x y => x.1 + x.2.text.length ≤ y.1

/-- Whether an index lies inside one of the tokens. -/
def Covers (placed : List (Nat × Token)) (i : Nat) : Prop :=
  ∃ x ∈ placed, x.1 ≤ i ∧ i < x.1 + x.2.text.length

/-- Tokens are placed from the given index on. -/
theorem le_of_mem_place {lexemes : List Lexeme} :
    ∀ {index : Nat}, ∀ x ∈ place index lexemes, index ≤ x.1 := by
  induction lexemes with
  | nil => intro index x mem; cases mem
  | cons lexeme rest ih =>
      intro index x mem
      cases lexeme with
      | token t =>
          rcases List.mem_cons.mp mem with rfl | later
          · exact Nat.le_refl _
          · exact Nat.le_trans (Nat.le_add_right _ _) (ih x later)
      | dropped c position => exact Nat.le_trans (Nat.le_add_right _ _) (ih x mem)

/-- Lexemes that follow each other tile their characters. -/
theorem Follow.tiles {position : Position} {lexemes : List Lexeme}
    (h : p.Follow position lexemes) :
    ∀ before, position = Position.start.advanceAll before →
      Tiles (before ++ lexemes.flatMap Lexeme.chars) (place before.length lexemes) := by
  induction h with
  | nil => intro before _; exact ⟨nofun, .nil⟩
  | @token type text position rest filled _ _ ih =>
      intro before here
      have others := ih (before ++ text.toList) (by rw [here, Position.advanceAll_append])
      rw [List.append_assoc, List.length_append, String.length_toList] at others
      refine ⟨List.forall_mem_cons.mpr ⟨?_, others.stands⟩,
        List.pairwise_cons.mpr ⟨?_, others.apart⟩⟩
      · rw [Position.advanceAll_start] at here
        subst here
        refine ⟨filled, ?_, ?_, ?_⟩
        · simp [Lexeme.chars, tokenAt]
        · simp [tokenAt]
        · simp [tokenAt]
      · exact fun x mem => le_of_mem_place x mem
  | @dropped c position rest _ _ ih =>
      intro before here
      have others := ih (before ++ [c])
        (by rw [here, Position.advanceAll_append, Position.advanceAll_cons,
          Position.advanceAll_nil])
      rw [List.append_assoc, List.length_append] at others
      exact others

/-- An index lies inside a token exactly if the character there is kept. -/
theorem Follow.covers_iff {position : Position} {lexemes : List Lexeme}
    (h : p.Follow position lexemes) :
    ∀ {index i : Nat} {c : Char}, index ≤ i →
      (lexemes.flatMap Lexeme.chars)[i - index]? = some c →
      (Covers (place index lexemes) i ↔ p.keeps c = true) := by
  induction h with
  | nil => intro index i c _ stands; cases stands
  | @token type text position rest _ kept _ ih =>
      intro index i c le stands
      change (text.toList ++ rest.flatMap Lexeme.chars)[i - index]? = some c at stands
      by_cases inside : i < index + text.length
      · -- the character belongs to this token, and all of these are kept
        rw [List.getElem?_append_left (by rw [String.length_toList]; omega)] at stands
        refine iff_of_true ⟨_, List.mem_cons_self, le, inside⟩ ?_
        exact kept c (List.mem_of_getElem? stands)
      · rw [List.getElem?_append_right (by rw [String.length_toList]; omega),
          String.length_toList, Nat.sub_sub] at stands
        rw [← ih (Nat.le_of_not_lt inside) stands]
        constructor
        · rintro ⟨x, mem, from', below⟩
          rcases List.mem_cons.mp mem with rfl | later
          · exact (inside below).elim
          · exact ⟨x, later, from', below⟩
        · rintro ⟨x, later, from', below⟩
          exact ⟨x, List.mem_cons_of_mem _ later, from', below⟩
  | @dropped d position rest lost _ ih =>
      intro index i c le stands
      rw [List.flatMap_cons, Lexeme.chars] at stands
      by_cases here : i = index
      · subst here
        rw [Nat.sub_self] at stands
        obtain rfl : d = c := by simpa using stands
        refine iff_of_false ?_ (by rw [lost]; exact Bool.false_ne_true)
        rintro ⟨x, mem, from', -⟩
        exact Nat.not_succ_le_self _ (Nat.le_trans (le_of_mem_place x mem) from')
      · rw [List.getElem?_append_right (by simp; omega), List.length_singleton, Nat.sub_sub]
          at stands
        exact ih (by omega) stands

/-! ### Sources -/

/-- **The tokens of a source tile it**, and the characters outside them are those of
no class. -/
theorem exists_tiles (coherent : p.Coherent) (source : String) :
    ∃ placed, p.tokens source = placed.map Prod.snd ∧ Tiles source.toList placed ∧
      ∀ i c, source.toList[i]? = some c → (Covers placed i ↔ p.keeps c = true) := by
  have follow : p.Follow .start (p.lexemes source) := (scan_follow coherent _).1 _
  have tiles := follow.tiles [] rfl
  have covers := fun i c => @Follow.covers_iff p _ _ follow 0 i c (Nat.zero_le i)
  rw [List.nil_append] at tiles
  simp only [flatMap_chars_lexemes, Nat.sub_zero] at tiles covers
  exact ⟨_, (map_snd_place _ _).symm, tiles, covers⟩

theorem canonical_coherent : canonical.Coherent where
  keeps := fun _ _ _ => Bool.or_true _
  feed := blank_of_feed (by decide) (by decide)

theorem standalone_keeps (c : Char) :
    standalone.keeps c = (Text.isBlank c || isWordLetter c || isDigit c ||
      punctuationChars.contains c) := by
  show ((if Text.isBlank c then some RunKind.blank else if isWordLetter c then some .word
    else if isDigit c then some .number else none).isSome || punctuationChars.contains c) = _
  cases Text.isBlank c <;> cases isWordLetter c <;> cases isDigit c <;> rfl

theorem standalone_coherent : standalone.Coherent where
  keeps := by
    intro kind c more
    rw [standalone_keeps]
    cases kind with
    | blank => rw [show Text.isBlank c = true from more]; rfl
    | word =>
        have member : (isWordLetter c || isDigit c) = true := more
        rw [Bool.or_assoc (Text.isBlank c), member, Bool.or_true]
        rfl
    | number =>
        have member : (isDigit c || isLetter c) = true := more
        have letter : isLetter c = true → isWordLetter c = true := fun h => by
          rw [isWordLetter, show c.isAlpha = true from h]
          rfl
        rcases Bool.or_eq_true_iff.mp member with digit | alpha
        · rw [digit, Bool.or_true]
          rfl
        · rw [letter alpha, Bool.or_true]
          rfl
  feed := blank_of_feed (by decide) (by decide)

/-- **Tokens tile the source with true positions.**  Tokenizing gives tokens that
stand in the source at certain indices, in order and without overlap, each with the
line and column of its first character.  Under the canonical profile every character
lies inside a token, so that the tokens make up the source; under the standalone
profile the characters outside them are, wherever they stand, those that are neither
blank nor start a word or a numeral nor are punctuation. -/
theorem tokenize_tiles {ε : Type} (debug : Bool) (source : String) :
    (∃ placed, (canonical.tokenize debug source : Traced ε (List Token)).outcome =
        .ok (placed.map Prod.snd) ∧
      Tiles source.toList placed ∧ (∀ i < source.length, Covers placed i) ∧
      Token.join (placed.map Prod.snd) = source) ∧
    ∃ placed, (standalone.tokenize debug source : Traced ε (List Token)).outcome =
        .ok (placed.map Prod.snd) ∧
      Tiles source.toList placed ∧
      ∀ i c, source.toList[i]? = some c →
        (¬ Covers placed i ↔ Text.isBlank c = false ∧ standalone.wordStart c = false ∧
          standalone.numberStart c = false ∧ standalone.punctuation c = false) := by
  constructor
  · obtain ⟨placed, same, tiles, covers⟩ := exists_tiles canonical_coherent source
    refine ⟨placed, by rw [outcome_tokenize, same], tiles, fun i inside => ?_, ?_⟩
    · rw [← String.length_toList] at inside
      exact (covers i _ (List.getElem?_eq_getElem inside)).mpr (Bool.or_true _)
    · rw [← same]
      exact join_tokens (fun _ => rfl) source
  · obtain ⟨placed, same, tiles, covers⟩ := exists_tiles standalone_coherent source
    refine ⟨placed, by rw [outcome_tokenize, same], tiles, fun i c stands => ?_⟩
    rw [covers i c stands, standalone_keeps, Bool.not_eq_true]
    simp only [Bool.or_eq_false_iff, and_assoc]
    rfl

end Profile

end GrammarKit
