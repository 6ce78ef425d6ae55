import GrammarKit.Proofs.Lexing

/-!
# The lexer computes maximal munch

The lexer goes through a source character by character, with at most one open run,
and knows that a run has ended only when it meets a character that does not belong
to it.  A **reference scanner** has no state: at each character it takes the longest
run that the character starts, all at once, and goes on behind it.  Both give tokens
of the same types and texts.

## Main Definitions

* `Token.lexical` — the type and the text of a token
* `Profile.maximalMunch` — the reference scanner

## Main Statements

* `Profile.map_lexical_opened`, `Profile.tokensFrom_dropped` — what the lexer makes of
  the first characters of a source
* `Profile.map_lexical_tokensFrom` — from any position on, the lexer and the reference
  scanner give the same
* `Profile.tokenize_maximalMunch` — so they do for every source and profile

## Design Notes

The reference scanner does not speak about kinds of runs.  It names the classes of a
profile one by one, in the order in which they are tried, so that it can be read
without the lexer.
-/

namespace GrammarKit

/-- The type and the text of a token, without its position. -/
def Token.lexical (t : Token) : String × String := (t.type, t.text)

namespace Profile

variable {p : Profile}

/-- **The reference scanner.**  A blank takes the longest run of blanks behind it, a
character that starts a word or a numeral the longest run of those that continue it,
and punctuation stands by itself; any other character is skipped. -/
def maximalMunch (p : Profile) : List Char → List (String × String)
  | [] => []
  | c :: cs =>
      if Text.isBlank c then
        ("WS", String.ofList (c :: cs.takeWhile Text.isBlank)) ::
          maximalMunch p (cs.dropWhile Text.isBlank)
      else if p.wordStart c then
        ("IDENT", String.ofList (c :: cs.takeWhile p.wordContinue)) ::
          maximalMunch p (cs.dropWhile p.wordContinue)
      else if p.numberStart c then
        ("NUMLIT", String.ofList (c :: cs.takeWhile p.numberContinue)) ::
          maximalMunch p (cs.dropWhile p.numberContinue)
      else if p.punctuation c then
        ("PUNCT", String.singleton c) :: maximalMunch p cs
      else maximalMunch p cs
termination_by cs => cs.length
decreasing_by
  · exact Nat.lt_succ_of_le (List.dropWhile_suffix _).length_le
  · exact Nat.lt_succ_of_le (List.dropWhile_suffix _).length_le
  · exact Nat.lt_succ_of_le (List.dropWhile_suffix _).length_le
  · exact Nat.lt_succ_self _
  · exact Nat.lt_succ_self _

/-! ### The first characters of a source -/

/-- **A character that opens a run takes the longest run behind it**, and the rest of
the tokens are those of the characters behind that. -/
theorem map_lexical_opened {kind : RunKind} {c : Char} {cs : List Char}
    {rest : List (String × String)} (opens : p.opens? c = some kind)
    (behind : ∀ position,
      (p.tokensFrom position (cs.dropWhile (p.continues kind))).map Token.lexical = rest)
    (position : Position) :
    (p.tokensFrom position (c :: cs)).map Token.lexical =
      (kind.tokenType, String.ofList (c :: cs.takeWhile (p.continues kind))) :: rest := by
  have run : p.RunChars kind (c :: cs.takeWhile (p.continues kind)) :=
    ⟨c, _, rfl, opens, fun d mem => List.all_eq_true.mp List.all_takeWhile d mem⟩
  have ends : ∀ d, (cs.dropWhile (p.continues kind)).head? = some d →
      p.continues kind d = false := by
    intro d first
    have stops := List.head?_dropWhile_not (p.continues kind) cs
    rwa [first] at stops
  have munched := tokensFrom_run run ends position
  rw [List.cons_append, List.takeWhile_append_dropWhile] at munched
  rw [munched, List.map_cons, behind]
  rfl

/-- A character of no class leaves no token. -/
theorem tokensFrom_dropped {c : Char} (closed : p.opens? c = none)
    (other : p.punctuation c = false) (position : Position) (cs : List Char) :
    p.tokensFrom position (c :: cs) = p.tokensFrom (position.advance c) cs := by
  have lost : p.begin position c = ([.dropped c position], none) := by
    rw [begin, closed]
    exact if_neg (by rw [other]; exact Bool.false_ne_true)
  rw [tokensFrom, scan_none_cons, lost]
  rfl

/-! ### Whole sources -/

/-- **From any position on, the lexer and the reference scanner give the same.**  The
induction is on the recursion of the reference scanner, which is behind a run where
the lexer has just closed it. -/
theorem map_lexical_tokensFrom (p : Profile) (cs : List Char) :
    ∀ position, (p.tokensFrom position cs).map Token.lexical = p.maximalMunch cs := by
  fun_induction maximalMunch p cs with
  | case1 => intro position; rfl
  | case2 c cs blank ih =>
      have opens : p.opens? c = some .blank := by simp [opens?, blank]
      exact map_lexical_opened opens ih
  | case3 c cs solid word ih =>
      have opens : p.opens? c = some .word := by simp [opens?, solid, word]
      exact map_lexical_opened opens ih
  | case4 c cs solid noWord number ih =>
      have opens : p.opens? c = some .number := by simp [opens?, solid, noWord, number]
      exact map_lexical_opened opens ih
  | case5 c cs solid noWord noNumber punctuation ih =>
      intro position
      have closed : p.opens? c = none := by simp [opens?, solid, noWord, noNumber]
      rw [tokensFrom_punctuation closed punctuation, List.map_cons]
      exact congrArg _ (ih (position.advance c))
  | case6 c cs solid noWord noNumber other ih =>
      intro position
      have closed : p.opens? c = none := by simp [opens?, solid, noWord, noNumber]
      rw [tokensFrom_dropped closed (Bool.eq_false_iff.mpr other)]
      exact ih (position.advance c)

/-- **The lexer computes maximal munch.**  Tokenizing always has a result, and the types
and texts of its tokens are those of the reference scanner, for every profile and every
source.  Under the canonical profile any character is punctuation, so that none is
skipped. -/
theorem tokenize_maximalMunch :
    (∀ (ε : Type) (p : Profile) (debug : Bool) (source : String),
      ∃ tokens, (p.tokenize debug source : Traced ε (List Token)).outcome = .ok tokens ∧
        tokens.map Token.lexical = p.maximalMunch source.toList) ∧
    ∀ c, canonical.punctuation c = true := by
  refine ⟨fun ε p debug source => ?_, fun _ => rfl⟩
  exact ⟨_, p.outcome_tokenize debug source, p.map_lexical_tokensFrom source.toList .start⟩

/-- A run that is closed by a character of no class. -/
example : (standalone.tokens "x9é7z").map Token.lexical = [("IDENT", "x9"), ("NUMLIT", "7z")] := by
  decide

end Profile

end GrammarKit
