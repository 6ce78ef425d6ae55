import GrammarKit.WordBuilder

/-!
# The passes of a word builder

A word builder makes passes until one changes nothing, up to a limit.  It
**settles** within the limit if every pass that changes something lowers a
measure: the number of changes is then at most the measure of the tokens it
began with.

## Main Definitions

* `WordBuilder.Progresses` — passes that keep an invariant and lower a measure
* `WordBuilder.Settles` — a fixed point of the passes, or an error

## Main Statements

* `WordBuilder.settle_of_measure` — passes that lower a measure reach a fixed
  point, or fail in a pass
* `WordBuilder.build_of_measure` — so does word building with the default limit
* `WordBuilder.rebuildIn_word` — a word is folded into one token

## Design Notes

The invariant that the passes keep, the measure and the errors that a pass may
end in are parameters; what a pass of a particular grammar does is settled where
the grammar is known.
-/

namespace GrammarKit.WordBuilder

variable {b : WordBuilder} {tokens : List Token}

/-! ### Folding -/

/-- Trees are folded one by one. -/
theorem rebuildIn_append (b : WordBuilder) (ts us : List Tree) :
    b.rebuildIn (ts ++ us) = b.rebuildIn ts ++ b.rebuildIn us := by
  induction ts with
  | nil => rw [List.nil_append, rebuildIn, List.nil_append]
  | cons t rest ih => rw [List.cons_append, rebuildIn, rebuildIn, ih, List.append_assoc]

/-- A token outside any word is kept. -/
theorem rebuildIn_leaf (b : WordBuilder) (t : Token) : b.rebuildIn [.leaf t] = [t] := by
  rw [rebuildIn, rebuild, rebuildIn, List.append_nil]

/-- **A word is folded into one token** with the type of its rule, the text of all
its leaves and the position of the first. -/
theorem rebuildIn_word {name type : String} {children : List Tree} {failure : Option Failure}
    {first : Token} {rest : List Token} (word : b.wordTypes.lookup name = some type)
    (leaves : Tree.tokensIn children = first :: rest) :
    b.rebuildIn [.node name children failure] =
      [⟨type, Token.join (first :: rest), first.line, first.column⟩] := by
  rw [rebuildIn, rebuild, word, rebuildIn, List.append_nil, leaves]
  rfl

/-! ### One pass -/

/-- A pass folds the term of its parse if the term is ok, and fails otherwise. -/
theorem outcome_pass {term : Term} (h : (b.parser.parse tokens).outcome = .ok term) :
    (b.pass tokens).outcome =
      if term.ok = true then .ok (b.rebuildIn term.children) else .error (.failed term) := by
  rw [pass, Traced.outcome_bind, Traced.outcome_mapError, h]
  show (if term.ok = true then pure _ else Traced.fail _ : Traced Error (List Token)).outcome = _
  split <;> rfl

/-! ### All passes -/

/-- Every pass over tokens that keep an invariant keeps it too, and changes nothing
or lowers a measure, unless it ends in an error that is allowed. -/
def Progresses (b : WordBuilder) (Inv : List Token → Prop) (Failed : Error → Prop)
    (measure : List Token → Nat) : Prop :=
  ∀ tokens, Inv tokens →
    (∃ next, (b.pass tokens).outcome = .ok next ∧ Inv next ∧
      (next = tokens ∨ measure next < measure tokens)) ∨
    ∃ e, (b.pass tokens).outcome = .error e ∧ Failed e

/-- What passes come to: a fixed point that keeps the invariant, or an error that
a pass ended in. -/
def Settles (b : WordBuilder) (Inv : List Token → Prop) (Failed : Error → Prop) :
    Except Error (List Token) → Prop
  | .ok words => Inv words ∧ (b.pass words).outcome = .ok words
  | .error e => Failed e

/-- **Passes that lower a measure settle** within more passes than the measure. -/
theorem settle_of_measure {Inv : List Token → Prop} {Failed : Error → Prop}
    {measure : List Token → Nat} (passes : b.Progresses Inv Failed measure) (limit : Int) :
    ∀ (left number : Nat) (tokens : List Token), Inv tokens → measure tokens < left →
      b.Settles Inv Failed (b.settle limit left number tokens).outcome := by
  intro left
  induction left with
  | zero => intro number tokens _ room; omega
  | succ left ih =>
      intro number tokens inv room
      rw [settle, Traced.outcome_bind]
      rcases passes tokens inv with ⟨next, ok, invNext, progress⟩ | ⟨e, failed, allowed⟩
      · rw [ok]
        show b.Settles Inv Failed (Traced.note _ _ >>= fun _ => _).outcome
        rw [Traced.outcome_bind, Traced.outcome_note]
        show b.Settles Inv Failed
          (if next = tokens then pure tokens else b.settle limit left (number + 1) next).outcome
        by_cases same : next = tokens
        · rw [if_pos same]
          rw [same] at ok
          exact ⟨inv, ok⟩
        · rw [if_neg same]
          rcases progress with unchanged | lower
          · exact (same unchanged).elim
          · exact ih (number + 1) next invNext (by omega)
      · rw [failed]
        exact allowed

/-- **Word building settles** if the measure of the tokens is within the default
limit; leaving out the blanks afterwards adds no token. -/
theorem build_of_measure {Inv : List Token → Prop} {Failed : Error → Prop}
    {measure : List Token → Nat} (passes : b.Progresses Inv Failed measure)
    (unlimited : b.maxPasses = none) (inv : Inv tokens)
    (room : measure tokens < 2 * tokens.length + 2) (raw : Bool) :
    (∃ words result, Inv words ∧ (b.pass words).outcome = .ok words ∧
      (b.build tokens raw).outcome = .ok result ∧
      result = if raw then words else words.filter fun t => !t.isBlank b.blankTypes) ∨
    ∃ e, (b.build tokens raw).outcome = .error e ∧ Failed e := by
  have levels : (b.limit tokens).toNat = 2 * tokens.length + 2 := by
    rw [limit, unlimited, Option.getD_none]
    omega
  have settles := settle_of_measure passes (b.limit tokens) (b.limit tokens).toNat 1
    tokens inv (by omega)
  rw [build, Traced.outcome_bind]
  cases hsettle : (b.settle (b.limit tokens) (b.limit tokens).toNat 1 tokens).outcome with
  | error e =>
      rw [hsettle] at settles
      exact Or.inr ⟨e, rfl, settles⟩
  | ok words =>
      rw [hsettle] at settles
      exact Or.inl ⟨words, _, settles.1, settles.2, rfl, rfl⟩

end GrammarKit.WordBuilder
