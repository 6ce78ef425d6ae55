import GrammarKit.Proofs.Conservation
import GrammarKit.Proofs.Passes
import GrammarKit.Query.Words
import GrammarKit.Token.Lexer

/-!
# Word building coarsens

A word builder never cuts a token: what it gives back is a **coarser** list, each
of whose tokens covers a block of the tokens before, with the text of the whole
block and the position of its first token.  A type changes only to that of a
word rule.  The passes end where nothing changes, so words are a fixed point.

## Main Definitions

* `Token.Covers` — a token that stands for a block of tokens
* `Coarsens` — a list cut into blocks, each covered by one token

## Main Statements

* `Coarsens.trans` — blocks of blocks are blocks
* `WordBuilder.coarsens_rebuildIn` — folding the words of trees coarsens their
  leaves
* `WordBuilder.coarsens_of_settle` — so do all passes, up to a fixed point
* `WordBuilder.build_coarsens` — word building coarsens, and its words stay

## Design Notes

Coarsening is a preorder that appending respects.  Both are needed: trees are
folded side by side, and passes follow one another.
-/

namespace GrammarKit

/-! ### Blocks -/

/-- **A token covers a block of tokens**: it has the text of them all and the
position of the first.  It is the block's only token, or has one of the types. -/
structure Token.Covers (types : List String) (t : Token) (block : List Token) : Prop where
  nonempty : block ≠ []
  text : t.text = Token.join block
  place : ∀ first, block.head? = some first → t.line = first.line ∧ t.column = first.column
  type : block = [t] ∨ t.type ∈ types

/-- **Consecutive blocks of the first list are covered by the tokens of the
second**, one block a token, in order. -/
inductive Coarsens (types : List String) : List Token → List Token → Prop where
  | nil : Coarsens types [] []
  | block {t : Token} {block rest words : List Token} :
      t.Covers types block → Coarsens types rest words →
      Coarsens types (block ++ rest) (t :: words)

theorem Token.join_append (u v : List Token) :
    Token.join (u ++ v) = Token.join u ++ Token.join v := by
  rw [Token.join, List.map_append, String.join_append]
  rfl

theorem Token.join_singleton (t : Token) : Token.join [t] = t.text := by
  simp [Token.join]

/-- A token covers itself. -/
theorem Token.covers_self (types : List String) (t : Token) : t.Covers types [t] where
  nonempty := List.cons_ne_nil _ _
  text := (Token.join_singleton t).symm
  place := by
    intro first same
    cases same
    exact ⟨rfl, rfl⟩
  type := Or.inl rfl

namespace Coarsens

variable {types : List String} {u v w u' v' : List Token}

theorem refl (types : List String) (w : List Token) : Coarsens types w w := by
  induction w with
  | nil => exact .nil
  | cons t rest ih => exact .block (Token.covers_self types t) ih

theorem single {t : Token} (h : t.Covers types u) : Coarsens types u [t] := by
  have one := Coarsens.block h .nil
  rwa [List.append_nil] at one

theorem append (first : Coarsens types u u') (second : Coarsens types v v') :
    Coarsens types (u ++ v) (u' ++ v') := by
  induction first with
  | nil => exact second
  | block covers _ ih =>
      rw [List.append_assoc]
      exact .block covers ih

/-- What is covered by two lists, one behind the other, has a part for each. -/
theorem of_append (h : Coarsens types w (u ++ v)) :
    ∃ front back, w = front ++ back ∧ Coarsens types front u ∧ Coarsens types back v := by
  induction u generalizing w with
  | nil => exact ⟨[], w, rfl, .nil, h⟩
  | cons t rest ih =>
      cases h with
      | @block _ block _ _ covers others =>
          obtain ⟨front, back, rfl, left, right⟩ := ih others
          exact ⟨block ++ front, back, (List.append_assoc _ _ _).symm, .block covers left, right⟩

/-- **The text stays the same.** -/
theorem join_eq (h : Coarsens types u v) : Token.join v = Token.join u := by
  induction h with
  | nil => rfl
  | @block t block rest words covers _ ih =>
      have cons : Token.join (t :: words) = Token.join [t] ++ Token.join words :=
        Token.join_append [t] words
      rw [cons, Token.join_append, Token.join_singleton, covers.text, ih]

/-- A coarser list is no longer. -/
theorem length_le (h : Coarsens types u v) : v.length ≤ u.length := by
  induction h with
  | nil => exact Nat.le_refl _
  | @block t block rest words covers _ ih =>
      have pos := List.length_pos_iff.mpr covers.nonempty
      rw [List.length_append, List.length_cons]
      omega

theorem eq_nil_iff (h : Coarsens types u v) : u = [] ↔ v = [] := by
  cases h with
  | nil => exact Iff.rfl
  | block covers _ => simp [covers.nonempty]

/-- The first tokens stand at one place. -/
theorem head_place (h : Coarsens types u v) {first last : Token} (front : u.head? = some first)
    (covered : v.head? = some last) : last.line = first.line ∧ last.column = first.column := by
  cases h with
  | nil => cases front
  | @block t block rest words covers _ =>
      cases covered
      obtain ⟨other, others, rfl⟩ := List.exists_cons_of_ne_nil covers.nonempty
      exact covers.place first front

end Coarsens

/-- **A token that covers blocks covers what they cover.** -/
theorem Token.Covers.trans {types : List String} {t : Token} {u v : List Token}
    (h : Coarsens types u v) (covers : t.Covers types v) : t.Covers types u where
  nonempty := fun empty => covers.nonempty (h.eq_nil_iff.mp empty)
  text := covers.text.trans h.join_eq
  place := by
    intro first front
    obtain ⟨second, rest, rfl⟩ := List.exists_cons_of_ne_nil covers.nonempty
    have here := h.head_place front rfl
    have there := covers.place second rfl
    exact ⟨there.1.trans here.1, there.2.trans here.2⟩
  type := by
    rcases covers.type with rfl | typed
    · -- the token itself was left as it was, so the first step decides
      cases h with
      | block first rest =>
          cases rest with
          | nil =>
              rw [List.append_nil]
              exact first.type
    · exact Or.inr typed

/-- **Blocks of blocks are blocks.** -/
theorem Coarsens.trans {types : List String} {u v w : List Token} (first : Coarsens types u v)
    (second : Coarsens types v w) : Coarsens types u w := by
  induction second generalizing u with
  | nil => exact first
  | block covers _ ih =>
      obtain ⟨front, back, rfl, left, right⟩ := first.of_append
      exact .block (covers.trans left) (ih right)

namespace WordBuilder

variable {b : WordBuilder} {tokens words : List Token}

/-- The token types that words become. -/
def targetTypes (b : WordBuilder) : List String :=
  b.wordTypes.map Prod.snd

/-! ### Trees -/

/-- What is looked up in a table is among its values. -/
theorem mem_values_of_lookup {types : List (String × String)} {name type : String}
    (h : types.lookup name = some type) : type ∈ types.map Prod.snd := by
  obtain ⟨before, after, rfl, -⟩ := List.lookup_eq_some_iff.mp h
  simp

/-- A folded word covers its leaves; without leaves there is nothing to cover. -/
theorem coarsens_fold? {types : List String} {type : String} (mem : type ∈ types)
    (leaves : List Token) : Coarsens types leaves (fold? type leaves).toList := by
  cases leaves with
  | nil => exact .nil
  | cons first rest =>
      refine .single ⟨List.cons_ne_nil _ _, rfl, ?_, Or.inr mem⟩
      intro other same
      cases same
      exact ⟨rfl, rfl⟩

mutual

/-- Folding the words of a tree coarsens its leaves. -/
theorem coarsens_rebuild (b : WordBuilder) :
    ∀ t : Tree, Coarsens b.targetTypes t.tokens (b.rebuild t)
  | .leaf t => Coarsens.refl _ [t]
  | .node rule children failure => by
      rw [Tree.tokens, rebuild]
      split
      · rename_i type word
        exact coarsens_fold? (mem_values_of_lookup word) _
      · exact coarsens_rebuildIn b children

/-- **Folding the words of trees coarsens their leaves.** -/
theorem coarsens_rebuildIn (b : WordBuilder) :
    ∀ ts : List Tree, Coarsens b.targetTypes (Tree.tokensIn ts) (b.rebuildIn ts)
  | [] => Coarsens.nil
  | t :: rest => by
      rw [Tree.tokensIn, rebuildIn]
      exact (coarsens_rebuild b t).append (coarsens_rebuildIn b rest)

end

/-! ### Passes -/

/-- One pass coarsens: its term spans all tokens. -/
theorem coarsens_of_pass (h : (b.pass tokens).outcome = .ok words) :
    Coarsens b.targetTypes tokens words := by
  cases parsed : (b.parser.parse tokens).outcome with
  | error f =>
      rw [pass, Traced.outcome_bind, Traced.outcome_mapError, parsed] at h
      cases h
  | ok term =>
      rw [outcome_pass parsed] at h
      split at h
      · rename_i isOk
        cases h
        have folded := b.coarsens_rebuildIn term.children
        have leaves : Tree.tokensIn term.children = tokens :=
          ((Parser.spans_of_parse parsed).1 isOk).tokens_eq
        rwa [leaves] at folded
      · cases h

/-- **All passes coarsen, up to a fixed point.** -/
theorem coarsens_of_settle {limit : Int} :
    ∀ (left number : Nat) (tokens : List Token) {words : List Token},
      (b.settle limit left number tokens).outcome = .ok words →
      Coarsens b.targetTypes tokens words ∧ (b.pass words).outcome = .ok words := by
  intro left
  induction left with
  | zero =>
      intro number tokens words h
      cases h
  | succ left ih =>
      intro number tokens words h
      rw [settle, Traced.outcome_bind_eq_ok] at h
      obtain ⟨next, passed, h⟩ := h
      rw [Traced.outcome_bind_eq_ok] at h
      obtain ⟨-, -, h⟩ := h
      split at h
      · rename_i same
        cases h
        rw [same] at passed
        exact ⟨.refl _ _, passed⟩
      · obtain ⟨coarser, fixed⟩ := ih (number + 1) next h
        exact ⟨(coarsens_of_pass passed).trans coarser, fixed⟩

/-- A pass that changes nothing is the last, if there is one at all. -/
theorem settle_of_fixed {limit : Int} {left number : Nat}
    (fixed : (b.pass words).outcome = .ok words) :
    (b.settle limit (left + 1) number words).outcome = .ok words := by
  rw [settle, Traced.outcome_bind_eq_ok]
  refine ⟨words, fixed, ?_⟩
  rw [Traced.outcome_bind_eq_ok]
  exact ⟨(), rfl, by rw [if_pos rfl]; rfl⟩

/-- Word building is settling, with the blanks left out unless they are asked for. -/
theorem outcome_build (b : WordBuilder) (tokens : List Token) (raw : Bool) :
    (b.build tokens raw).outcome =
      (b.settle (b.limit tokens) (b.limit tokens).toNat 1 tokens).outcome.map fun words =>
        if raw then words else words.filter fun t => !t.isBlank b.blankTypes := by
  rw [build, Traced.outcome_bind]
  cases (b.settle (b.limit tokens) (b.limit tokens).toNat 1 tokens).outcome <;> rfl

/-- Words that were built can be built again: the limit left room for a pass. -/
theorem limit_pos_of_settle {other : List Token}
    (h : (b.settle (b.limit tokens) (b.limit tokens).toNat 1 tokens).outcome = .ok words) :
    0 < (b.limit other).toNat := by
  have room : 0 < (b.limit tokens).toNat := by
    refine Nat.pos_of_ne_zero fun none => ?_
    rw [none] at h
    cases h
  unfold limit at *
  cases hmax : b.maxPasses with
  | none =>
      rw [Option.getD_none]
      omega
  | some passes =>
      rw [hmax, Option.getD_some] at room
      rwa [Option.getD_some]

/-! ### Word rules and their types -/

/-- What a list is mapped to comes from its members. -/
private theorem exists_of_mapM_eq_ok {ε α β : Type} {f : α → Except ε β} {y : β} :
    ∀ {xs : List α} {ys : List β}, xs.mapM f = .ok ys → y ∈ ys → ∃ x ∈ xs, f x = .ok y := by
  intro xs
  induction xs with
  | nil =>
      intro ys h mem
      cases h
      cases mem
  | cons x rest ih =>
      intro ys h mem
      rw [List.mapM_cons] at h
      cases first : f x with
      | error e =>
          rw [first] at h
          cases h
      | ok z =>
          cases others : rest.mapM f with
          | error e =>
              rw [first, others] at h
              cases h
          | ok more =>
              rw [first, others] at h
              cases h
              rcases List.mem_cons.mp mem with rfl | later
              · exact ⟨x, List.mem_cons_self, first⟩
              · obtain ⟨other, isOther, same⟩ := ih others later
                exact ⟨other, List.mem_cons_of_mem x isOther, same⟩

/-- The token types of a word builder are among those that it was given. -/
theorem targetTypes_subset {types : List (String × String)} {wordRules : Option (List String)}
    (declared : wordTypesOf b.grammar types wordRules = .ok b.wordTypes) :
    ∀ type ∈ b.targetTypes, type ∈ types.map Prod.snd := by
  intro type mem
  obtain ⟨pair, isPair, rfl⟩ := List.mem_map.mp mem
  obtain ⟨name, -, typed⟩ := exists_of_mapM_eq_ok declared isPair
  unfold typeOf at typed
  split at typed
  · split at typed
    · rename_i type found
      cases typed
      exact mem_values_of_lookup found
    · cases typed
  · cases typed

/-- **Word building only coarsens the tokens and ends at a fixed point.**  Each word
covers a block of the tokens; so the text stays the same, and there are no more
words than tokens.  The types of folded words are among those that the builder was
given.  Building the words again gives them back, and without the blanks the
result is the words that are not blank. -/
theorem build_coarsens (b : WordBuilder) (tokens words : List Token)
    (h : (b.build tokens true).outcome = .ok words) :
    Coarsens b.targetTypes tokens words ∧
      (∀ types wordRules, wordTypesOf b.grammar types wordRules = .ok b.wordTypes →
        ∀ type ∈ b.targetTypes, type ∈ types.map Prod.snd) ∧
      Token.join words = Token.join tokens ∧ words.length ≤ tokens.length ∧
      (b.build words true).outcome = .ok words ∧
      (b.build tokens false).outcome = .ok (words.filter fun t => !t.isBlank b.blankTypes) := by
  rw [outcome_build] at h
  cases settled : (b.settle (b.limit tokens) (b.limit tokens).toNat 1 tokens).outcome with
  | error e =>
      rw [settled] at h
      cases h
  | ok found =>
      obtain rfl : found = words := by simpa [settled, Except.map] using h
      obtain ⟨coarser, fixed⟩ := coarsens_of_settle _ _ _ settled
      refine ⟨coarser, fun types wordRules declared => targetTypes_subset declared,
        coarser.join_eq, coarser.length_le, ?_, ?_⟩
      · obtain ⟨left, room⟩ := Nat.exists_eq_succ_of_ne_zero
          (Nat.pos_iff_ne_zero.mp (limit_pos_of_settle settled))
        rw [outcome_build, room, settle_of_fixed fixed]
        rfl
      · rw [outcome_build, settled]
        rfl

/-- A placeholder with a path and a signed fraction are each folded over two passes:
twelve tokens are coarsened to five words, which stay as they are. -/
theorem build_coarsens_path :
    ∃ words, (Query.words.build (Profile.standalone.tokens ":a.b <= -1.5") true).outcome =
        .ok words ∧
      words.map Token.text = [":a.b", " ", "<=", " ", "-1.5"] ∧
      Coarsens Query.words.targetTypes (Profile.standalone.tokens ":a.b <= -1.5") words ∧
      (Query.words.build words true).outcome = .ok words := by
  have texts : (Query.words.build (Profile.standalone.tokens ":a.b <= -1.5")
      true).outcome.toOption.map (fun words => words.map Token.text) =
        some [":a.b", " ", "<=", " ", "-1.5"] := by
    decide +kernel
  cases built : (Query.words.build (Profile.standalone.tokens ":a.b <= -1.5") true).outcome with
  | error e => simp [built, Except.toOption] at texts
  | ok words =>
      obtain ⟨coarser, -, -, -, again, -⟩ := build_coarsens _ _ _ built
      exact ⟨words, rfl, by simpa [built, Except.toOption] using texts, coarser, again⟩

end WordBuilder

end GrammarKit
