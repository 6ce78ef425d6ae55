import GrammarKit.Calculator.Evaluation
import GrammarKit.Proofs.Adequacy
import GrammarKit.Proofs.Lockstep

/-!
# Blanks never change a parse

Where blanks are skipped and no terminal consumes until, a parse of some tokens
and a parse of the same tokens without the blanks go in lockstep.  An index of
the first list corresponds to the number of tokens before it that are not blank,
and taking the blank leaves out of the trees of one parse gives those of the
other.

## Main Definitions

* `Token.solid` — tokens without the blanks
* `Term.solid` — a term without its blank leaves, at every depth
* `Parser.solidLockstep` — the correspondence of the two parses

## Main Statements

* `Parser.parse_solid` — leaving out the blanks before a parse or after it comes
  to the same, faults and failures included

## Design Notes

Several indices correspond to one if blanks lie between them.  An index behind
blanks is the last of these, which is why comparisons with it carry over.
-/

namespace GrammarKit

/-- Tokens without the blanks. -/
def Token.solid (types : List String) (tokens : List Token) : List Token :=
  tokens.filter fun t => !t.isBlank types

namespace Tree

mutual

/-- What is left of a tree without its blank leaves. -/
def solid (types : List String) : Tree → List Tree
  | .leaf t => if t.isBlank types then [] else [.leaf t]
  | .node rule children failure => [.node rule (solidIn types children) failure]

/-- What is left of trees without their blank leaves. -/
def solidIn (types : List String) : List Tree → List Tree
  | [] => []
  | t :: rest => solid types t ++ solidIn types rest

end

theorem solidIn_append (types : List String) (ts us : List Tree) :
    solidIn types (ts ++ us) = solidIn types ts ++ solidIn types us := by
  induction ts with
  | nil => rfl
  | cons t rest ih => rw [List.cons_append, solidIn, solidIn, ih, List.append_assoc]

theorem solidIn_node (types : List String) (name : String) (children : List Tree)
    (failure : Option Failure) :
    solidIn types [.node name children failure] =
      [.node name (solidIn types children) failure] := by
  rw [solidIn, solid, solidIn, List.append_nil]

/-- Nothing is left of blanks. -/
theorem solidIn_blanks {types : List String} {blanks : List Token}
    (h : ∀ t ∈ blanks, t.isBlank types = true) : solidIn types (blanks.map leaf) = [] := by
  induction blanks with
  | nil => rfl
  | cons t rest ih =>
      rw [List.map_cons, solidIn, solid, if_pos (h t List.mem_cons_self),
        ih fun other mem => h other (List.mem_cons_of_mem t mem), List.append_nil]

theorem solidIn_leaf {types : List String} {t : Token} (h : t.isBlank types = false) :
    solidIn types [.leaf t] = [.leaf t] := by
  rw [solidIn, solid, if_neg (by rw [h]; exact Bool.false_ne_true), solidIn, List.append_nil]

end Tree

/-- A term without its blank leaves, at every depth. -/
def Term.solid (types : List String) (term : Term) : Term :=
  { term with children := Tree.solidIn types term.children }

namespace Parser

variable {p : Parser} {tokens : List Token}

/-! ### Indices -/

/-- Where no token is blank, there is nothing to skip. -/
theorem blanksAt_of_noBlank (noBlank : ∀ t ∈ tokens, t.isBlank p.blankTypes = false) (i : Nat) :
    p.blanksAt tokens i = [] := by
  unfold blanksAt
  split
  · cases hd : tokens.drop i with
    | nil => rfl
    | cons t rest =>
        have mem : t ∈ tokens := List.mem_of_mem_drop (by rw [hd]; exact List.mem_cons_self)
        rw [List.takeWhile_cons_of_neg (by rw [noBlank t mem]; exact Bool.false_ne_true)]
  · rfl

theorem afterBlanks_of_noBlank (noBlank : ∀ t ∈ tokens, t.isBlank p.blankTypes = false)
    (i : Nat) : p.afterBlanks tokens i = i := by
  rw [afterBlanks, blanksAt_of_noBlank noBlank]
  rfl

/-- How many tokens before an index are not blank. -/
def solidBefore (p : Parser) (tokens : List Token) (i : Nat) : Nat :=
  (Token.solid p.blankTypes (tokens.take i)).length

theorem noBlank_solid (types : List String) (tokens : List Token) :
    ∀ t ∈ Token.solid types tokens, t.isBlank types = false := by
  intro t mem
  simpa using (List.mem_filter.mp mem).2

/-- The tokens up to an index are followed by those from there on. -/
theorem solidBefore_add (p : Parser) (tokens : List Token) (i n : Nat) :
    p.solidBefore tokens (i + n) = p.solidBefore tokens i +
      (Token.solid p.blankTypes ((tokens.drop i).take n)).length := by
  simp only [solidBefore, Token.solid, List.take_add, List.filter_append, List.length_append]

theorem solidBefore_mono {i k : Nat} (le : i ≤ k) :
    p.solidBefore tokens i ≤ p.solidBefore tokens k := by
  rw [← Nat.add_sub_cancel' le, solidBefore_add]
  exact Nat.le_add_right _ _

/-- Skipping blanks passes no other token. -/
theorem solidBefore_afterBlanks (p : Parser) (tokens : List Token) (i : Nat) :
    p.solidBefore tokens (p.afterBlanks tokens i) = p.solidBefore tokens i := by
  have blanks : Token.solid p.blankTypes (p.blanksAt tokens i) = [] := by
    refine List.filter_eq_nil_iff.mpr fun t mem => ?_
    unfold blanksAt at mem
    split at mem
    · simp [List.all_eq_true.mp List.all_takeWhile t mem]
    · cases mem
  rw [afterBlanks, solidBefore_add, ← blanksAt_eq_take, blanks]
  rfl

/-- A token that is not blank is passed by the next index. -/
theorem solidBefore_succ {i : Nat} {t : Token} (stands : tokens[i]? = some t)
    (notBlank : t.isBlank p.blankTypes = false) :
    p.solidBefore tokens (i + 1) = p.solidBefore tokens i + 1 := by
  obtain ⟨inside, rfl⟩ := List.getElem?_eq_some_iff.mp stands
  rw [solidBefore_add, List.drop_eq_getElem_cons inside, List.take_succ_cons, List.take_zero,
    Token.solid, List.filter_cons_of_pos (by rw [notBlank]; rfl)]
  rfl

/-- It stands at the corresponding index. -/
theorem getElem?_solid {i : Nat} {t : Token} (stands : tokens[i]? = some t)
    (notBlank : t.isBlank p.blankTypes = false) :
    (Token.solid p.blankTypes tokens)[p.solidBefore tokens i]? = some t := by
  obtain ⟨inside, rfl⟩ := List.getElem?_eq_some_iff.mp stands
  have split : Token.solid p.blankTypes tokens =
      Token.solid p.blankTypes (tokens.take i) ++ Token.solid p.blankTypes (tokens.drop i) := by
    rw [Token.solid, Token.solid, Token.solid, ← List.filter_append, List.take_append_drop]
  have front : Token.solid p.blankTypes (tokens.drop i) =
      tokens[i] :: Token.solid p.blankTypes (tokens.drop (i + 1)) := by
    rw [List.drop_eq_getElem_cons inside, Token.solid,
      List.filter_cons_of_pos (by rw [notBlank]; rfl)]
    rfl
  rw [split, front, solidBefore, List.getElem?_append_right (Nat.le_refl _), Nat.sub_self]
  rfl

theorem solidBefore_length (p : Parser) (tokens : List Token) :
    p.solidBefore tokens tokens.length = (Token.solid p.blankTypes tokens).length := by
  rw [solidBefore, List.take_length]

/-! ### The correspondence -/

/-- An index and the number of tokens before it that are not blank. -/
def SolidHere (p : Parser) (tokens : List Token) (i j : Nat) : Prop :=
  i ≤ tokens.length ∧ j = p.solidBefore tokens i

theorem SolidHere.skip {i j : Nat} (h : p.SolidHere tokens i j) :
    p.SolidHere tokens (p.afterBlanks tokens i)
      (p.afterBlanks (Token.solid p.blankTypes tokens) j) := by
  obtain ⟨le, rfl⟩ := h
  have bound := @afterBlanks_le p tokens i
  have start := le_afterBlanks p tokens i
  refine ⟨by omega, ?_⟩
  rw [afterBlanks_of_noBlank (noBlank_solid _ _), solidBefore_afterBlanks]

/-- **An index behind blanks is before another one with and without blanks.**  The
token there is not blank, so it is counted before every later index. -/
theorem SolidHere.order {i j k l : Nat} (skips : p.skipBlanks = true)
    (here : p.SolidHere tokens i j) (there : p.SolidHere tokens k l) :
    p.afterBlanks tokens i < k ↔ p.afterBlanks (Token.solid p.blankTypes tokens) j < l := by
  obtain ⟨-, rfl⟩ := here
  obtain ⟨le, rfl⟩ := there
  rw [afterBlanks_of_noBlank (noBlank_solid _ _), ← solidBefore_afterBlanks p tokens i]
  constructor
  · intro before
    obtain ⟨t, stands⟩ : ∃ t, tokens[p.afterBlanks tokens i]? = some t :=
      ⟨_, List.getElem?_eq_getElem (by omega)⟩
    have passed := solidBefore_succ stands (not_isBlank_afterBlanks skips stands)
    have mono : p.solidBefore tokens (p.afterBlanks tokens i + 1) ≤ p.solidBefore tokens k :=
      solidBefore_mono before
    omega
  · intro fewer
    refine Nat.lt_of_not_le fun behind => ?_
    have mono := @solidBefore_mono p tokens _ _ behind
    omega

/-- Behind blanks stands the same token, or both lists are at an end. -/
theorem SolidHere.token {i j : Nat} (skips : p.skipBlanks = true)
    (here : p.SolidHere tokens i j) :
    (tokens[p.afterBlanks tokens i]? = none ∧
        (Token.solid p.blankTypes tokens)[
          p.afterBlanks (Token.solid p.blankTypes tokens) j]? = none) ∨
      ∃ t, tokens[p.afterBlanks tokens i]? = some t ∧
        (Token.solid p.blankTypes tokens)[
          p.afterBlanks (Token.solid p.blankTypes tokens) j]? = some t ∧
        p.SolidHere tokens (p.afterBlanks tokens i + 1)
          (p.afterBlanks (Token.solid p.blankTypes tokens) j + 1) := by
  obtain ⟨le, rfl⟩ := here
  rw [afterBlanks_of_noBlank (noBlank_solid _ _), ← solidBefore_afterBlanks p tokens i]
  cases stands : tokens[p.afterBlanks tokens i]? with
  | none =>
      have bound := @afterBlanks_le p tokens i
      have start := le_afterBlanks p tokens i
      have beyond := List.getElem?_eq_none_iff.mp stands
      have ended : p.afterBlanks tokens i = tokens.length := by omega
      refine Or.inl ⟨rfl, List.getElem?_eq_none_iff.mpr (Nat.le_of_eq ?_)⟩
      rw [ended, solidBefore_length]
  | some t =>
      have notBlank := not_isBlank_afterBlanks skips stands
      have inside := (List.getElem?_eq_some_iff.mp stands).1
      refine Or.inr ⟨t, rfl, getElem?_solid stands notBlank, inside, ?_⟩
      rw [solidBefore_succ stands notBlank]

/-- Nothing is left of skipped blanks. -/
theorem solidIn_blanksAt (p : Parser) (tokens : List Token) (i j : Nat) :
    Tree.solidIn p.blankTypes ((p.blanksAt tokens i).map Tree.leaf) =
      (p.blanksAt (Token.solid p.blankTypes tokens) j).map Tree.leaf := by
  rw [blanksAt_of_noBlank (noBlank_solid _ _)]
  refine Tree.solidIn_blanks fun t mem => ?_
  unfold blanksAt at mem
  split at mem
  · exact List.all_eq_true.mp List.all_takeWhile t mem
  · cases mem

/-- **With and without blanks a parse goes in lockstep.** -/
def solidLockstep (p : Parser) (tokens : List Token) (skips : p.skipBlanks = true)
    (untilFree : p.grammar.UntilFree) :
    Lockstep p p tokens (Token.solid p.blankTypes tokens) where
  Here := p.SolidHere tokens
  Like ts us := Tree.solidIn p.blankTypes ts = us
  grammar := rfl
  maxDepth := rfl
  untilFree := untilFree
  first := ⟨Nat.zero_le _, rfl⟩
  last := ⟨Nat.le_refl _, (solidBefore_length p tokens).symm⟩
  skip := SolidHere.skip
  blanks := fun _ => solidIn_blanksAt p tokens _ _
  order := SolidHere.order skips
  token := fun here => (SolidHere.token skips here).imp id fun ⟨t, stands, stands', behind⟩ =>
    ⟨t, t, stands, stands', fun _ _ _ => rfl,
      Tree.solidIn_leaf (not_isBlank_afterBlanks skips stands), behind⟩
  nil := rfl
  append := fun like like' => like ▸ like' ▸ Tree.solidIn_append _ _ _
  node := fun like => like ▸ Tree.solidIn_node _ _ _ _

/-- **Blanks never change a parse.**  Where blanks are skipped and no terminal
consumes until, a parse of tokens without their blanks has the same fault as the
parse of all tokens, or its term is that of the parse of all tokens without the
blank leaves; a failure is the same, with its token and what was expected. -/
theorem parse_solid (p : Parser) (tokens : List Token) (skips : p.skipBlanks = true)
    (untilFree : p.grammar.UntilFree) :
    (p.parse (Token.solid p.blankTypes tokens)).outcome =
      (p.parse tokens).outcome.map (Term.solid p.blankTypes) := by
  rcases (p.solidLockstep tokens skips untilFree).parse with
    ⟨f, faulty, faulty'⟩ | ⟨term, term', ok, ok', terms⟩
  · rw [faulty, faulty']
    rfl
  · rw [ok, ok']
    show Except.ok term' = Except.ok (Term.solid p.blankTypes term)
    congr 1
    cases terms with
    | @matched children _ like =>
        have same : Tree.solidIn p.blankTypes children = _ := like
        rw [Term.solid, same]
    | failed fronts =>
        cases fronts with
        | unreached => rfl
        | @reached i j terminals here =>
            have same : tokens[p.afterBlanks tokens i]? = (Token.solid p.blankTypes tokens)[
                p.afterBlanks (Token.solid p.blankTypes tokens) j]? := by
              rcases SolidHere.token skips here with ⟨ended, ended'⟩ | ⟨t, stands, stands', -⟩
              · rw [ended, ended']
              · rw [stands, stands']
            simp only [mismatchTerm, Frontier.index?, Option.bind_some, ← same]
            rfl

/-- A sum with blanks everywhere, under the calculator: the grammar is free of
consume-until terminals, and the tree of the solid tokens is the one without
blanks. -/
theorem parse_solid_sum :
    Calculator.language.parser.grammar.UntilFree ∧
      Token.solid Token.blankTypes (Profile.canonical.tokens " 1 + 2 ") ≠
        Profile.canonical.tokens " 1 + 2 " ∧
      (Calculator.language.parser.parse (Token.solid Token.blankTypes
          (Profile.canonical.tokens " 1 + 2 "))).outcome =
        (Calculator.language.parser.parse (Profile.canonical.tokens " 1 + 2 ")).outcome.map
          (Term.solid Token.blankTypes) := by
  have untilFree : Calculator.language.parser.grammar.UntilFree := by decide
  exact ⟨untilFree, by decide +kernel, parse_solid Calculator.language.parser _ rfl untilFree⟩

end Parser

end GrammarKit
