import GrammarKit.Proofs.Lockstep
import GrammarKit.Query.Projection
import Mathlib.Data.List.Forall2

/-!
# Parsing sees classes of tokens

A terminal looks at the type of a token or at its text in upper case, and a blank
is known by its type.  So tokens may be replaced by others of the same **class**,
with any line and column and with letters in either case: the answer is the same
one, with the same replacements made in it.

## Main Definitions

* `Token.SameClass` — tokens with the same type and the same text in upper case
* `Term.map` — a term with every token replaced, that of its failure included
* `Token.standing` — the token of a list that a marker stands for

## Main Statements

* `Parser.parse_map` — replacing tokens by others of their class before a parse or
  after it comes to the same
* `Parser.parse_of_sameClass` — all lists of the same classes have one draft of an
  answer, in which markers stand for the tokens

## Design Notes

Equal tokens at different indices cannot be told apart in an answer, so "the token
at the same index" is not a relation between two answers.  A draft has a marker for
each index instead, and an answer is the draft with the tokens of its list put in.
That holds whatever token is put in for a marker without an index, so there is no
such marker.  The draft comes from a parse of the markers themselves.
-/

namespace GrammarKit

/-! ### Tokens replaced -/

/-- Tokens with the same type and the same text in upper case. -/
def Token.SameClass (a b : Token) : Prop :=
  a.type = b.type ∧ Text.upper a.text = Text.upper b.text

instance (a b : Token) : Decidable (a.SameClass b) :=
  inferInstanceAs (Decidable (_ ∧ _))

/-- A failure with its token replaced. -/
def Failure.map (f : Token → Token) (failure : Failure) : Failure :=
  { failure with token? := failure.token?.map f }

namespace Tree

mutual

/-- A tree with every token replaced. -/
def map (f : Token → Token) : Tree → Tree
  | .leaf t => .leaf (f t)
  | .node rule children failure => .node rule (mapIn f children) (failure.map (Failure.map f))

/-- Trees with every token replaced. -/
def mapIn (f : Token → Token) : List Tree → List Tree
  | [] => []
  | t :: rest => map f t :: mapIn f rest

end

theorem mapIn_append (f : Token → Token) (ts us : List Tree) :
    mapIn f (ts ++ us) = mapIn f ts ++ mapIn f us := by
  induction ts with
  | nil => rfl
  | cons t rest ih => rw [List.cons_append, mapIn, mapIn, ih, List.cons_append]

theorem mapIn_leaves (f : Token → Token) (tokens : List Token) :
    mapIn f (tokens.map leaf) = (tokens.map f).map leaf := by
  induction tokens with
  | nil => rfl
  | cons t rest ih => rw [List.map_cons, mapIn, ih]; rfl

end Tree

/-- A term with every token replaced, that of its failure included. -/
def Term.map (f : Token → Token) (term : Term) : Term :=
  ⟨term.rule, Tree.mapIn f term.children, term.failure.map (Failure.map f)⟩

/-! ### What a token is asked -/

namespace Token.SameClass

variable {a b : Token}

theorem refl (a : Token) : a.SameClass a := ⟨rfl, rfl⟩

/-- No terminal can tell tokens of one class apart. -/
theorem accepts_eq (h : a.SameClass b) (t : Terminal) : t.accepts b = t.accepts a := by
  obtain ⟨type, text⟩ := h
  unfold Terminal.accepts Terminal.valueOf
  cases t.kind with
  | literal => simp only [text]
  | tokenType => simp only [type]

theorem isBlank_eq (h : a.SameClass b) (types : List String) :
    b.isBlank types = a.isBlank types := by
  unfold Token.isBlank
  rw [h.1]

end Token.SameClass

namespace Parser

variable {p : Parser} {ts : List Token} {f : Token → Token}

/-- A run of replaced elements is the run of the elements, replaced. -/
theorem takeWhile_map_of_mem {α β : Type} {f : α → β} {old : α → Bool} {new : β → Bool}
    {l : List α} (same : ∀ a ∈ l, new (f a) = old a) :
    (l.map f).takeWhile new = (l.takeWhile old).map f := by
  induction l with
  | nil => rfl
  | cons a rest ih =>
      have others := ih fun b mem => same b (List.mem_cons_of_mem a mem)
      rw [List.map_cons, List.takeWhile_cons, List.takeWhile_cons, same a List.mem_cons_self]
      split
      · rw [List.map_cons, others]
      · rfl

/-- The same blanks are skipped. -/
theorem blanksAt_map (same : ∀ t ∈ ts, t.SameClass (f t)) (i : Nat) :
    p.blanksAt (ts.map f) i = (p.blanksAt ts i).map f := by
  unfold blanksAt
  split
  · rw [← List.map_drop]
    exact takeWhile_map_of_mem fun t mem =>
      (same t (List.mem_of_mem_drop mem)).isBlank_eq p.blankTypes
  · rfl

theorem afterBlanks_map (same : ∀ t ∈ ts, t.SameClass (f t)) (i : Nat) :
    p.afterBlanks (ts.map f) i = p.afterBlanks ts i := by
  rw [afterBlanks, blanksAt_map same, List.length_map, afterBlanks]

/-- A search passes the same tokens. -/
theorem passed_map (same : ∀ t ∈ ts, t.SameClass (f t)) (t : Terminal) (i : Nat) :
    passed (ts.map f) t i = (passed ts t i).map f := by
  unfold passed
  rw [← List.map_drop]
  refine takeWhile_map_of_mem fun token mem => ?_
  rw [(same token (List.mem_of_mem_drop mem)).accepts_eq t]

/-! ### Replacing before a parse and after it -/

/-- **Tokens and their replacements are parsed side by side**: equal indices
correspond, and trees and what they become. -/
theorem exists_correspondence_map (p : Parser) (same : ∀ t ∈ ts, t.SameClass (f t)) :
    ∃ c : Correspondence p p ts (ts.map f),
      c.Here = Eq ∧ c.Like = fun cs ds => Tree.mapIn f cs = ds := by
  refine ⟨{ Here := Eq, Like := fun cs ds => Tree.mapIn f cs = ds, grammar := rfl,
            maxDepth := rfl, first := rfl, last := (List.length_map f).symm, skip := ?skip,
            blanks := ?blanks, order := ?order, token := ?token, search := ?search, nil := rfl,
            append := ?append, node := ?node }, rfl, rfl⟩
  case skip =>
    rintro i _ rfl
    exact (afterBlanks_map same i).symm
  case blanks =>
    rintro i _ rfl
    rw [Tree.mapIn_leaves, blanksAt_map same]
  case order =>
    rintro i _ k _ rfl rfl
    rw [afterBlanks_map same]
  case token =>
    rintro i _ rfl
    rw [afterBlanks_map same, List.getElem?_map]
    cases stands : ts[p.afterBlanks ts i]? with
    | none => exact Or.inl ⟨rfl, rfl⟩
    | some t =>
        have class' := same t (List.mem_of_getElem? stands)
        exact Or.inr ⟨t, f t, rfl, rfl, fun terminal _ _ => (class'.accepts_eq terminal).symm,
          rfl, rfl⟩
  case search =>
    rintro t _ i _ _ _ rfl
    rw [passed_map same, List.length_map, List.length_map, Tree.mapIn_leaves]
    by_cases found : i + (passed ts t i).length < ts.length
    · exact Or.inr ⟨found, found, rfl, rfl⟩
    · exact Or.inl ⟨found, found⟩
  case append =>
    rintro cs _ cs' _ rfl rfl
    exact Tree.mapIn_append f cs cs'
  case node =>
    rintro name cs _ rfl
    rfl

/-- A mismatch is at the replaced token. -/
theorem mismatchTerm_map (name : String) (frontier : Frontier) :
    mismatchTerm (ts.map f) name frontier = (mismatchTerm ts name frontier).map f := by
  cases frontier with
  | unreached => rfl
  | reached index terminals =>
      simp [mismatchTerm, Term.map, Tree.mapIn, Failure.map, Frontier.index?]

/-- A missing terminator is blamed on the replaced token. -/
theorem unterminatedTerm_map (name : String) (start : Nat) (t : Terminal) :
    unterminatedTerm (ts.map f) name start t = (unterminatedTerm ts name start t).map f := by
  have opener : opener? (ts.map f) start = (opener? ts start).map f := by
    unfold opener?
    rw [List.length_map, List.getElem?_map, List.head?_map]
    split <;> rfl
  simp [unterminatedTerm, Term.map, Tree.mapIn, Failure.map, opener]

/-- **Replacing tokens by others of their class commutes with a parse**, faults and
failures included. -/
theorem parse_map (p : Parser) {ts : List Token} {f : Token → Token}
    (same : ∀ t ∈ ts, t.SameClass (f t)) :
    (p.parse (ts.map f)).outcome = (p.parse ts).outcome.map (Term.map f) := by
  obtain ⟨c, isHere, isLike⟩ := p.exists_correspondence_map same
  rcases c.parse with ⟨e, faulty, faulty'⟩ | ⟨term, term', ok, ok', terms⟩
  · rw [faulty, faulty']
    rfl
  · rw [ok, ok']
    show Except.ok term' = Except.ok (Term.map f term)
    congr 1
    cases terms with
    | matched like =>
        rw [isLike] at like
        rw [← like]
        rfl
    | failed fronts =>
        cases fronts with
        | unreached => exact mismatchTerm_map _ _
        | reached here =>
            rw [isHere] at here
            rw [← here, afterBlanks_map same]
            exact mismatchTerm_map _ _
    | unterminated _ _ here =>
        rw [isHere] at here
        rw [← here]
        exact unterminatedTerm_map _ _ _

end Parser

/-! ### One draft for all lists of the same classes -/

namespace Token

/-- A token of the same class that marks an index: its line is the index. -/
def marker (index : Nat) (t : Token) : Token :=
  { t with line := index }

/-- The token of a list that a marker stands for, and another one if the list is too
short for it. -/
def standing (tokens : List Token) (other marker : Token) : Token :=
  tokens[marker.line.toNat]?.getD other

variable {ts us : List Token} {other : Token}

theorem standing_marker {index : Nat} (inside : index < us.length) (t : Token) :
    standing us other (marker index t) = us[index] := by
  rw [standing, marker, Int.toNat_natCast, List.getElem?_eq_getElem inside, Option.getD_some]

/-- Markers stand for the tokens of every list of that length. -/
theorem map_standing_markers (length : ts.length = us.length) :
    (ts.mapIdx marker).map (standing us other) = us := by
  refine List.ext_getElem (by simp [length]) fun k inside inside' => ?_
  rw [List.getElem_map, List.getElem_mapIdx, standing_marker inside']

/-- A marker is of the class of the token that it stands for. -/
theorem sameClass_standing (h : List.Forall₂ SameClass ts us) :
    ∀ t ∈ ts.mapIdx marker, t.SameClass (standing us other t) := by
  obtain ⟨length, each⟩ := List.forall₂_iff_get.mp h
  intro t mem
  obtain ⟨k, inside, rfl⟩ := List.mem_mapIdx.mp mem
  rw [standing_marker (length ▸ inside)]
  exact each k inside (length ▸ inside)

end Token

namespace Parser

/-- **Parsing sees tokens only through their type and their text in upper case.**
For every parser and every list of tokens there is one draft of an answer, a fault
or a term with markers for tokens.  The answer to the list, and to every other list
with tokens of the same classes, is the draft with the list's tokens put in: the
same fault, or the same trees, kind, message and expectations, with the tokens of
the same indices. -/
theorem parse_of_sameClass (p : Parser) (ts : List Token) :
    ∃ draft : Except Fault Term,
      (∀ other, (p.parse ts).outcome = draft.map (Term.map (Token.standing ts other))) ∧
      ∀ us, List.Forall₂ Token.SameClass ts us → ∀ other,
        (p.parse us).outcome = draft.map (Term.map (Token.standing us other)) := by
  have drafted : ∀ us, List.Forall₂ Token.SameClass ts us → ∀ other, (p.parse us).outcome =
      (p.parse (ts.mapIdx Token.marker)).outcome.map (Term.map (Token.standing us other)) := by
    intro us same other
    rw [← p.parse_map (Token.sameClass_standing same), Token.map_standing_markers same.length_eq]
  exact ⟨_, drafted ts (List.forall₂_same.mpr fun t _ => .refl t), drafted⟩

/-- Keywords in either case, at other places: a query that ends before its table is
parsed alike. -/
theorem parse_of_sameClass_keywords :
    let upper := [⟨"IDENT", "SELECT", 1, 1⟩, ⟨"IDENT", "A", 1, 8⟩, ⟨"IDENT", "FROM", 1, 10⟩]
    let lower := [⟨"IDENT", "select", 4, 2⟩, ⟨"IDENT", "a", 5, 1⟩, ⟨"IDENT", "from", 5, 3⟩]
    List.Forall₂ Token.SameClass upper lower ∧ ∃ draft : Except Fault Term, ∀ other,
      (Query.language.parser.parse upper).outcome =
        draft.map (Term.map (Token.standing upper other)) ∧
      (Query.language.parser.parse lower).outcome =
        draft.map (Term.map (Token.standing lower other)) := by
  intro upper lower
  have same : List.Forall₂ Token.SameClass upper lower := by decide
  obtain ⟨draft, first, others⟩ := parse_of_sameClass Query.language.parser upper
  exact ⟨same, draft, fun other => ⟨first other, others lower same other⟩⟩

end Parser

end GrammarKit
