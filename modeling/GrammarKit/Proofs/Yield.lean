import GrammarKit.Proofs.OrderedChoice

/-!
# The context-free reading of a grammar

Ordered choice is context-dependent: what an alternative consumes depends on what
follows and on the alternatives before it.  Read without order and without
lookahead, a goal merely **yields** some words, and every success consumes one of
them.  That is enough wherever only the shape of what was consumed matters.

## Main Definitions

* `Parser.Skippable` — tokens that may be skipped as blanks
* `Parser.Yields` — the words that a goal may consume

## Main Statements

* `Parser.Derives.yields` — a success consumes a word that its goal yields

## Design Notes

Words carry no indices, so the shape of what a rule consumes is found by
inversion alone.
-/

namespace GrammarKit.Parser

/-- Tokens that may be skipped as blanks. -/
def Skippable (p : Parser) (w : List Token) : Prop :=
  (p.skipBlanks = false → w = []) ∧ ∀ t ∈ w, t.isBlank p.blankTypes = true

/-- **The words that a goal may consume.** -/
inductive Yields (p : Parser) : Goal → List Token → Prop where
  | rule {name : String} {r : Rule} {w : List Token} :
      p.grammar.rule? name = some r → Yields p (.alternatives r.alternatives) w →
      Yields p (.rule name) w
  /-- Any alternative will do. -/
  | alternatives {productions : List Production} {production : Production} {w : List Token} :
      production ∈ productions → Yields p (.sequence production) w →
      Yields p (.alternatives productions) w
  | done : Yields p (.sequence []) []
  | next {e : Element} {rest : Production} {u v : List Token} :
      Yields p (.element e) u → Yields p (.sequence rest) v →
      Yields p (.sequence (e :: rest)) (u ++ v)
  | once {name : String} {blanks w : List Token} :
      p.Skippable blanks → Yields p (.rule name) w → Yields p (.once name) (blanks ++ w)
  | single {name : String} {optional : Bool} {w : List Token} :
      Yields p (.once name) w → Yields p (.element (.reference name optional false)) w
  | leftOut {name : String} : Yields p (.element (.reference name true false)) []
  | repeatable {name : String} {marked : Bool} {w : List Token} :
      Yields p (.many name) w → Yields p (.element (.reference name marked true)) w
  | ended {name : String} : Yields p (.many name) []
  | again {name : String} {u v : List Token} :
      Yields p (.once name) u → Yields p (.many name) v → Yields p (.many name) (u ++ v)
  | token {t : Terminal} {marked : Bool} {blanks : List Token} {found : Token} :
      t.inverse = false → p.Skippable blanks → t.accepts found = true →
      Yields p (.element (.terminal t marked)) (blanks ++ [found])
  | omitted {t : Terminal} : t.inverse = false → Yields p (.element (.terminal t true)) []
  /-- Everything up to a token that a consume-until terminal accepts. -/
  | upTo {t : Terminal} {marked : Bool} {w : List Token} :
      t.inverse = true → (∀ token ∈ w, t.accepts token = false) →
      Yields p (.element (.terminal t marked)) w

variable {p : Parser} {tokens : List Token}

theorem skippable_blanksAt (p : Parser) (tokens : List Token) (i : Nat) :
    p.Skippable (p.blanksAt tokens i) := by
  unfold Skippable blanksAt
  cases p.skipBlanks with
  | false => simp
  | true => simpa using List.all_eq_true.mp List.all_takeWhile

/-- **A success consumes a word that its goal yields.** -/
theorem Derives.yields {goal : Goal} {i : Nat} {o : Outcome} (h : Derives p tokens goal i o) :
    ∀ {children : List Tree} {j : Nat}, o = .success children j →
      p.Yields goal (Tree.tokensIn children) := by
  induction h with
  | rule hr _ ih => intro children j same; exact .rule hr (ih same)
  | exhausted => intro children j same; cases same
  | taken _ _ ih =>
      intro children j same
      exact .alternatives List.mem_cons_self (ih same)
  | passed _ _ _ ih =>
      intro children j same
      cases ih same with
      | alternatives mem word => exact .alternatives (List.mem_cons_of_mem _ mem) word
  | done => intro children j same; cases same; exact .done
  | next _ _ ihFirst ihRest =>
      intro children j same
      obtain ⟨more, rfl, rfl⟩ := Outcome.after_eq_success.mp same
      rw [Tree.tokensIn_append]
      exact .next (ihFirst rfl) (ihRest rfl)
  | stuck _ fails _ =>
      intro children j same
      rw [same] at fails
      exact (fails trivial).elim
  | @once name i o _ ih =>
      intro children j same
      obtain ⟨inner, rfl, rfl⟩ := Outcome.node_eq_success.mp same
      have word := Yields.once (skippable_blanksAt p tokens i) (ih rfl)
      simpa [Tree.tokensIn, Tree.tokens] using word
  | plain _ ih => intro children j same; exact .single (ih same)
  | optional _ ih =>
      intro children j same
      rcases Outcome.orStay_eq_success.mp same with rfl | ⟨-, rfl, -⟩
      · exact .single (ih rfl)
      · exact .leftOut
  | repeatable _ ih => intro children j same; exact .repeatable (ih same)
  | again _ _ _ ihFirst ihRest =>
      intro children j same
      obtain ⟨more, rfl, rfl⟩ := Outcome.after_eq_success.mp same
      rw [Tree.tokensIn_append]
      exact .again (ihFirst rfl) (ihRest rfl)
  | last _ ih =>
      intro children j same
      have word := Yields.again (ih same) .ended
      rwa [List.append_nil] at word
  | ended _ fails _ =>
      intro children j same
      rcases Outcome.orStay_eq_success.mp same with rfl | ⟨-, rfl, -⟩
      · exact (fails trivial).elim
      · exact .ended
  | @token t marked i found direct _ accepted =>
      intro children j same
      cases same
      have word := @Yields.token p t marked _ found direct (skippable_blanksAt p tokens i) accepted
      simpa [Tree.tokensIn, Tree.tokens] using word
  | @mismatch t marked i direct _ =>
      intro children j same
      cases marked with
      | true => cases same; exact .omitted direct
      | false => cases same
  | @upTo t marked i j found inverse _ _ _ before =>
      intro children k same
      cases same
      rw [Tree.tokensIn_map_leaf]
      refine .upTo inverse fun token mem => ?_
      obtain ⟨k, stands⟩ := List.mem_iff_getElem?.mp mem
      have inside := (List.getElem?_eq_some_iff.mp stands).1
      rw [List.length_take] at inside
      rw [List.getElem?_take_of_lt (by omega), List.getElem?_drop] at stands
      exact before (i + k) (by omega) (by omega) token stands
  | unterminated _ _ => intro children j same; cases same

namespace Yields

/-! ### Inversion -/

theorem of_rule {name : String} {w : List Token} (h : p.Yields (.rule name) w) :
    ∃ r, p.grammar.rule? name = some r ∧
      ∃ production ∈ r.alternatives, p.Yields (.sequence production) w := by
  cases h with
  | rule hr word =>
      cases word with
      | alternatives mem inner => exact ⟨_, hr, _, mem, inner⟩

theorem of_nil {w : List Token} (h : p.Yields (.sequence []) w) : w = [] := by
  cases h with
  | done => rfl

theorem of_cons {e : Element} {rest : Production} {w : List Token}
    (h : p.Yields (.sequence (e :: rest)) w) :
    ∃ u v, w = u ++ v ∧ p.Yields (.element e) u ∧ p.Yields (.sequence rest) v := by
  cases h with
  | next first others => exact ⟨_, _, rfl, first, others⟩

/-! ### Inversion where no blanks are skipped -/

section WithoutBlanks

variable (solid : p.skipBlanks = false)

include solid

theorem of_one {t : Terminal} {w : List Token} (direct : t.inverse = false)
    (h : p.Yields (.element (.one t)) w) : ∃ found, w = [found] ∧ t.accepts found = true := by
  cases h with
  | token _ blanks accepted =>
      rw [blanks.1 solid]
      exact ⟨_, rfl, accepted⟩
  | upTo inverse _ =>
      rw [direct] at inverse
      cases inverse

theorem of_once {name : String} {w : List Token} (h : p.Yields (.once name) w) :
    p.Yields (.rule name) w := by
  cases h with
  | once blanks word => rwa [blanks.1 solid]

theorem of_reference {name : String} {w : List Token}
    (h : p.Yields (.element (.rule name)) w) : p.Yields (.rule name) w := by
  cases h with
  | single word => exact word.of_once solid

/-- A production that begins with a terminal yields words that begin with a token
it accepts. -/
theorem of_one_cons {t : Terminal} {rest : Production} {w : List Token}
    (direct : t.inverse = false) (h : p.Yields (.sequence (.one t :: rest)) w) :
    ∃ found v, w = found :: v ∧ t.accepts found = true ∧ p.Yields (.sequence rest) v := by
  obtain ⟨u, v, rfl, first, others⟩ := h.of_cons
  obtain ⟨found, rfl, accepted⟩ := first.of_one solid direct
  exact ⟨found, v, rfl, accepted, others⟩

/-- A production that is a terminal yields single tokens. -/
theorem of_one_nil {t : Terminal} {w : List Token} (direct : t.inverse = false)
    (h : p.Yields (.sequence [.one t]) w) : ∃ found, w = [found] ∧ t.accepts found = true := by
  obtain ⟨found, v, rfl, accepted, others⟩ := h.of_one_cons solid direct
  rw [others.of_nil]
  exact ⟨found, rfl, accepted⟩

/-- **What holds of the empty word and is kept by one more match in front** holds
of everything a repetition yields. -/
theorem many_induction {name : String} {Holds : List Token → Prop} (nil : Holds [])
    (cons : ∀ u v, p.Yields (.rule name) u → Holds v → Holds (u ++ v)) {w : List Token}
    (h : p.Yields (.many name) w) : Holds w := by
  generalize same : Goal.many name = goal at h
  induction h with
  | ended => exact nil
  | again round _ _ ih =>
      cases same
      exact cons _ _ (round.of_once solid) (ih rfl)
  | _ => cases same

end WithoutBlanks

end Yields

end GrammarKit.Parser
