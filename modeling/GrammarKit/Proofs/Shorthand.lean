import GrammarKit.Description.Element

/-!
# Short forms and what they are read as

A reference is shown in a short form, `name`, `[name]` or `name*`, and a short form in the
place of an element is read as a reference.  Names are arbitrary texts, so a name may look
like a short form itself: this module settles **which references are read back** from what
they are shown as.

## Main Definitions

* `Element.InBrackets` — a text that is read as another one in brackets
* `Element.EndsInStar` — a text that ends in a star
* `Description.ReadsBack` — an element that is read from what it is shown as

## Main Statements

* `Element.bracketed?_eq_some_iff` — which characters are in brackets
* `Element.ofShorthand?_eq_some_iff` — what each text is read as
* `Description.element?_render` — which references are read back

## Design Notes

The forms are tried in order: brackets, a star, and last the plain name.  Nothing in brackets
ends in a star, so the order of the first two does not show; a plain name is what neither of
them takes.
-/

namespace GrammarKit

namespace Element

/-- **A text that is in brackets**: between them are one or more characters other than line
feed, and one line feed may follow the closing one. -/
def InBrackets (inner text : String) : Prop :=
  inner ≠ "" ∧ '\n' ∉ inner.toList ∧ (text = "[" ++ inner ++ "]" ∨ text = "[" ++ inner ++ "]\n")

/-- A text that ends in a star. -/
def EndsInStar (text : String) : Prop := ∃ front, text = front ++ "*"

/-! ### Brackets -/

/-- What is left of a text without a line feed at its end, and what was taken off. -/
theorem exists_lineEnd (cs : List Char) :
    ∃ lineEnd, (lineEnd = [] ∨ lineEnd = ['\n']) ∧
      cs = (if cs.getLast? = some '\n' then cs.dropLast else cs) ++ lineEnd := by
  split
  · rename_i ends
    obtain ⟨front, rfl⟩ := List.getLast?_eq_some_iff.mp ends
    exact ⟨['\n'], Or.inr rfl, by rw [List.dropLast_concat]⟩
  · exact ⟨[], Or.inl rfl, (List.append_nil cs).symm⟩

/-- **Which characters are in brackets.** -/
theorem bracketed?_eq_some_iff {cs inner : List Char} :
    bracketed? cs = some inner ↔ inner ≠ [] ∧ '\n' ∉ inner ∧
      (cs = '[' :: inner ++ [']'] ∨ cs = '[' :: inner ++ [']', '\n']) := by
  constructor
  · intro h
    unfold bracketed? at h
    split at h
    · rename_i rest
      -- the line feed is taken off before the closing bracket is looked for
      obtain ⟨lineEnd, ends, whole⟩ := exists_lineEnd rest
      generalize (if rest.getLast? = some '\n' then rest.dropLast else rest) = body at h whole
      simp only at h
      split at h
      · rename_i closes
        obtain ⟨front, rfl⟩ := List.getLast?_eq_some_iff.mp closes
        rw [List.dropLast_concat] at h
        split at h
        · cases h
        · rename_i good
          cases h
          have sound : inner ≠ [] ∧ '\n' ∉ inner := by simpa using good
          refine ⟨sound.1, sound.2, ?_⟩
          rcases ends with rfl | rfl
          · exact Or.inl (by rw [whole]; simp)
          · exact Or.inr (by rw [whole]; simp)
      · cases h
    · cases h
  · rintro ⟨filled, clean, rfl | rfl⟩
    · simp [bracketed?, filled, clean]
    · rw [show [']', '\n'] = [']'] ++ ['\n'] from rfl, ← List.append_assoc]
      simp [bracketed?, filled, clean]

/-- **Which texts are in brackets.** -/
theorem bracketed?_toList_iff {text inner : String} :
    bracketed? text.toList = some inner.toList ↔ InBrackets inner text := by
  rw [bracketed?_eq_some_iff, InBrackets, ← @String.toList_inj text, ← @String.toList_inj text]
  simp

/-! ### Short forms -/

theorem endsInStar_iff {text : String} :
    EndsInStar text ↔ text.toList.getLast? = some '*' := by
  rw [List.getLast?_eq_some_iff]
  constructor
  · rintro ⟨front, rfl⟩
    exact ⟨front.toList, by simp⟩
  · rintro ⟨front, same⟩
    exact ⟨String.ofList front, by rw [← String.toList_inj, same]; simp⟩

/-- Nothing in brackets ends in a star. -/
theorem InBrackets.not_endsInStar {inner text : String} (h : InBrackets inner text) :
    ¬ EndsInStar text := by
  rw [endsInStar_iff]
  obtain ⟨-, -, rfl | rfl⟩ := h
  · simp [List.getLast?_cons]
  · simp [List.getLast?_cons]

/-- What is in brackets is read as a reference that may be left out. -/
theorem ofShorthand?_of_inBrackets {inner text : String} (h : InBrackets inner text) :
    ofShorthand? text = some (optionalRule inner) := by
  rw [ofShorthand?, bracketed?_toList_iff.mpr h]
  simp only [String.ofList_toList]

/-- What is not in brackets is read by its end. -/
theorem ofShorthand?_of_not_inBrackets {text : String} (h : ¬ ∃ inner, InBrackets inner text) :
    ofShorthand? text =
      if text.toList.getLast? = some '*' then
        if text.length > 1 then some (many (String.ofList text.toList.dropLast)) else none
      else if text = "" then none else some (rule text) := by
  have free : bracketed? text.toList = none := by
    cases bracket : bracketed? text.toList with
    | none => rfl
    | some inner =>
        refine absurd ⟨String.ofList inner, bracketed?_toList_iff.mp ?_⟩ h
        rw [bracket, String.toList_ofList]
  rw [ofShorthand?, free]

/-- A text with a star behind it is read as a repeatable reference, unless it is empty. -/
theorem ofShorthand?_star (name : String) :
    ofShorthand? (name ++ "*") = if name = "" then none else some (many name) := by
  have star : EndsInStar (name ++ "*") := ⟨name, rfl⟩
  rw [ofShorthand?_of_not_inBrackets fun ⟨_, inside⟩ => inside.not_endsInStar star,
    if_pos (endsInStar_iff.mp star)]
  by_cases empty : name = ""
  · rw [if_pos empty, empty]
    rfl
  · have long : (name ++ "*").length > 1 := by
      have filled : name.toList ≠ [] := by simpa using empty
      have positive := List.length_pos_iff.mpr filled
      rw [← String.length_toList, String.toList_append, List.length_append]
      exact Nat.lt_add_of_pos_left positive
    rw [if_pos long, if_neg empty]
    simp

/-- **What each text is read as**: what is in brackets, a name with a star behind it, or any
other text unless it is empty or ends in a star. -/
theorem ofShorthand?_eq_some_iff {text : String} {e : Element} :
    ofShorthand? text = some e ↔
      (∃ inner, InBrackets inner text ∧ e = optionalRule inner) ∨
      (∃ name, name ≠ "" ∧ text = name ++ "*" ∧ e = many name) ∨
      (¬ ∃ inner, InBrackets inner text) ∧ ¬ EndsInStar text ∧ text ≠ "" ∧ e = rule text := by
  constructor
  · intro h
    by_cases bracket : ∃ inner, InBrackets inner text
    · obtain ⟨inner, inside⟩ := bracket
      rw [ofShorthand?_of_inBrackets inside] at h
      cases h
      exact Or.inl ⟨inner, inside, rfl⟩
    · by_cases star : EndsInStar text
      · obtain ⟨name, rfl⟩ := star
        rw [ofShorthand?_star] at h
        split at h
        · cases h
        · rename_i named
          cases h
          exact Or.inr (Or.inl ⟨name, named, rfl, rfl⟩)
      · rw [ofShorthand?_of_not_inBrackets bracket, if_neg (mt endsInStar_iff.mpr star)] at h
        split at h
        · cases h
        · rename_i filled
          cases h
          exact Or.inr (Or.inr ⟨bracket, star, filled, rfl⟩)
  · rintro (⟨inner, inside, rfl⟩ | ⟨name, named, rfl, rfl⟩ | ⟨free, star, filled, rfl⟩)
    · exact ofShorthand?_of_inBrackets inside
    · rw [ofShorthand?_star, if_neg named]
    · rw [ofShorthand?_of_not_inBrackets free, if_neg (mt endsInStar_iff.mpr star), if_neg filled]

end Element

namespace Description

open Element

/-! ### Reading back -/

/-- **An element that is read back**: in the place of an element of a rule, the text that it
is shown as is read as the element. -/
def ReadsBack (rule : String) (e : Element) : Prop :=
  Piece.element? rule (.datum (.text e.render)) = .ok (.ofElement e)

/-- Different elements are described differently. -/
theorem DescribedElement.ofElement_injective {e e' : Element}
    (h : DescribedElement.ofElement e = DescribedElement.ofElement e') : e = e' := by
  cases e <;> cases e' <;> cases h <;> rfl

theorem readsBack_iff {rule : String} {e : Element} :
    ReadsBack rule e ↔ ofShorthand? e.render = some e := by
  rw [ReadsBack, Piece.element?]
  cases read : ofShorthand? e.render with
  | none => simp
  | some e' =>
      constructor
      · intro h
        rw [DescribedElement.ofElement_injective (Except.ok.inj h)]
      · rintro ⟨⟩
        rfl

/-- **Which references are read back** from what they are shown as, whatever rule they stand
in.  A repeatable one always is.  An optional one is unless there is a line feed in its name.
A plain one is unless its name ends in a star or is in brackets. -/
theorem element?_render (rule : String) {name : String} (named : name ≠ "") :
    ReadsBack rule (.many name) ∧
      (ReadsBack rule (.optionalRule name) ↔ '\n' ∉ name.toList) ∧
      (ReadsBack rule (.rule name) ↔
        ¬ EndsInStar name ∧ ¬ ∃ inner, InBrackets inner name) := by
  simp only [readsBack_iff, ofShorthand?_eq_some_iff]
  refine ⟨?repeatable, ?optional, ?plain⟩
  case repeatable => exact Or.inr (Or.inl ⟨name, named, rfl, rfl⟩)
  case optional =>
    constructor
    · rintro (⟨inner, ⟨-, clean, -⟩, same⟩ | ⟨_, -, -, same⟩ | ⟨-, -, -, same⟩)
      · cases same
        exact clean
      · cases same
      · simp [optionalRule, Element.rule] at same
    · intro clean
      exact Or.inl ⟨name, ⟨named, clean, Or.inl rfl⟩, rfl⟩
  case plain =>
    constructor
    · rintro (⟨_, -, same⟩ | ⟨_, -, -, same⟩ | ⟨free, star, -, -⟩)
      · cases same
      · cases same
      · exact ⟨star, free⟩
    · rintro ⟨star, free⟩
      exact Or.inr (Or.inr ⟨free, star, named, rfl⟩)

/-- A name in brackets is read back with a star behind it or other brackets around it, but
not as it is. -/
theorem element?_render_brackets :
    "[a]" ≠ "" ∧ InBrackets "a" "[a]" ∧ ReadsBack "line" (.many "[a]") ∧
      ReadsBack "line" (.optionalRule "[a]") ∧ ¬ ReadsBack "line" (.rule "[a]") := by
  have inside : InBrackets "a" "[a]" := ⟨by decide, by decide, Or.inl (by decide)⟩
  obtain ⟨repeatable, optional, plain⟩ := @element?_render "line" "[a]" (by decide)
  exact ⟨by decide, inside, repeatable, optional.mpr (by decide),
    fun back => (plain.mp back).2 ⟨"a", inside⟩⟩

end Description

end GrammarKit
