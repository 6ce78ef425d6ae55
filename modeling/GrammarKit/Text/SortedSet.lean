/-!
# Sorted sets of strings

A set of strings is shown as the list of its members in code point order, each once.

## Main Definitions

* `Text.sortedSet` — the members of a list in that order, by insertion
-/

namespace GrammarKit.Text

/-- Puts a string at its place in a sorted list, unless the list has it already. -/
def insertSorted (s : String) : List String → List String
  | [] => [s]
  | t :: rest =>
    if s < t then s :: t :: rest
    else if s = t then t :: rest
    else t :: insertSorted s rest

/-- The members of a list in code point order, each once. -/
def sortedSet (strings : List String) : List String :=
  strings.foldr insertSorted []

/-- Insertion adds exactly the given string. -/
theorem mem_insertSorted {s x : String} {l : List String} :
    x ∈ insertSorted s l ↔ x = s ∨ x ∈ l := by
  induction l with
  | nil => simp [insertSorted]
  | cons t rest ih =>
    simp only [insertSorted]
    split
    · simp
    · split
      · rename_i h; subst h; simp
      · simp only [List.mem_cons, ih]
        constructor
        · rintro (h | h | h) <;> simp [h]
        · rintro (h | h | h) <;> simp [h]

/-- Sorting keeps the members. -/
@[simp] theorem mem_sortedSet {x : String} {l : List String} : x ∈ sortedSet l ↔ x ∈ l := by
  induction l with
  | nil => simp [sortedSet]
  | cons t rest ih =>
    have h : sortedSet (t :: rest) = insertSorted t (sortedSet rest) := rfl
    rw [h, mem_insertSorted, ih, List.mem_cons]

end GrammarKit.Text
