/-!
# Lines of a source text

A line ends at a line feed, at a carriage return, or at the two together.  A position is
shown by the text of its line with a caret below it.

## Main Definitions

* `Text.sourceLines` — the lines of a text; there is always at least one
* `Text.endPosition` — line and column just after the last character
* `Text.caretSnippet` — a line with a caret under one of its columns
-/

namespace GrammarKit.Text

/-- Every line end as one line feed: carriage return with line feed first, then each
lone carriage return. -/
def unifyLineEnds : List Char → List Char
  | [] => []
  | '\r' :: '\n' :: rest => '\n' :: unifyLineEnds rest
  | c :: rest => (if c = '\r' then '\n' else c) :: unifyLineEnds rest

/-- Divides characters at each line feed. -/
def splitLines : List Char → List (List Char)
  | [] => [[]]
  | c :: rest =>
    match splitLines rest with
    | [] => [[c]]
    | line :: lines => if c = '\n' then [] :: line :: lines else (c :: line) :: lines

theorem splitLines_ne_nil (cs : List Char) : splitLines cs ≠ [] := by
  cases cs with
  | nil => simp [splitLines]
  | cons c rest =>
    simp only [splitLines]
    split
    · simp
    · split <;> simp

/-- The lines of a text, as lists of characters. -/
def sourceLines (source : String) : List (List Char) :=
  splitLines (unifyLineEnds source.toList)

theorem sourceLines_ne_nil (source : String) : sourceLines source ≠ [] :=
  splitLines_ne_nil _

/-- The last line of a text. -/
def lastLine (source : String) : List Char :=
  (sourceLines source).getLast (sourceLines_ne_nil source)

/-- Line and column, both counted from one, just after the last character. -/
def endPosition (source : String) : Int × Int :=
  ((sourceLines source).length, (lastLine source).length + 1)

/-- The line at a one-based number, if the text has it. -/
def lineAt? (source : String) (line : Int) : Option (List Char) :=
  if 1 ≤ line then (sourceLines source)[(line - 1).toNat]? else none

/-- A caret under the given column of a line; columns below one count as one. -/
def underline (text : List Char) (column : Int) : String :=
  String.ofList (text ++ '\n' :: List.replicate (column - 1).toNat ' ' ++ ['^'])

/-- The line of a position with a caret under its column.  A line that the text does not
have is shown as the end of the last line. -/
def caretSnippet (source : String) (line column : Int) : String :=
  match lineAt? source line with
  | some text => underline text column
  | none => underline (lastLine source) ((lastLine source).length + 1)

end GrammarKit.Text
