/-!
# Blank characters

Two classes of invisible separators: the one divides the words of a source text, and the
other, which a numeral may not contain, has the four information separators U+001C to
U+001F besides.

## Main Definitions

* `Text.isBlank` — the Unicode property White_Space
* `Text.isSpacing` — the blanks and the information separators
-/

namespace GrammarKit.Text

/-- Code points with the Unicode property White_Space, as closed ranges in order. -/
def blankRanges : List (Nat × Nat) :=
  [(0x09, 0x0d), (0x20, 0x20), (0x85, 0x85), (0xa0, 0xa0), (0x1680, 0x1680), (0x2000, 0x200a),
   (0x2028, 0x2029), (0x202f, 0x202f), (0x205f, 0x205f), (0x3000, 0x3000)]

/-- Whether a code point lies in one of the closed ranges. -/
def inRanges (ranges : List (Nat × Nat)) (code : Nat) : Bool :=
  ranges.any fun range => range.1 ≤ code && code ≤ range.2

/-- Characters that separate words: the Unicode property White_Space. -/
def isBlank (c : Char) : Bool :=
  inRanges blankRanges c.toNat

/-- Characters that count as spacing inside a numeral: the blanks and U+001C to
U+001F. -/
def isSpacing (c : Char) : Bool :=
  isBlank c || (0x1c ≤ c.toNat && c.toNat ≤ 0x1f)

theorem isSpacing_of_isBlank {c : Char} (h : isBlank c = true) : isSpacing c = true := by
  simp [isSpacing, h]

end GrammarKit.Text
