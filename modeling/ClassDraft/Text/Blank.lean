/-!
# Blank characters and trimming

Blank means the `White_Space` property of the Unicode standard: every kind of
space and line end, but not the zero-width characters. Trimming removes blanks
from one end of a text or from both and never touches what lies between.

`stripStart` and `stripEnd` are the same operation for an arbitrary class of
characters; the three trims are their instances at `isBlank`.
-/

namespace ClassDraft.Text

/-- The blank characters as inclusive ranges of code points, in ascending order. -/
def blankRanges : List (Nat × Nat) :=
  [(0x09, 0x0D), (0x20, 0x20), (0x85, 0x85), (0xA0, 0xA0), (0x1680, 0x1680), (0x2000, 0x200A),
    (0x2028, 0x2029), (0x202F, 0x202F), (0x205F, 0x205F), (0x3000, 0x3000)]

/-- Whether a character has the `White_Space` property. -/
def isBlank (c : Char) : Bool :=
  blankRanges.any fun range => decide (range.1 ≤ c.toNat ∧ c.toNat ≤ range.2)

/-- Drops the longest run at the end of a list whose members all satisfy `p`. -/
def dropEndWhile {α : Type} (p : α → Bool) (l : List α) : List α :=
  (l.reverse.dropWhile p).reverse

/-- Removes every leading character of the class `p`. -/
def stripStart (p : Char → Bool) (s : String) : String :=
  String.ofList (s.toList.dropWhile p)

/-- Removes every trailing character of the class `p`. -/
def stripEnd (p : Char → Bool) (s : String) : String :=
  String.ofList (dropEndWhile p s.toList)

def trimStart (s : String) : String := stripStart isBlank s

/-- A text without the blanks at its end, line ends included. -/
def trimEnd (s : String) : String := stripEnd isBlank s

def trim (s : String) : String := trimStart (trimEnd s)

end ClassDraft.Text
