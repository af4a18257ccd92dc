import ClassDraft.Code

/-!
# The margin of a piece of code

Anything that is printed may carry a literal text that precedes each of its
lines. A margin that was never set and an empty one print alike, yet they are
different values.
-/

namespace ClassDraft

/-- The literal text in front of each line, if one was set. It may hold anything, line ends
included. -/
structure Margin where
  text : Option String := none
deriving DecidableEq, Repr

namespace Margin

def unset : Margin := {}

/-- A margin made of a text, which may be empty. -/
def of (text : String) : Margin := ⟨some text⟩

/-- The text of the margin, empty where none was set. -/
def textD (m : Margin) : String := m.text.getD ""

/-- Sets code inside the margin, where there is both a margin and code. A node that would
change nothing is not made. -/
def wrap (m : Margin) (code : List Code) : List Code :=
  if m.textD = "" ∨ code.isEmpty then code else [.margin m.textD code]

end Margin

end ClassDraft
