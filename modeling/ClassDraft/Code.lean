/-!
# Code as a tree of lines

A piece of code is a tree whose leaves are lines and comments and whose inner
nodes say how the lines below them are set: a block sets its body one level
deeper than its opening and closing lines, a margin puts a literal text in front
of every line in it that is not empty. How deep a line stands and what precedes
it is decided by the tree alone, never by the text of a line.
-/

namespace ClassDraft

/-- A piece of code before it is set: what belongs on lines of its own, and how far in those
lines stand. Neither the unit of indentation nor the depth is part of it, so the same code
can be set anywhere. -/
inductive Code where
  /-- Text set as one line, or as several where it holds line ends. -/
  | line (text : String)
  | blank
  /-- An opening line, a body one level deeper, and perhaps a closing line. -/
  | block (opening : String) (body : List Code) (closing : Option String)
  /-- A literal text in front of each line of the body that is not empty. -/
  | margin (text : String) (body : List Code)
  | docBlock (lines : List String)
  | remarks (lines : List String)
deriving Repr

end ClassDraft
