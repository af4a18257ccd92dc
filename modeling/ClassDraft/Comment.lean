import ClassDraft.Code.Writer
import ClassDraft.Margin
import ClassDraft.Param
import ClassDraft.Returns

/-!
# Comments

A comment is a list of lines, a style to set them in and a margin. A comment
without lines prints as nothing at all. The comment of a method can be drawn up
from its description and its signature: the description, a gap, then one
annotation per parameter, exception and return type.
-/

namespace ClassDraft

/-- How a comment is set: as one block with an opening and a closing, or as remarks, each
line of which is a comment by itself. -/
inductive CommentStyle where
  | multi
  | single
deriving DecidableEq, Repr

instance : Inhabited CommentStyle := ⟨.multi⟩

/-- A comment before it is set: its lines, which may hold line ends of their own, the style,
and the margin in front of it. A comment without lines is nothing at all, whatever its
style. -/
structure Comment where
  lines : List String := []
  style : CommentStyle := default
  margin : Margin := {}
deriving DecidableEq, Repr

namespace Comment

/-- Whether there are no lines. A comment whose one line is empty is not empty: it is set,
with a mark and nothing behind it. -/
def isEmpty (c : Comment) : Bool := c.lines.isEmpty

/-- The comment, if there is anything in it. Members keep their comment in this form, so
that an undescribed member has none. -/
def nonempty? (c : Comment) : Option Comment := if c.isEmpty then none else some c

/-- The comment as code, inside its margin. Nothing is left of an empty comment, not even an
opening and a closing with nothing between them. -/
def toCode (c : Comment) : List Code :=
  if c.isEmpty then []
  else match c.style with
    | .multi => c.margin.wrap [.docBlock c.lines]
    | .single => c.margin.wrap [.remarks c.lines]

/-- The comment set by itself. It stands at no depth, so that the unit of indentation never
shows in it. -/
def render (c : Comment) : String := Code.render default c.toCode

/-- The annotation of a parameter. One without a type may hold anything and says so; the
name stands without the sign that it has in the signature. -/
def paramLine (p : Param) : String := "@param " ++ p.type.getD "mixed" ++ " " ++ p.name

/-- The annotation of an exception, which is named by its short name. -/
def throwsLine (exception : String) : StateM UseList String := do
  return "@throws " ++ (← UseList.refer exception)

/-- The lines of a description, followed by a gap if there are any. Empty lines of
the description are left out. -/
def descriptionLines (description : List String) : List String :=
  match description.filter (· != "") with
  | [] => []
  | lines => lines ++ [""]

/-- The comment of a method, from its description and its signature. The types are taken as
they are, but exceptions are referred to once more on the way. -/
def ofSignature (description : List String) (params : List Param) (returns : Returns)
    (exceptions : List String) (style : CommentStyle) : StateM UseList Comment := do
  let throwsLines ← exceptions.mapM throwsLine
  return {
    lines := descriptionLines description ++ params.map paramLine ++ throwsLines
      ++ (returns.render.map ("@return " ++ ·)).toList
    style := style }

end Comment

end ClassDraft
