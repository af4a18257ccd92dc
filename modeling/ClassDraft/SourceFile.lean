import ClassDraft.FairCopy

/-!
# Source files

A file holds one class. Before it stand, each followed by an empty line, the
opening tag, the namespace and the list of used paths, as far as there are any.
-/

namespace ClassDraft

/-- A file with one class in it: a fair copy, and whether the file begins with the opening
tag. The tag is an option of its own, so that a file can be had either way from one copy. -/
structure SourceFile where
  copy : FairCopy
  openTag : Bool

namespace SourceFile

/-- The file of a fair copy, with the opening tag if its options say so. -/
def of (copy : FairCopy) : SourceFile := ⟨copy, copy.options.openTag⟩

/-- The paths that are listed at the head of the file, in the order in which they were met. -/
def uses (f : SourceFile) : List String := f.copy.draft.uses.toList

def hasUses (f : SourceFile) : Bool := !f.uses.isEmpty

/-- Lines followed by an empty line, or nothing where there are no lines. -/
def paragraph (lines : List String) : List Code :=
  if lines.isEmpty then [] else lines.map .line ++ [.blank]

/-- The file as code: the opening tag, the namespace, the used paths and the class. Each of
the first three is a paragraph of its own, and is left out along with its blank line if
there is nothing in it. A namespace of no name counts as none. -/
def toCode (f : SourceFile) : List Code :=
  paragraph (if f.openTag then ["<?php"] else [])
  ++ paragraph (match f.copy.draft.inNamespace with
    | some path => if path = "" then [] else ["namespace " ++ path ++ ";"]
    | none => [])
  ++ paragraph (f.uses.map fun path => "use " ++ path ++ ";")
  ++ f.copy.toCode

/-- The text of the file; its last line is closed by a line end. -/
def render (f : SourceFile) : String := Code.text f.copy.options.indent f.toCode

end SourceFile

end ClassDraft
