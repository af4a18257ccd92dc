import ClassDraft.Draft

/-!
# Fair copies

A fair copy is a settled draft together with the options it was settled with; it
is ready to be printed. It prints as the comment on the class, the line that
opens it, its sections with one empty line between two of them, and the line that
closes it. The traits are one section, and so is each property and each method.
-/

namespace ClassDraft

/-- A settled draft and the options it was settled with. Drafts are printed in this form
only. -/
structure FairCopy where
  draft : Draft
  options : Options
deriving DecidableEq

/-- The fair copy of a draft. Settling is done here once and for all, so that nothing is
looked up while the code is drawn up. -/
def Draft.fairCopy (d : Draft) (o : Options) : FairCopy := ⟨d.settled o, o⟩

namespace FairCopy

/-- Whether two fair copies are the same, where order within sets does not count. -/
def same (c e : FairCopy) : Bool := c.draft.same e.draft && decide (c.options = e.options)

/-- The section that takes traits in, on a single line for all of them. A class without
traits has no such section, so that no blank line is spent on it. -/
def traitSections (c : FairCopy) : List (List Code) :=
  if c.draft.traits.toList.isEmpty then []
  else
    [[.margin (c.draft.memberMargin c.options)
      [.line ("use " ++ ", ".intercalate c.draft.traits.toList ++ ";")]]]

/-- What stands between the opening and the closing line: the traits, then a section for
each property, then one for each method. -/
def sections (c : FairCopy) : List (List Code) :=
  c.traitSections ++ c.draft.properties.members.map Property.toCode
    ++ c.draft.methods.members.map Method.toCode

/-- The fair copy as code: the comment on the class, the opening line, the sections with a
blank line between any two, and the closing line. The margin of the draft is set around the
lines of its own and not around the sections, which have it in their margin already. -/
def toCode (c : FairCopy) : List Code :=
  (match c.draft.comment c.options with
    | some comment => comment.toCode
    | none => [])
  ++ c.draft.margin.wrap [.line c.draft.declaration]
  ++ [Code.blank].intercalate c.sections
  ++ c.draft.margin.wrap [.line "\x7d"]

/-- The text of a fair copy, set with the indentation that its options ask for. -/
def render (c : FairCopy) : String := Code.render c.options.indent c.toCode

end FairCopy

/-- The text of a draft under the default options. -/
def Draft.display (d : Draft) : String := (d.fairCopy default).render

end ClassDraft
