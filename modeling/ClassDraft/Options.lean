import ClassDraft.Comment
import ClassDraft.Indent

/-!
# Rendering options
-/

namespace ClassDraft

/-- What can be chosen about the printed text. None of it touches what the code means, and
all of it has a default. -/
structure Options where
  indent : Indent := default
  commentStyle : CommentStyle := default
  /-- Whether comments carry annotations. -/
  annotate : Bool := true
  /-- Whether a file begins with the opening tag. -/
  openTag : Bool := true
deriving DecidableEq, Repr

instance : Inhabited Options := ⟨{}⟩

end ClassDraft
