/-!
# The unit of indentation
-/

namespace ClassDraft

/-- What one level of depth is written as. -/
inductive Indent where
  | spaces (width : UInt8)
  | tab
deriving DecidableEq, Repr

namespace Indent

/-- Four spaces, the width of the common coding standard. -/
def standard : Indent := spaces 4

def compact : Indent := spaces 2

instance : Inhabited Indent := ⟨standard⟩

/-- One level of indentation. With a width of zero it is empty, and then no depth shows. -/
def unit : Indent → String
  | spaces width => String.ofList (List.replicate width.toNat ' ')
  | tab => "\t"

/-- The indentation at a depth, one unit for each level. -/
def levels (indent : Indent) : Nat → String
  | 0 => ""
  | depth + 1 => indent.unit ++ indent.levels depth

end Indent

end ClassDraft
