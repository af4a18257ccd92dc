import ClassDraft.Name
import ClassDraft.OrderedSet

/-!
# The paths a file uses

A file that refers to classes by their short names lists their full paths at its
head. `UseList` collects those paths in the order in which they are met.
Referring to a path gives its short name and records the path; a path counts as
full only if it still holds a separator once its leading separators are gone.

A type is a union of parts divided by bars, and a part may begin with a question
mark; each part of a type is a reference of its own.
-/

namespace ClassDraft

/-- The full paths that a file refers to by short name, in order of first use. -/
structure UseList where
  paths : OrderedSet String := .empty
deriving DecidableEq

namespace UseList

def empty : UseList := {}

/-- The recorded paths in the order in which they were met first. -/
def toList (uses : UseList) : List String := uses.paths.toList

/-- Records a path, without its leading separators, if it is then still qualified. -/
def add (uses : UseList) (path : String) : UseList :=
  let full := Name.dropRoot path
  if Name.isQualified full then ⟨uses.paths.insert full⟩ else uses

/-- Whether a path, less its leading separators, is recorded. -/
def contains (uses : UseList) (path : String) : Bool := uses.paths.contains (Name.dropRoot path)

/-- Whether `add` would record something new. -/
def wouldGrow (uses : UseList) (path : String) : Bool :=
  Name.isQualified (Name.dropRoot path) && !uses.contains path

/-- Records a path and tells whether it is new. Unlike `refer` it does not ask whether the
path was qualified before its root was dropped. -/
def record (path : String) : StateM UseList Bool :=
  modifyGet fun uses => (uses.wouldGrow path, uses.add path)

/-- Records the paths of another list in their order. They are taken as they are, since a
list holds full paths only. -/
def merge (uses other : UseList) : UseList := ⟨uses.paths.union other.paths⟩

/-- A list made by recording each path in turn. -/
def ofPaths (paths : List String) : UseList := paths.foldl add empty

/-- Whether two lists record the same paths, in whatever order. -/
def sameMembers (uses other : UseList) : Bool := uses.paths.sameMembers other.paths

/-- The short name of a path, which is recorded on the way. A text without a
separator is its own short name and records nothing. -/
def refer (path : String) : StateM UseList String := do
  if Name.isQualified path then
    modify (·.add path)
    return Name.short (Name.dropRoot path)
  else
    return path

/-- One part of a type: a leading question mark stays, the rest is a reference. -/
def referPart (part : String) : StateM UseList String :=
  match part.toList with
  | '?' :: inner => do return "?" ++ (← refer (String.ofList inner))
  | _ => refer part

/-- A type with each of its parts shortened. A type without a separator is
short already. -/
def shorten (type : String) : StateM UseList String := do
  if Name.isQualified type then
    return "|".intercalate (← (Text.pieces '|' type).mapM referPart)
  else
    return type

end UseList

end ClassDraft
