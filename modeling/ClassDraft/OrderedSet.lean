/-!
# Sets that remember the order of insertion

A set is kept as the list of its members in the order in which they first came
in; inserting a member that is already there changes nothing. Two sets are the
same set when they have the same members, in whatever order.
-/

namespace ClassDraft

/-- A set together with the order in which its members came in. That no member comes twice
is part of it and need not be proved again. -/
structure OrderedSet (α : Type) where
  toList : List α
  nodup : toList.Nodup
deriving DecidableEq

namespace OrderedSet

variable {α : Type}

/-- The set without members, into which everything comes as the first. -/
def empty : OrderedSet α := ⟨[], .nil⟩

instance : Inhabited (OrderedSet α) := ⟨empty⟩

variable [DecidableEq α]

def contains (s : OrderedSet α) (a : α) : Bool := decide (a ∈ s.toList)

/-- Adds `a` as the last member unless it is one already. A member does not move when it
comes in again. -/
def insert (s : OrderedSet α) (a : α) : OrderedSet α :=
  if h : a ∈ s.toList then s else
    ⟨s.toList ++ [a], List.nodup_append.mpr ⟨s.nodup, by simp, by grind⟩⟩

/-- Inserts the elements of a list from its beginning to its end, so that each stands where
it occurs first. -/
def insertMany (s : OrderedSet α) (l : List α) : OrderedSet α := l.foldl insert s

/-- The set of the elements of a list, each at its first place. -/
def ofList (l : List α) : OrderedSet α := empty.insertMany l

/-- Adds the members of another set in their order. -/
def union (s t : OrderedSet α) : OrderedSet α := s.insertMany t.toList

/-- Whether two sets have the same members. As neither has duplicates, one inclusion and the
lengths are enough. -/
def sameMembers (s t : OrderedSet α) : Bool :=
  s.toList.length == t.toList.length && s.toList.all t.contains

end OrderedSet

end ClassDraft
