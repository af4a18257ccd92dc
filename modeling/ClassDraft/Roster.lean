import ClassDraft.Bisection
import ClassDraft.InPlace

/-!
# Rosters of named members

A roster keeps members in an order and turns away a member that is the same as
one it holds already. Which members count as the same is up to the kind of
member; by default it is those with equal names.

Looking for the same member searches the sorted names by bisection. That is exact
when sameness is equality of names. With any other sameness the search still only
follows the order of the names, so it may pass by a member it would have
accepted, but it never finds one that is not the same.
-/

namespace ClassDraft

/-- Members that have a name and can be compared. The comparison need not be an equivalence,
and nothing ties it to the names. -/
class Named (α : Type) where
  name : α → String
  /-- Whether a member on the roster counts as the same as a newcomer. -/
  sameAs : α → α → Bool := fun held newcomer => name held == name newcomer

/-- Members in an order. Nothing here keeps two members of one name apart: that they never
meet on one roster is what the ways in see to. -/
structure Roster (α : Type) where
  members : List α := []
deriving DecidableEq

namespace Roster

variable {α : Type} [Named α]

/-- The roster without members, with which every history begins. -/
def empty : Roster α := {}

/-- The names of the members in the order of the members. Where names are distinct this is
all that the search goes by. -/
def names (r : Roster α) : List String := r.members.map Named.name

/-- Puts a name at its place among distinct names in ascending order, unless it
stands there already. -/
def insertName (name : String) : List String → List String
  | [] => [name]
  | first :: rest =>
    if name < first then name :: first :: rest
    else if name = first then first :: rest
    else first :: insertName name rest

/-- The distinct names in ascending order. The search goes through this copy, in which names
stand once whatever the roster is like. -/
def sortedNames (r : Roster α) : List String := r.names.foldr insertName []

/-- The last member with a name, which stands for all members of that name. -/
def latest? (r : Roster α) (name : String) : Option α :=
  r.members.reverse.find? (Named.name · == name)

/-- The answer of a roster about one of its names, in the search for `target`. -/
def verdict (r : Roster α) (target : α) (name : String) : Verdict :=
  if (r.latest? name).any (Named.sameAs · target) then .here
  else if Named.name target < name then .before
  else .after

/-- The member that counts as the same as `target`, as far as the search by name
order leads to it. -/
def find? (r : Roster α) (target : α) : Option α := do
  let place ← (Bisection.search r.sortedNames (r.verdict target)).found
  r.latest? (← r.sortedNames[place]?)

/-- Whether a member that counts as the same as `target` is found. This is the question that
decides about newcomers. -/
def contains (r : Roster α) (target : α) : Bool := (r.find? target).isSome

/-- The first member of a name, found by walking along the members. This is another way to
look a member up than `find?`, and does not ask what counts as the same. -/
def get? (r : Roster α) (name : String) : Option α := r.members.find? (Named.name · == name)

/-- Takes a newcomer in, where `place` puts it among the members, or breaks off and hands it
back if the roster has it already. -/
def tryTake (place : α → List α → List α) (newcomer : α) : InPlace α (Roster α) Unit := do
  if (← get).contains newcomer then throw newcomer
  modify fun r => ⟨place newcomer r.members⟩

/-- Adds a member at the end, in place. A member that is turned away is the outcome of a
run, along with what it has left of the roster. -/
def tryPush (newcomer : α) : InPlace α (Roster α) Unit :=
  tryTake (fun m members => members ++ [m]) newcomer

/-- Adds a member at the front, in place, and is otherwise the same as `tryPush`. -/
def tryPushFront (newcomer : α) : InPlace α (Roster α) Unit := tryTake List.cons newcomer

/-- The roster with a member added at the end, or the member if the roster has it already. -/
def push (r : Roster α) (newcomer : α) : Except α (Roster α) := (tryPush newcomer).result r

/-- The roster with a member added at the front, or the member if the roster has it
already. -/
def pushFront (r : Roster α) (newcomer : α) : Except α (Roster α) :=
  (tryPushFront newcomer).result r

/-- Moves the first member with a name to the front and changes it there. The
others keep their order; without such a member nothing happens. -/
def promote (r : Roster α) (name : String) (change : α → α) : Roster α :=
  match r.get? name with
  | some m => ⟨change m :: r.members.eraseP (Named.name · == name)⟩
  | none => r

end Roster

end ClassDraft
