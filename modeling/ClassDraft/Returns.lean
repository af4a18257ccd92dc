import ClassDraft.UseList

/-!
# What a method returns
-/

namespace ClassDraft

/-- The return type of a method: unstated, one type, or a union of types. A union
of no types is a value of its own, but nothing is written for it. -/
inductive Returns where
  | unstated
  | single (type : String)
  | union (types : List String)
deriving DecidableEq, Repr

namespace Returns

instance : Inhabited Returns := ⟨unstated⟩

/-- Whether nothing is said about what comes back, which is not the same as saying that
nothing does. -/
def isUnstated : Returns → Bool
  | unstated => true
  | _ => false

/-- The type as it is written, where there is something to write. A union without members
says as little as no statement. -/
def render : Returns → Option String
  | unstated => none
  | single type => some type
  | union [] => none
  | union types => some ("|".intercalate types)

/-- The stated types with each of them shortened. A union is shortened member by member and
stays a union, even of one. -/
def shorten : Returns → StateM UseList Returns
  | unstated => return unstated
  | single type => return single (← UseList.shorten type)
  | union types => return union (← types.mapM UseList.shorten)

end Returns

end ClassDraft
