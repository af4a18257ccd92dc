import ClassDraft.Fault

/-!
# Who may see a member
-/

namespace ClassDraft

/-- The three levels of access to a member; members are public unless told otherwise. -/
inductive Access where
  | everyone
  | heirs
  | owner
deriving DecidableEq, Repr

namespace Access

instance : Inhabited Access := ⟨everyone⟩

/-- The word that stands for an access in front of a member, and that `parse` reads back. -/
def keyword : Access → String
  | everyone => "public"
  | heirs => "protected"
  | owner => "private"

/-- Reads a keyword, exactly as it is written. A word with capitals or blanks in it names no
access and is told back in the fault. -/
def parse (text : String) : Checked Access :=
  match [everyone, heirs, owner].find? (·.keyword == text) with
  | some access => .ok access
  | none => .error (.unexpected .accessWord text)

end Access

end ClassDraft
