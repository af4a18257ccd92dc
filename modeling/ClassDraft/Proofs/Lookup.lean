import ClassDraft.Param
import ClassDraft.Proofs.RosterHistory
import Mathlib.Data.List.Nodup

/-!
# Two ways to look a member up

A roster answers two questions about a member. Given a name, `get?` walks along the members
and stops at the first one of that name. Given a member, `find?` sorts the names, bisects
them by their order, code point by code point, and gives back the latest member of the name
it stops at. The one sees the members where they stand, the other never does.

They differ on a roster with two members of one name, of which the walk meets the first and
the search gives back the last, and they differ where other members than those of one name
count as the same. Neither can arise where sameness is equality of names: **after every
history of such a roster the search and the walk give the same answer**
(`lookups_agree`), for members with any texts for names.
-/

namespace ClassDraft.Roster

variable {α : Type} [Named α]

/-- Where names are distinct, a name leads to the one member that has it. -/
theorem get?_eq_some_iff {r : Roster α} (hnodup : r.names.Nodup) {name : String} {m : α} :
    r.get? name = some m ↔ m ∈ r.members ∧ Named.name m = name := by
  refine ⟨get?_eq_some, ?_⟩
  rintro ⟨hm, hname⟩
  cases h : r.get? name with
  | none => exact absurd (mem_names.mpr ⟨m, hm, hname⟩) (get?_eq_none_iff.mp h)
  | some first =>
    obtain ⟨hfirst, hfirstName⟩ := get?_eq_some h
    have hsame : first = m :=
      List.inj_on_of_nodup_map hnodup hfirst hm (hfirstName.trans hname.symm)
    rw [hsame]

/-- The search fails for names that are not taken and for no others. -/
theorem find?_eq_none_iff (hexact : ExactlyByName α) {r : Roster α} {target : α} :
    r.find? target = none ↔ Named.name target ∉ r.names := by
  rw [← contains_iff hexact, contains, Bool.not_eq_true, Option.isSome_eq_false_iff,
    Option.isNone_iff_eq_none]

/-- On a roster with distinct names there is one member that a search for a name could give
back, so both ways lead to it. -/
theorem find?_eq_get? (hexact : ExactlyByName α) {r : Roster α} (hnodup : r.names.Nodup)
    (target : α) : r.find? target = r.get? (Named.name target) := by
  cases h : r.find? target with
  | none => exact (get?_eq_none_iff.mpr ((find?_eq_none_iff hexact).mp h)).symm
  | some held =>
    obtain ⟨hmem, hlike⟩ := find?_eq_some h
    exact ((get?_eq_some_iff hnodup).mpr ⟨hmem, (hexact held target).mp hlike⟩).symm

/-- **The search and the walk agree** on every roster that a history of requests leads to,
where members are the same by name only: both find nothing, or both find the same member.
So a member is recognised exactly if some member on the roster has its name. -/
theorem lookups_agree (hexact : ExactlyByName α) (requests : List (Request α)) (target : α) :
    (after requests).find? target = (after requests).get? (Named.name target) ∧
    ((after requests).contains target = true ↔
      ∃ held ∈ (after requests).members, Named.name held = Named.name target) := by
  have hnodup : (after requests).names.Nodup :=
    nodup_names_foldl hexact.sameByName requests List.nodup_nil
  refine ⟨find?_eq_get? hexact hnodup target, ?_⟩
  rw [contains_iff hexact, mem_names]

/-- The names are no identifiers. In the order of code points `😀` comes after `～`, though its
first half as a surrogate pair would come before. The second `～` is refused, so that the
member found is the first one, changed on its way to the front. -/
theorem lookups_agree_wide :
    let r : Roster Param := after [.push (.named "😀"), .pushFront (.named "～"),
      .push { name := "～", type := some "int" }, .push (.named ""), .push (.named "a b"),
      .promote "～" ({ · with declaredOptional := true }) fun _ => rfl]
    ExactlyByName Param ∧ r.names = ["～", "😀", "", "a b"] ∧
      r.sortedNames = ["", "a b", "～", "😀"] ∧
      r.find? (.named "～") = some { name := "～", declaredOptional := true } ∧
      r.find? (.named "a") = none ∧ r.contains (.named "") = true := by
  intro r
  have hnames : r.names = ["～", "😀", "", "a b"] := by decide +kernel
  have hexact : ExactlyByName Param := exactlyByName_default Param.name
  obtain ⟨htilde, _⟩ := lookups_agree hexact _ (.named "～")
  obtain ⟨hother, _⟩ := lookups_agree hexact _ (.named "a")
  obtain ⟨_, hempty⟩ := lookups_agree hexact _ (.named "")
  refine ⟨hexact, hnames, by decide +kernel, htilde.trans (by decide +kernel),
    hother.trans (by decide +kernel), hempty.mpr ?_⟩
  exact ⟨.named "", by decide +kernel, rfl⟩

end ClassDraft.Roster
