import ClassDraft.Name
import ClassDraft.Proofs.Bisection
import ClassDraft.Proofs.InPlace
import ClassDraft.Roster

/-!
# What a roster turns away

Looking for a member goes through a sorted copy of the names. That copy is strictly
ascending and holds the names of the roster and no others, so the answers lead to
the name that is sought, and a newcomer whose name is taken is never let in
(`contains_of_mem_names`). All that is asked of sameness is that members of equal
names count as the same (`SameByName`); it may hold between others too. Where it does
not (`ExactlyByName`), the search tells exactly whether a name is taken (`contains_iff`).

There are two ways in which a roster changes. Taking a newcomer in, at whichever end, asks
that question before it writes anything (`run_tryTake`), and bringing a member to the front
only moves a name (`promote_cases`). Neither lets a name in twice, so that a roster stays
`Proper`: distinct identifiers name its members.
-/

namespace ClassDraft

/-- Members of equal names count as the same. Others may too, which is why a member can be
turned away under a free name. -/
def SameByName (α : Type) [Named α] : Prop :=
  ∀ held newcomer : α, Named.name held = Named.name newcomer →
    Named.sameAs held newcomer = true

/-- Members count as the same exactly if they have one name, so that free names are all that
it takes to be let in. -/
def ExactlyByName (α : Type) [Named α] : Prop :=
  ∀ held newcomer : α, Named.sameAs held newcomer = true ↔ Named.name held = Named.name newcomer

/-- To be the same by name only is more than is needed to keep names apart. -/
theorem ExactlyByName.sameByName {α : Type} [Named α] (h : ExactlyByName α) : SameByName α :=
  fun held newcomer => (h held newcomer).mpr

/-- Whoever has a name and says nothing about sameness is the same by name only. -/
theorem exactlyByName_default {α : Type} (name : α → String) :
    @ExactlyByName α { name := name } :=
  fun _ _ => beq_iff_eq

namespace Roster

/-- A name is put in and none is lost, at whichever place. -/
theorem mem_insertName {name other : String} :
    ∀ {l : List String}, other ∈ insertName name l ↔ other = name ∨ other ∈ l := by
  intro l
  induction l with
  | nil => rw [insertName, List.mem_singleton]; simp
  | cons first rest ih =>
    rw [insertName]
    split
    next => exact List.mem_cons
    next =>
      split
      next heq =>
        constructor
        · exact .inr
        · rintro (rfl | hmem)
          · exact heq ▸ List.mem_cons_self ..
          · exact hmem
      next =>
        rw [List.mem_cons, List.mem_cons, ih]
        constructor
        · rintro (h | h | h)
          · exact .inr (.inl h)
          · exact .inl h
          · exact .inr (.inr h)
        · rintro (h | h | h)
          · exact .inr (.inl h)
          · exact .inl h
          · exact .inr (.inr h)

/-- The place is the right one: names in ascending order stay so, and a name that is there
already is not put in beside itself. -/
theorem ascending_insertName (name : String) :
    ∀ {l : List String}, l.Pairwise (· < ·) → (insertName name l).Pairwise (· < ·) := by
  intro l
  induction l with
  | nil => intro _; exact List.pairwise_singleton ..
  | cons first rest ih =>
    intro hasc
    obtain ⟨hfirst, hrest⟩ := List.pairwise_cons.mp hasc
    rw [insertName]
    split
    next hlt =>
      refine List.pairwise_cons.mpr ⟨?_, hasc⟩
      intro other hother
      rcases List.mem_cons.mp hother with rfl | hother
      · exact hlt
      · exact String.lt_trans hlt (hfirst other hother)
    next hnlt =>
      split
      next => exact hasc
      next hne =>
        -- the name goes further down, and what it passes is smaller
        have hgt : first < name := by
          apply String.not_le.mp
          intro hle
          exact hne (String.le_antisymm hle (String.not_lt.mp hnlt))
        refine List.pairwise_cons.mpr ⟨?_, ih hrest⟩
        intro other hother
        rcases mem_insertName.mp hother with rfl | hother
        · exact hgt
        · exact hfirst other hother

variable {α : Type} [Named α]

theorem mem_names {r : Roster α} {name : String} :
    name ∈ r.names ↔ ∃ m ∈ r.members, Named.name m = name :=
  List.mem_map

/-- The sorted copy has the names of the roster and no others. -/
theorem mem_sortedNames {r : Roster α} {name : String} : name ∈ r.sortedNames ↔ name ∈ r.names := by
  unfold sortedNames
  induction r.names with
  | nil => exact Iff.rfl
  | cons first rest ih => rw [List.foldr_cons, mem_insertName, ih, List.mem_cons]

/-- The sorted copy ascends strictly, so that each name stands in it once. -/
theorem ascending_sortedNames (r : Roster α) : r.sortedNames.Pairwise (· < ·) := by
  unfold sortedNames
  induction r.names with
  | nil => exact List.Pairwise.nil
  | cons first rest ih => exact ascending_insertName first ih

theorem latest?_eq_some {r : Roster α} {name : String} {m : α} (h : r.latest? name = some m) :
    m ∈ r.members ∧ Named.name m = name := by
  have hname : Named.name m = name := by simpa using List.find?_some h
  exact ⟨List.mem_reverse.mp (List.mem_of_find?_eq_some h), hname⟩

theorem exists_latest? {r : Roster α} {name : String} (h : name ∈ r.names) :
    ∃ m, r.latest? name = some m := by
  obtain ⟨m, hm, hname⟩ := mem_names.mp h
  apply Option.isSome_iff_exists.mp
  rw [latest?, List.find?_isSome]
  exact ⟨m, List.mem_reverse.mpr hm, beq_iff_eq.mpr hname⟩

/-- The answer is "here" for names whose latest member counts as the same. -/
theorem verdict_here {r : Roster α} {target : α} {name : String} :
    r.verdict target name = .here ↔
      ∃ m, r.latest? name = some m ∧ Named.sameAs m target = true := by
  unfold verdict
  split
  next h =>
    rw [Option.any_eq_true] at h
    exact ⟨fun _ => h, fun _ => rfl⟩
  next h =>
    rw [Option.any_eq_true] at h
    constructor
    · intro hv
      split at hv <;> cases hv
    · exact fun he => absurd he h

/-- No answer points away from greater names: from a name that is smaller than the sought
one the search does not go further down. -/
theorem verdict_ne_before {r : Roster α} {target : α} {name : String}
    (h : name < Named.name target) : r.verdict target name ≠ .before := by
  unfold verdict
  rw [if_neg (String.lt_asymm h)]
  split <;> exact fun hv => by cases hv

/-- No answer points away from smaller names either. -/
theorem verdict_ne_after {r : Roster α} {target : α} {name : String}
    (h : Named.name target < name) : r.verdict target name ≠ .after := by
  unfold verdict
  rw [if_pos h]
  split <;> exact fun hv => by cases hv

/-- The answers of a roster lead to the place of a name that is taken. -/
theorem leadsTo_of_mem_names (hsame : SameByName α) {r : Roster α} {target : α}
    (h : Named.name target ∈ r.names) :
    ∃ k, Bisection.LeadsTo r.sortedNames (r.verdict target) k := by
  obtain ⟨k, hk⟩ := List.get_of_mem (mem_sortedNames.mpr h)
  obtain ⟨m, hm⟩ := exists_latest? h
  have hasc := List.pairwise_iff_getElem.mp r.ascending_sortedNames
  refine ⟨k.val, k.isLt, ?_, ?_, ?_⟩
  · show r.verdict target (r.sortedNames.get k) = .here
    rw [hk, verdict_here]
    exact ⟨m, hm, hsame m target (latest?_eq_some hm).2⟩
  · -- what stands before the place is smaller, and what stands after it greater
    intro i hi
    have hlt : r.sortedNames.get i < r.sortedNames.get k := hasc i k i.isLt k.isLt hi
    exact verdict_ne_before (hk ▸ hlt)
  · intro i hi
    have hlt : r.sortedNames.get k < r.sortedNames.get i := hasc k i k.isLt i.isLt hi
    exact verdict_ne_after (hk ▸ hlt)

/-- **A name that is taken is recognised**, whatever else counts as the same. -/
theorem contains_of_mem_names (hsame : SameByName α) {r : Roster α} {target : α}
    (h : Named.name target ∈ r.names) : r.contains target = true := by
  obtain ⟨k, hleads⟩ := leadsTo_of_mem_names hsame h
  -- the search may stop elsewhere, but only at a name that counts as the same
  obtain ⟨place, hplace⟩ := Option.isSome_iff_exists.mp (Bisection.search_isSome hleads)
  obtain ⟨hlt, hhere⟩ := Bisection.search_found hplace
  obtain ⟨m, hm, _⟩ := verdict_here.mp hhere
  have hfind : r.find? target = some m := by
    unfold find?
    rw [hplace]
    show (r.sortedNames[place]?).bind r.latest? = some m
    rw [List.getElem?_eq_getElem hlt]
    exact hm
  rw [contains, hfind]
  rfl

/-- What is found is on the roster and counts as the same. -/
theorem find?_eq_some {r : Roster α} {target held : α} (h : r.find? target = some held) :
    held ∈ r.members ∧ Named.sameAs held target = true := by
  obtain ⟨place, hplace, hat⟩ := Option.bind_eq_some_iff.mp h
  obtain ⟨name, hname, hlatest⟩ := Option.bind_eq_some_iff.mp hat
  obtain ⟨hlt, hhere⟩ := Bisection.search_found hplace
  obtain ⟨m, hm, hsame⟩ := verdict_here.mp hhere
  -- the name that was answered with "here" is the one whose latest member is given back
  have hget : r.sortedNames.get ⟨place, hlt⟩ = name :=
    Option.some.inj ((List.getElem?_eq_getElem hlt).symm.trans hname)
  rw [hget, hlatest] at hm
  cases hm
  exact ⟨(latest?_eq_some hlatest).1, hsame⟩

/-- A newcomer that is recognised has its like on the roster, and one that is not
recognised has a new name. -/
theorem contains_cases (hsame : SameByName α) (r : Roster α) (newcomer : α) :
    (r.contains newcomer = true ∧ ∃ held ∈ r.members, Named.sameAs held newcomer = true) ∨
    (r.contains newcomer = false ∧ Named.name newcomer ∉ r.names) := by
  cases h : r.contains newcomer with
  | true =>
    obtain ⟨held, hheld⟩ := Option.isSome_iff_exists.mp h
    exact .inl ⟨rfl, held, find?_eq_some hheld⟩
  | false =>
    refine .inr ⟨rfl, ?_⟩
    intro htaken
    rw [contains_of_mem_names hsame htaken] at h
    cases h

/-- **The search is exact** where members are the same by name only: it finds a member
exactly if the name is taken. -/
theorem contains_iff (hexact : ExactlyByName α) (r : Roster α) (newcomer : α) :
    r.contains newcomer = true ↔ Named.name newcomer ∈ r.names := by
  constructor
  · intro h
    obtain ⟨held, hheld⟩ := Option.isSome_iff_exists.mp h
    obtain ⟨hmem, hlike⟩ := find?_eq_some hheld
    exact mem_names.mpr ⟨held, hmem, (hexact held newcomer).mp hlike⟩
  · exact contains_of_mem_names hexact.sameByName

/-! ## Taking a newcomer in -/

/-- The question comes before the first write: a newcomer that is recognised is handed back
and the roster left as it is, and any other is put at its place. -/
theorem run_tryTake (place : α → List α → List α) (newcomer : α) (r : Roster α) :
    (tryTake place newcomer).run r = if r.contains newcomer then .error newcomer r
      else .ok () ⟨place newcomer r.members⟩ := by
  cases h : r.contains newcomer with
  | false => simp [tryTake, h]
  | true => simp [tryTake, h]

/-- A newcomer that is handed back has left no trace. -/
theorem atomic_tryTake (place : α → List α → List α) (newcomer : α) :
    (tryTake place newcomer).Atomic := by
  intro r back left hrun
  rw [run_tryTake] at hrun
  split at hrun
  next =>
    cases hrun
    rfl
  next => cases hrun

/-- Where members are the same by name only, a newcomer is taken in exactly if its name is
new. -/
theorem result_tryTake (hexact : ExactlyByName α) (place : α → List α → List α) (newcomer : α)
    (r : Roster α) :
    (tryTake place newcomer).result r = if Named.name newcomer ∈ r.names then .error newcomer
      else .ok ⟨place newcomer r.members⟩ := by
  rw [InPlace.result, run_tryTake]
  by_cases htaken : Named.name newcomer ∈ r.names
  · rw [if_pos ((contains_iff hexact r newcomer).mpr htaken), if_pos htaken]
  · have hunknown : ¬ r.contains newcomer = true := fun hknown =>
      htaken ((contains_iff hexact r newcomer).mp hknown)
    rw [if_neg hunknown, if_neg htaken]

/-- Adding at the end, by the one question that decides it. -/
theorem push_eq (hexact : ExactlyByName α) (r : Roster α) (newcomer : α) :
    r.push newcomer = if Named.name newcomer ∈ r.names then .error newcomer
      else .ok ⟨r.members ++ [newcomer]⟩ :=
  result_tryTake hexact _ newcomer r

/-- Adding at the front asks the same question. -/
theorem pushFront_eq (hexact : ExactlyByName α) (r : Roster α) (newcomer : α) :
    r.pushFront newcomer = if Named.name newcomer ∈ r.names then .error newcomer
      else .ok ⟨newcomer :: r.members⟩ :=
  result_tryTake hexact _ newcomer r

/-! ## Bringing a member to the front -/

/-- The walk along the members fails for names that are not taken and for no others. -/
theorem get?_eq_none_iff {r : Roster α} {name : String} :
    r.get? name = none ↔ name ∉ r.names := by
  rw [get?, List.find?_eq_none, mem_names]
  constructor
  · rintro hnone ⟨m, hm, hname⟩
    exact hnone m hm (beq_iff_eq.mpr hname)
  · intro habsent m hm hname
    exact habsent ⟨m, hm, beq_iff_eq.mp hname⟩

theorem get?_eq_some {r : Roster α} {name : String} {m : α} (h : r.get? name = some m) :
    m ∈ r.members ∧ Named.name m = name := by
  have hname : Named.name m = name := by simpa using List.find?_some h
  exact ⟨List.mem_of_find?_eq_some h, hname⟩

/-- Promotion leaves a roster without the name as it is, and otherwise takes the first
member of that name out and puts it, changed, in front of the others. -/
theorem promote_cases (r : Roster α) (name : String) (change : α → α) :
    (name ∉ r.names ∧ r.promote name change = r) ∨
    ∃ m ∈ r.members, Named.name m = name ∧
      r.promote name change = ⟨change m :: r.members.eraseP (Named.name · == name)⟩ := by
  unfold promote
  cases h : r.get? name with
  | none => exact .inl ⟨get?_eq_none_iff.mp h, rfl⟩
  | some m =>
    obtain ⟨hm, hname⟩ := get?_eq_some h
    exact .inr ⟨m, hm, hname, rfl⟩

/-- Bringing a member to the front, even a changed one, only moves its name, as long as the
change leaves the name alone. -/
theorem perm_names_promote (r : Roster α) (name : String) (change : α → α)
    (hchange : ∀ m, Named.name (change m) = Named.name m) :
    (r.promote name change).names.Perm r.names := by
  rcases r.promote_cases name change with ⟨_, hsame⟩ | ⟨m, hm, hname, hmoved⟩
  · rw [hsame]
  · have hrest : (r.members.eraseP (Named.name · == name)).map Named.name
        = r.names.erase name := by
      rw [names, List.erase_eq_eraseP', List.eraseP_map]
      rfl
    -- one occurrence of the name goes from its place to the front
    rw [hmoved, names, List.map_cons, hrest, hchange, hname]
    exact (List.perm_cons_erase (mem_names.mpr ⟨m, hm, hname⟩)).symm

/-- Distinct identifiers name the members. Of a name both have to be seen to when it comes
in, as nobody looks at it again. -/
structure Proper (r : Roster α) : Prop where
  nodup : r.names.Nodup
  identifiers : ∀ name ∈ r.names, Name.isIdentifier name = true

/-- The order of the names does not matter to whether they are distinct identifiers. -/
theorem Proper.of_perm {r r' : Roster α} (h : r.Proper) (hp : r'.names.Perm r.names) :
    r'.Proper :=
  ⟨hp.nodup_iff.mpr h.nodup, fun name hmem => h.identifiers name (hp.mem_iff.mp hmem)⟩

/-- One more name, wherever it stands, has to be a fresh one. -/
theorem nodup_names_insert {r r' : Roster α} {name : String} (h : r.names.Nodup)
    (hfresh : name ∉ r.names) (hp : r'.names.Perm (name :: r.names)) : r'.names.Nodup :=
  hp.nodup_iff.mpr (List.nodup_cons.mpr ⟨hfresh, h⟩)

/-- One more member, wherever it stands, needs a name that is fresh and an identifier. -/
theorem Proper.insert {r r' : Roster α} {name : String} (h : r.Proper)
    (hname : Name.isIdentifier name = true) (hfresh : name ∉ r.names)
    (hp : r'.names.Perm (name :: r.names)) : r'.Proper := by
  refine ⟨nodup_names_insert h.nodup hfresh hp, ?_⟩
  intro other hmem
  rcases List.mem_cons.mp (hp.mem_iff.mp hmem) with rfl | hmem
  · exact hname
  · exact h.identifiers other hmem

theorem perm_names_concat (r : Roster α) (m : α) :
    (Roster.mk (r.members ++ [m])).names.Perm (Named.name m :: r.names) := by
  rw [names, List.map_append]
  exact List.perm_append_singleton _ _

end Roster

end ClassDraft
