import ClassDraft.Proofs.ClassPath
import ClassDraft.Proofs.Reachable
import Mathlib.Data.List.Nodup

/-!
# The names that constants are declared by

A draft keeps the names of its properties apart as they were given, but a constant is
declared by its name in upper case, and more than one name has the same upper-case form.
Nothing compares those forms. So two constants of distinct names may be declared by one
name (`constant_declared_twice`).

What has to be added for the declared names to be distinct is that no two constants have
names that differ in the case of their letters only, and no more than that
(`declaredConstants_nodup_iff`). That it is so simple is due to the names being identifiers:
they are made of ASCII characters, of which each has one upper-case character and none
has several.
-/

namespace ClassDraft

namespace Name

/-- Two names that are spelled alike up to the case of ASCII letters. -/
def SameLetters (name other : String) : Prop :=
  name.toList.map Char.toUpper = other.toList.map Char.toUpper

instance (name other : String) : Decidable (SameLetters name other) :=
  inferInstanceAs (Decidable (_ = _))

/-- Identifiers are made of the first 128 code points. -/
theorem toNat_lt_of_continuesIdentifier {c : Char} (h : continuesIdentifier c = true) :
    c.toNat < 128 := by
  have hbound : ∀ {last : Char}, c.val ≤ last.val → last.toNat < 128 → c.toNat < 128 :=
    fun hle hlast => Nat.lt_of_le_of_lt (UInt32.le_iff_toNat_le.mp hle) hlast
  rcases Bool.or_eq_true_iff.mp h with halphanum | hunderscore
  · rcases Bool.or_eq_true_iff.mp halphanum with halpha | hdigit
    · rcases Bool.or_eq_true_iff.mp halpha with hupper | hlower
      · exact hbound (of_decide_eq_true hupper).2 (by decide)
      · exact hbound (of_decide_eq_true (Bool.and_eq_true_iff.mp hlower).2) (by decide)
    · exact hbound (of_decide_eq_true (Bool.and_eq_true_iff.mp hdigit).2) (by decide)
  · rw [beq_iff_eq.mp hunderscore]
    decide

/-- The tables agree with ASCII on the characters of identifiers. -/
theorem upperChar_of_continuesIdentifier {c : Char} (h : continuesIdentifier c = true) :
    Text.upperChar c = [c.toUpper] ∧ continuesIdentifier c.toUpper = true := by
  have hascii : ∀ n : Fin 128, continuesIdentifier (Char.ofNat n) = true →
      Text.upperChar (Char.ofNat n) = [(Char.ofNat n).toUpper] ∧
        continuesIdentifier (Char.ofNat n).toUpper = true := by
    decide +kernel
  have hc := hascii ⟨c.toNat, toNat_lt_of_continuesIdentifier h⟩
  rw [Char.ofNat_toNat] at hc
  exact hc h

/-- Identifiers in capitals have as many characters, each the capital of the one at its
place. -/
theorem toList_upper {name : String} (h : isIdentifier name = true) :
    (Text.upper name).toList = name.toList.map Char.toUpper := by
  rw [Text.upper, String.toList_ofList, List.map_eq_flatMap]
  apply List.flatMap_congr
  intro c hc
  exact (upperChar_of_continuesIdentifier (continues_of_mem_identifier h hc)).1

/-- No space comes in with the capitals, so that the name stays the last word of its
declaration. -/
theorem space_not_mem_upper {name : String} (h : isIdentifier name = true) :
    ' ' ∉ (Text.upper name).toList := by
  rw [toList_upper h]
  intro hspace
  obtain ⟨c, hc, hcase⟩ := List.mem_map.mp hspace
  have hcontinues := (upperChar_of_continuesIdentifier (continues_of_mem_identifier h hc)).2
  rw [hcase] at hcontinues
  cases hcontinues

/-- Identifiers have the same capitals exactly if they differ in the case of their letters
only. -/
theorem upper_eq_upper_iff {name other : String} (h : isIdentifier name = true)
    (hother : isIdentifier other = true) :
    Text.upper name = Text.upper other ↔ SameLetters name other := by
  rw [← String.toList_inj, toList_upper h, toList_upper hother]
  rfl

end Name

/-- A constant is declared by the upper-case form of its name: the last word in front of
its value. -/
theorem Property.lastWord_declared {p : Property} (hconstant : p.isConstant = true)
    (hname : Name.isIdentifier p.name = true) :
    Text.afterLast ' ' p.declared = Text.upper p.name := by
  have hcut : p.declared.toList
      = (p.access.keyword ++ " const").toList ++ ' ' :: (Text.upper p.name).toList := by
    rw [declared, if_pos hconstant]
    simp
  rw [Text.afterLast_eq_of_cut hcut (Name.space_not_mem_upper hname)]
  exact String.ofList_toList

namespace Draft

/-- The properties that are printed as constants, in their order. -/
def constants (d : Draft) : List Property := d.properties.members.filter Property.isConstant

/-- The names that the constants of a draft are declared by, in order: of each, the last
word in front of its value. -/
def declaredConstants (d : Draft) : List String :=
  d.constants.map fun p => Text.afterLast ' ' p.declared

theorem mem_constants {d : Draft} {p : Property} (h : p ∈ d.constants) :
    p ∈ d.properties.members ∧ p.isConstant = true :=
  List.mem_filter.mp h

/-- The constants of a draft have identifiers for names, as its properties do. -/
theorem Reachable.isIdentifier_constant {d : Draft} (h : d.Reachable) {p : Property}
    (hp : p ∈ d.constants) : Name.isIdentifier p.name = true :=
  h.orderly.properties.identifiers p.name (List.mem_map_of_mem (mem_constants hp).1)

/-- As they are given, the names of constants are distinct. What they are in print is
another question. -/
theorem Reachable.nodup_constantNames {d : Draft} (h : d.Reachable) :
    (d.constants.map Property.name).Nodup :=
  h.orderly.properties.nodup.sublist (List.filter_sublist.map Property.name)

theorem Reachable.declaredConstants_eq {d : Draft} (h : d.Reachable) :
    d.declaredConstants = (d.constants.map Property.name).map Text.upper := by
  rw [declaredConstants, List.map_map]
  apply List.map_congr_left
  intro p hp
  exact Property.lastWord_declared (mem_constants hp).2 (h.isIdentifier_constant hp)

/-- **When the declared names are distinct.** After every history, each constant is declared
by the upper-case form of its name, and no name is declared twice exactly if no two
constants have names that differ in the case of their letters only. -/
theorem declaredConstants_nodup_iff {d : Draft} (h : d.Reachable) :
    d.declaredConstants = d.constants.map (fun p => Text.upper p.name) ∧
    (d.declaredConstants.Nodup ↔
      ∀ p ∈ d.constants, ∀ q ∈ d.constants, Name.SameLetters p.name q.name →
        p.name = q.name) := by
  refine ⟨h.declaredConstants_eq.trans List.map_map, ?_⟩
  rw [h.declaredConstants_eq, List.nodup_map_iff_inj_on h.nodup_constantNames]
  simp only [List.forall_mem_map]
  -- on identifiers, upper-case forms are equal if the letters are the same
  constructor
  · intro hinj p hp q hq hsame
    apply hinj p hp q hq
    exact (Name.upper_eq_upper_iff (h.isIdentifier_constant hp) (h.isIdentifier_constant hq)).mpr
      hsame
  · intro hcase p hp q hq hupper
    apply hcase p hp q hq
    exact (Name.upper_eq_upper_iff (h.isIdentifier_constant hp) (h.isIdentifier_constant hq)).mp
      hupper

/-- A property may share its letters with a constant. -/
theorem declaredConstants_nodup_limits :
    let d := [Edit.addConstant "limit" "1", .addConstant "Limits" "2", .addConstant "limit" "3",
      .addProperty (.named "LIMIT")].foldl attempt { name := "Job" }
    d.Reachable ∧ d.properties.names = ["limit", "Limits", "LIMIT"] ∧
    d.declaredConstants = ["LIMIT", "LIMITS"] ∧ d.declaredConstants.Nodup := by
  intro d
  have hnew : Draft.new .classKind "Job" = .ok { name := "Job" } := rfl
  have hd : d.Reachable := (Reachable.new hnew).attempts _
  obtain ⟨hnames, hdistinct⟩ := declaredConstants_nodup_iff hd
  refine ⟨hd, by decide +kernel, hnames.trans (by decide +kernel), hdistinct.mpr ?_⟩
  decide +kernel

/-- Two constants, whose names the draft keeps apart, are declared by one name. -/
theorem constant_declared_twice :
    let d := [Edit.addConstant "limit" "1", .addConstant "LIMIT" "2"].foldl attempt
      { name := "Job" }
    d.Reachable ∧ d.properties.members.map Property.declaration
      = ["public const LIMIT = 1;", "public const LIMIT = 2;"] ∧ ¬ d.declaredConstants.Nodup := by
  intro d
  have hnew : Draft.new .classKind "Job" = .ok { name := "Job" } := rfl
  have hd : d.Reachable := (Reachable.new hnew).attempts _
  exact ⟨hd, by decide +kernel, by decide +kernel⟩

end Draft

end ClassDraft
