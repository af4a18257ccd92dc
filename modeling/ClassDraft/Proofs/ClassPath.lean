import ClassDraft.Proofs.UseList

/-!
# The parts of a class path

A class path is spelled by its parts, which are identifiers, with one separator
between two of them and perhaps one more in front. No identifier holds a separator
and none is empty, so dropping the root takes away that one separator in front and
nothing else (`Spells.dropRoot_eq`). What remains is qualified exactly if there are two
parts or more (`isQualified_intercalate`), and its short name is the last of them
(`Spells.short_eq`), which is an identifier and so a class path itself.

A path of one part with a root in front is *global*. It is the one kind of class path
that is qualified as it stands and is so no longer without its root.
-/

namespace ClassDraft.Name

/-- The first character of an identifier is stricter than the others, so that what all of
them have in common is what may follow the first. -/
theorem continues_of_mem_identifier {chars : List Char} (h : spellsIdentifier chars = true)
    {c : Char} (hc : c ∈ chars) : continuesIdentifier c = true := by
  cases chars with
  | nil => cases h
  | cons first rest =>
    rw [spellsIdentifier, Bool.and_eq_true, List.all_eq_true] at h
    rcases List.mem_cons.mp hc with rfl | hrest
    · have hfirst := h.1
      simp only [startsIdentifier, Bool.or_eq_true] at hfirst
      simp only [continuesIdentifier, Char.isAlphanum, Bool.or_eq_true]
      exact hfirst.imp .inl id
    · exact h.2 c hrest

/-- Identifiers hold no separator, which is why they can be told apart in a path. -/
theorem separator_not_mem_identifier {chars : List Char} (h : spellsIdentifier chars = true) :
    separator ∉ chars :=
  fun hmem => absurd (continues_of_mem_identifier h hmem) (by decide)

theorem newline_not_mem_identifier {chars : List Char} (h : spellsIdentifier chars = true) :
    '\n' ∉ chars :=
  fun hmem => absurd (continues_of_mem_identifier h hmem) (by decide)

/-- A name by itself is not qualified and is not recorded as used. -/
theorem isQualified_identifier {name : String} (h : isIdentifier name = true) :
    isQualified name = false :=
  isQualified_eq_false.mpr (separator_not_mem_identifier h)

/-- The parts spell the path, with or without a root. -/
structure Spells (path : String) (parts : List String) : Prop where
  ne_nil : parts ≠ []
  identifiers : ∀ part ∈ parts, isIdentifier part = true
  spelled : path = "\\".intercalate parts ∨ path = "\\" ++ "\\".intercalate parts

/-- A class path can be read: its identifiers are the pieces between its separators. -/
theorem exists_spells {path : String} (h : isClassPath path = true) :
    ∃ parts, Spells path parts := by
  have hjoin : "\\".intercalate (Text.pieces separator (String.ofList (unrooted path.toList)))
      = String.ofList (unrooted path.toList) := Text.intercalate_pieces rfl _
  refine ⟨Text.pieces separator (String.ofList (unrooted path.toList)), ?_, ?_, ?_⟩
  · exact Text.pieces_ne_nil _ _
  · intro part hpart
    obtain ⟨chars, hchars, rfl⟩ := List.mem_map.mp hpart
    rw [String.toList_ofList] at hchars
    rw [isIdentifier, String.toList_ofList]
    exact List.all_eq_true.mp h chars hchars
  · rw [hjoin]
    cases hl : path.toList with
    | nil =>
      left
      rw [unrooted, ← hl, String.ofList_toList]
    | cons c rest =>
      by_cases hc : c = separator
      · right
        rw [unrooted, if_pos hc]
        apply String.ext
        rw [hl, hc, String.toList_append]
        exact (congrArg (separator :: ·) String.toList_ofList).symm
      · left
        rw [unrooted, if_neg hc, ← hl, String.ofList_toList]

/-- A path begins with its first part. -/
theorem toList_intercalate_cons (part : String) (more : List String) :
    ∃ rest, ("\\".intercalate (part :: more)).toList = part.toList ++ rest ∧
      (more ≠ [] → separator ∈ rest) := by
  cases more with
  | nil =>
    refine ⟨[], ?_, fun h => absurd rfl h⟩
    rw [String.intercalate_singleton, List.append_nil]
  | cons next more =>
    refine ⟨"\\".toList ++ ("\\".intercalate (next :: more)).toList, ?_, fun _ => ?_⟩
    · rw [String.intercalate_cons_cons, String.toList_append, String.toList_append,
        List.append_assoc]
    · exact List.mem_append_left _ (by decide)

/-- Two parts have a separator between them. -/
theorem isQualified_intercalate {part : String} {more : List String}
    (h : isIdentifier part = true) :
    isQualified ("\\".intercalate (part :: more)) = true ↔ more ≠ [] := by
  constructor
  · rintro hq rfl
    rw [String.intercalate_singleton, isQualified_identifier h] at hq
    cases hq
  · intro hmore
    obtain ⟨rest, hlist, hsep⟩ := toList_intercalate_cons part more
    rw [isQualified, List.contains_iff_mem, hlist]
    exact List.mem_append_right _ (hsep hmore)

/-- Behind the root a path begins with an identifier, so that nothing more is dropped. -/
theorem dropWhile_intercalate {parts : List String} (hne : parts ≠ [])
    (hparts : ∀ part ∈ parts, isIdentifier part = true) :
    ("\\".intercalate parts).toList.dropWhile (· == separator)
      = ("\\".intercalate parts).toList := by
  cases parts with
  | nil => exact absurd rfl hne
  | cons part more =>
    obtain ⟨rest, hlist, _⟩ := toList_intercalate_cons part more
    have hpart : spellsIdentifier part.toList = true := hparts part (List.mem_cons_self ..)
    have hsep := separator_not_mem_identifier hpart
    rw [hlist]
    cases hl : part.toList with
    | nil =>
      rw [hl] at hpart
      cases hpart
    | cons c chars =>
      -- the first character of an identifier stops the dropping
      rw [hl] at hsep
      have hc : (c == separator) = false :=
        beq_eq_false_iff_ne.mpr fun he => hsep (he ▸ List.mem_cons_self ..)
      rw [List.cons_append, List.dropWhile_cons, hc]
      rfl

/-- A path without its root is its identifiers joined by separators. -/
theorem Spells.dropRoot_eq {path : String} {parts : List String} (h : Spells path parts) :
    dropRoot path = "\\".intercalate parts := by
  have hdrop := dropWhile_intercalate h.ne_nil h.identifiers
  rcases h.spelled with rfl | rfl
  · rw [dropRoot, Text.stripStart, hdrop, String.ofList_toList]
  · have hroot : ("\\" ++ "\\".intercalate parts).toList.dropWhile (· == separator)
        = ("\\".intercalate parts).toList := by
      rw [String.toList_append]
      exact hdrop
    rw [dropRoot, Text.stripStart, hroot, String.ofList_toList]

/-- Cutting a path behind its root gives its parts. -/
theorem Spells.splitOn_eq {path : String} {parts : List String} (h : Spells path parts) :
    ("\\".intercalate parts).toList.splitOn separator = parts.map String.toList := by
  have hfree : ∀ chars ∈ parts.map String.toList, separator ∉ chars := by
    intro chars hchars
    obtain ⟨part, hpart, rfl⟩ := List.mem_map.mp hchars
    exact separator_not_mem_identifier (h.identifiers part hpart)
  rw [String.toList_intercalate]
  exact List.splitOn_intercalate separator hfree fun hnil =>
    h.ne_nil (List.map_eq_nil_iff.mp hnil)

theorem unrooted_eq_self {chars : List Char} (h : chars.head? ≠ some separator) :
    unrooted chars = chars := by
  cases chars with
  | nil => rfl
  | cons c rest =>
    have hc : c ≠ separator := fun he => h (congrArg some he)
    rw [unrooted, if_neg hc]

/-- Taking one separator off the front leaves what taking off all of them leaves. -/
theorem Spells.unrooted_eq {path : String} {parts : List String} (h : Spells path parts) :
    unrooted path.toList = ("\\".intercalate parts).toList := by
  rcases h.spelled with hplain | hrooted
  · have hhead := head?_dropRoot path
    rw [h.dropRoot_eq] at hhead
    rw [hplain, unrooted_eq_self hhead]
  · have hroot : "\\".toList = [separator] := rfl
    rw [hrooted, String.toList_append, hroot, List.singleton_append, unrooted, if_pos rfl]

/-- What is spelled by identifiers is accepted as a class path, rooted or not. -/
theorem Spells.isClassPath {path : String} {parts : List String} (h : Spells path parts) :
    isClassPath path = true := by
  rw [Name.isClassPath, h.unrooted_eq, Text.piecesOf_eq_splitOn, h.splitOn_eq, List.all_map,
    List.all_eq_true]
  exact h.identifiers

/-- **Class paths are what identifiers spell**, with separators between them and perhaps one
in front. -/
theorem isClassPath_iff_exists_spells {path : String} :
    isClassPath path = true ↔ ∃ parts, Spells path parts :=
  ⟨exists_spells, fun ⟨_, h⟩ => h.isClassPath⟩

/-- An identifier is the one part of itself, with or without a root. -/
theorem spells_identifier {name path : String} (h : isIdentifier name = true)
    (hpath : path = name ∨ path = "\\" ++ name) : Spells path [name] := by
  refine ⟨List.cons_ne_nil _ _, ?_, ?_⟩
  · intro part hpart
    rw [List.mem_singleton.mp hpart]
    exact h
  · rw [String.intercalate_singleton]
    exact hpath

/-- The short name of a path is its last part. -/
theorem Spells.short_eq {path : String} {parts : List String} (h : Spells path parts) :
    short path = parts.getLast h.ne_nil := by
  rw [← short_dropRoot, h.dropRoot_eq, short_eq_lastPart, lastPart, h.splitOn_eq,
    List.getLastD_eq_getLast?, List.getLast?_map, List.getLast?_eq_some_getLast h.ne_nil]
  exact String.ofList_toList

/-- Shortening a class path leaves an identifier. -/
theorem isIdentifier_short {path : String} (h : isClassPath path = true) :
    isIdentifier (short path) = true := by
  obtain ⟨parts, hspells⟩ := exists_spells h
  rw [hspells.short_eq]
  exact hspells.identifiers _ (List.getLast_mem hspells.ne_nil)

/-- An identifier is a class path of one part. -/
theorem isClassPath_of_isIdentifier {name : String} (h : isIdentifier name = true) :
    isClassPath name = true :=
  (spells_identifier h (.inl rfl)).isClassPath

/-- A class path is made of separators and of characters of identifiers. -/
theorem not_mem_classPath {path : String} (h : isClassPath path = true) {c : Char}
    (hsep : c ≠ separator) (hc : continuesIdentifier c = false) : c ∉ path.toList := by
  obtain ⟨parts, hspells⟩ := exists_spells h
  have hglue : c ∉ "\\".toList := fun hmem => hsep (List.mem_singleton.mp hmem)
  have hjoined : c ∉ ("\\".intercalate parts).toList := by
    refine Text.not_mem_intercalate hglue ?_
    intro part hpart hmem
    rw [continues_of_mem_identifier (hspells.identifiers part hpart) hmem] at hc
    cases hc
  rcases hspells.spelled with rfl | rfl
  · exact hjoined
  · rw [String.toList_append, List.mem_append, not_or]
    exact ⟨hglue, hjoined⟩

/-- No class path holds a line end, so that it can stand on a line with others. -/
theorem newline_not_mem_classPath {path : String} (h : isClassPath path = true) :
    '\n' ∉ path.toList :=
  not_mem_classPath h (by decide) (by decide)

/-- One part behind a root: a rooted name of no namespace, which is qualified as it stands
and no longer is without its root. -/
def IsGlobal (path : String) : Prop := ∃ name, isIdentifier name = true ∧ path = "\\" ++ name

theorem dropRoot_global {path : String} (h : IsGlobal path) :
    isIdentifier (dropRoot path) = true := by
  obtain ⟨name, hname, rfl⟩ := h
  rw [(spells_identifier hname (.inr rfl)).dropRoot_eq, String.intercalate_singleton]
  exact hname

/-- Among the qualified class paths only the global ones need their root for it. -/
theorem isQualified_dropRoot_iff {path : String} (hpath : isClassPath path = true)
    (hq : isQualified path = true) : isQualified (dropRoot path) = true ↔ ¬ IsGlobal path := by
  constructor
  · intro hfull hglobal
    rw [isQualified_identifier (dropRoot_global hglobal)] at hfull
    cases hfull
  · intro hglobal
    obtain ⟨parts, hspells⟩ := exists_spells hpath
    rw [hspells.dropRoot_eq]
    cases parts with
    | nil => exact absurd rfl hspells.ne_nil
    | cons part more =>
      have hpart : isIdentifier part = true := hspells.identifiers part (List.mem_cons_self ..)
      refine (isQualified_intercalate hpart).mpr ?_
      rintro rfl
      -- a single part: without a root it is not qualified, with one it is global
      have hspelled := hspells.spelled
      rw [String.intercalate_singleton] at hspelled
      rcases hspelled with rfl | rfl
      · rw [isQualified_identifier hpart] at hq
        cases hq
      · exact hglobal ⟨part, hpart, rfl⟩

end ClassDraft.Name
