import ClassDraft.Text.Blank
import ClassDraft.Text.Pieces
import Mathlib.Data.List.TakeWhile

/-!
# Cutting text and putting it together again

What the other theories need to know about pieces and ends of texts. The pieces of
a text are those of `List.splitOn`, so joining them with the separator gives the
text back (`intercalate_pieces`), no piece holds a character that the text does not,
and none holds the separator; cutting a joined text gives the pieces of its parts
(`pieces_intercalate_flatMap`). What follows the last separator holds no separator, is the
whole text where there is none, and is not touched by stripping separators off the
start (`afterLast_stripStart`). Of joining, for lists as for texts: what a joined list
holds, and what becomes of it when its members are replaced (`flatMap_intercalate`).
-/

namespace ClassDraft.Text

/-- Cutting one character at a time is the split of the list library. -/
theorem piecesOf_eq_splitOn (sep : Char) (l : List Char) : piecesOf sep l = l.splitOn sep := by
  induction l with
  | nil => rfl
  | cons c rest ih =>
    -- both put a character into the first piece of the rest or begin a new piece
    rw [piecesOf, List.splitOn_cons_eq_if_modifyHead, ih]
    by_cases h : c = sep
    · rw [if_pos h, if_pos (beq_iff_eq.mpr h)]
    · rw [if_neg h, if_neg (fun hc => h (beq_iff_eq.mp hc))]
      cases hp : rest.splitOn sep with
      | nil => exact absurd hp (List.splitOn_ne_nil sep rest)
      | cons piece more => rfl

/-- Joining the pieces with the separator gives the text back. -/
theorem intercalate_pieces {sep : Char} {glue : String} (hglue : glue.toList = [sep])
    (s : String) : glue.intercalate (pieces sep s) = s := by
  apply String.ext
  have hmap : (pieces sep s).map String.toList = s.toList.splitOn sep := by
    rw [pieces, piecesOf_eq_splitOn, List.map_map]
    exact (List.map_congr_left fun _ _ => String.toList_ofList).trans (List.map_id _)
  rw [String.toList_intercalate, hmap, hglue, List.intercalate_splitOn]

theorem mem_of_mem_piecesOf {sep c : Char} :
    ∀ {l piece : List Char}, piece ∈ piecesOf sep l → c ∈ piece → c ∈ l := by
  intro l
  induction l with
  | nil =>
    intro piece hpiece hc
    rw [piecesOf, List.mem_singleton] at hpiece
    exact hpiece ▸ hc
  | cons d rest ih =>
    intro piece hpiece hc
    rw [piecesOf] at hpiece
    split at hpiece
    next =>
      rcases List.mem_cons.mp hpiece with rfl | hrest
      · cases hc
      · exact List.mem_cons_of_mem _ (ih hrest hc)
    next =>
      cases hp : piecesOf sep rest with
      | nil =>
        rw [hp, List.mem_singleton] at hpiece
        subst hpiece
        exact List.mem_cons.mpr (.inl (List.mem_singleton.mp hc))
      | cons first more =>
        -- the first piece of the rest grows by `d`, the others are as they were
        rw [hp] at hpiece ih
        rcases List.mem_cons.mp hpiece with rfl | hmore
        · rcases List.mem_cons.mp hc with rfl | hc
          · exact List.mem_cons_self ..
          · exact List.mem_cons_of_mem _ (ih (List.mem_cons_self ..) hc)
        · exact List.mem_cons_of_mem _ (ih (List.mem_cons_of_mem _ hmore) hc)

theorem mem_of_mem_pieces {sep c : Char} {s piece : String} (hpiece : piece ∈ pieces sep s)
    (hc : c ∈ piece.toList) : c ∈ s.toList := by
  obtain ⟨chars, hchars, rfl⟩ := List.mem_map.mp hpiece
  rw [String.toList_ofList] at hc
  exact mem_of_mem_piecesOf hchars hc

/-- What a text is cut at is in none of its pieces, so that the pieces cannot be cut
further. -/
theorem not_mem_of_mem_piecesOf {sep : Char} :
    ∀ {l piece : List Char}, piece ∈ piecesOf sep l → sep ∉ piece := by
  intro l
  induction l with
  | nil =>
    intro piece hpiece
    rw [piecesOf, List.mem_singleton] at hpiece
    simp [hpiece]
  | cons d rest ih =>
    intro piece hpiece
    rw [piecesOf] at hpiece
    split at hpiece
    next =>
      rcases List.mem_cons.mp hpiece with rfl | hrest
      · exact List.not_mem_nil
      · exact ih hrest
    next hd =>
      cases hp : piecesOf sep rest with
      | nil =>
        rw [hp, List.mem_singleton] at hpiece
        simpa [hpiece] using Ne.symm hd
      | cons first more =>
        rw [hp] at hpiece ih
        rcases List.mem_cons.mp hpiece with rfl | hmore
        · have hfirst := ih (List.mem_cons_self ..)
          simpa [hfirst] using Ne.symm hd
        · exact ih (List.mem_cons_of_mem _ hmore)

/-- No piece holds the separator. -/
theorem not_mem_of_mem_pieces {sep : Char} {s piece : String} (h : piece ∈ pieces sep s) :
    sep ∉ piece.toList := by
  obtain ⟨chars, hchars, rfl⟩ := List.mem_map.mp h
  rw [String.toList_ofList]
  exact not_mem_of_mem_piecesOf hchars

/-- There is always a first piece: the empty text has one, and it is empty. -/
theorem pieces_ne_nil (sep : Char) (s : String) : pieces sep s ≠ [] := by
  rw [pieces, piecesOf_eq_splitOn]
  exact fun hnil => List.splitOn_ne_nil _ _ (List.map_eq_nil_iff.mp hnil)

/-- A text without the separator is one piece. -/
theorem pieces_eq_singleton {sep : Char} {s : String} (h : sep ∉ s.toList) :
    pieces sep s = [s] := by
  rw [pieces, piecesOf_eq_splitOn, List.splitOn_eq_singleton h, List.map_singleton,
    String.ofList_toList]

/-- A text is cut at a separator into the pieces before it and those behind it. -/
theorem pieces_append {sep : Char} {glue : String} (hglue : glue.toList = [sep]) (s t : String) :
    pieces sep (s ++ glue ++ t) = pieces sep s ++ pieces sep t := by
  have hlist : (s ++ glue ++ t).toList = s.toList ++ sep :: t.toList := by
    rw [String.toList_append, String.toList_append, hglue, List.append_assoc,
      List.singleton_append]
  rw [pieces, hlist, piecesOf_eq_splitOn, List.splitOn_append_cons_self, List.map_append,
    ← piecesOf_eq_splitOn, ← piecesOf_eq_splitOn, ← pieces, ← pieces]

/-- Cutting joined texts gives the pieces of each of them in turn, if there is one. -/
theorem pieces_intercalate_flatMap {sep : Char} {glue : String} (hglue : glue.toList = [sep])
    {texts : List String} (hne : texts ≠ []) :
    pieces sep (glue.intercalate texts) = texts.flatMap (pieces sep) := by
  induction texts with
  | nil => exact absurd rfl hne
  | cons first rest ih =>
    by_cases hrest : rest = []
    · rw [hrest, String.intercalate_singleton, List.flatMap_singleton]
    · rw [String.intercalate_cons_of_ne_nil hrest, pieces_append hglue, ih hrest,
        List.flatMap_cons]

/-- Texts without the separator are their own pieces. -/
theorem flatMap_pieces_eq_self {sep : Char} {parts : List String}
    (hfree : ∀ part ∈ parts, sep ∉ part.toList) : parts.flatMap (pieces sep) = parts := by
  have hwhole : ∀ part ∈ parts, pieces sep part = [part] := fun part hpart =>
    pieces_eq_singleton (hfree part hpart)
  rw [List.flatMap_def, List.map_congr_left hwhole, ← List.flatMap_def, List.flatMap_singleton']

/-- Cutting a joined text gives back the parts, if there is one and none of them holds the
separator. -/
theorem pieces_intercalate {sep : Char} {glue : String} (hglue : glue.toList = [sep])
    {parts : List String} (hne : parts ≠ []) (hfree : ∀ part ∈ parts, sep ∉ part.toList) :
    pieces sep (glue.intercalate parts) = parts := by
  rw [pieces_intercalate_flatMap hglue hne, flatMap_pieces_eq_self hfree]

/-- Joining the texts of several lists at once is joining each list and then the results. No
list may be empty, for it would leave an empty text to be joined. -/
theorem intercalate_flatMap {α : Type} {glue : String} {f : α → List String}
    (hne : ∀ a, f a ≠ []) (l : List α) :
    glue.intercalate (l.flatMap f) = glue.intercalate (l.map fun a => glue.intercalate (f a)) := by
  induction l with
  | nil => rfl
  | cons a rest ih =>
    rw [List.flatMap_cons, List.map_cons]
    cases rest with
    | nil => rw [List.flatMap_nil, List.append_nil, List.map_nil, String.intercalate_singleton]
    | cons b more =>
      have hmore : (b :: more).flatMap f ≠ [] := by
        rw [List.flatMap_cons]
        exact fun h => hne b (List.append_eq_nil_iff.mp h).1
      rw [String.intercalate_append_of_ne_nil (hne a) hmore, ih, List.map_cons,
        String.intercalate_cons_of_ne_nil (List.cons_ne_nil _ _)]

/-- A joined list holds only members of the glue and of the parts. -/
theorem mem_of_mem_listIntercalate {α : Type} {a : α} {glue : List α} :
    ∀ {parts : List (List α)}, a ∈ glue.intercalate parts → a ∈ glue ∨ ∃ part ∈ parts, a ∈ part
  | [], h => by
    rw [List.intercalate_nil] at h
    cases h
  | [part], h => by
    rw [List.intercalate_singleton] at h
    exact .inr ⟨part, List.mem_cons_self .., h⟩
  | part :: next :: more, h => by
    rw [List.intercalate_cons_cons, List.mem_append, List.mem_append] at h
    rcases h with (hpart | hglue) | hrest
    · exact .inr ⟨part, List.mem_cons_self .., hpart⟩
    · exact .inl hglue
    · rcases mem_of_mem_listIntercalate hrest with hglue | ⟨other, hother, ha⟩
      · exact .inl hglue
      · exact .inr ⟨other, List.mem_cons_of_mem _ hother, ha⟩

/-- Replacing each member of a joined list replaces it in the glue and in the parts. -/
theorem flatMap_intercalate {α β : Type} (f : α → List β) (glue : List α) :
    ∀ parts : List (List α), (glue.intercalate parts).flatMap f
      = (glue.flatMap f).intercalate (parts.map (·.flatMap f))
  | [] => rfl
  | [part] => by simp
  | part :: next :: more => by
    have ih := flatMap_intercalate f glue (next :: more)
    simp only [List.map_cons] at ih ⊢
    rw [List.intercalate_cons_cons, List.intercalate_cons_cons, List.flatMap_append,
      List.flatMap_append, ih]

/-- A joined text holds only characters of the glue and of the parts. -/
theorem mem_of_mem_intercalate {glue : String} {c : Char} {parts : List String}
    (h : c ∈ (glue.intercalate parts).toList) :
    c ∈ glue.toList ∨ ∃ part ∈ parts, c ∈ part.toList := by
  rw [String.toList_intercalate] at h
  rcases mem_of_mem_listIntercalate h with hglue | ⟨chars, hchars, hc⟩
  · exact .inl hglue
  · obtain ⟨part, hpart, rfl⟩ := List.mem_map.mp hchars
    exact .inr ⟨part, hpart, hc⟩

/-- A joined text is free of a character if the parts and the glue are. -/
theorem not_mem_intercalate {glue : String} {c : Char} {parts : List String}
    (hglue : c ∉ glue.toList) (hparts : ∀ part ∈ parts, c ∉ part.toList) :
    c ∉ (glue.intercalate parts).toList := by
  intro hmem
  rcases mem_of_mem_intercalate hmem with hin | ⟨part, hpart, hin⟩
  · exact hglue hin
  · exact hparts part hpart hin

theorem not_mem_afterLast (sep : Char) (s : String) : sep ∉ (afterLast sep s).toList := by
  intro h
  rw [afterLast, String.toList_ofList, List.mem_reverse] at h
  simpa using List.mem_takeWhile_imp h

theorem afterLast_eq_self {sep : Char} {s : String} (h : sep ∉ s.toList) :
    afterLast sep s = s := by
  have hall : ∀ c ∈ s.toList.reverse, (c != sep) = true := by
    intro c hc
    have hne : c ≠ sep := fun he => h (he ▸ List.mem_reverse.mp hc)
    exact bne_iff_ne.mpr hne
  rw [afterLast, List.takeWhile_eq_self_iff.mpr hall, List.reverse_reverse, String.ofList_toList]

/-- Taking from the front stops inside `xs` where nothing of `ys` would be taken. -/
theorem takeWhile_append_eq_left {p : Char → Bool} {ys : List Char} (hys : ys.takeWhile p = []) :
    ∀ xs : List Char, (xs ++ ys).takeWhile p = xs.takeWhile p := by
  intro xs
  induction xs with
  | nil => exact hys
  | cons c rest ih =>
    rw [List.cons_append, List.takeWhile_cons, List.takeWhile_cons, ih]

/-- Looking for the last separator from behind gives what cutting at all of them gives as
the last piece. -/
theorem afterLast_eq_getLastD (sep : Char) (s : String) :
    afterLast sep s = String.ofList ((s.toList.splitOn sep).getLastD []) := by
  by_cases h : sep ∈ s.toList
  · -- cut at the last occurrence, which is the first one from behind
    obtain ⟨behind, before, hcut, hfree⟩ := List.eq_append_cons_of_mem (List.mem_reverse.mpr h)
    have hl : s.toList = before.reverse ++ sep :: behind.reverse := by
      rw [← List.reverse_reverse s.toList, hcut]
      simp
    have hall : ∀ c ∈ behind, (c != sep) = true := by
      intro c hc
      have hne : c ≠ sep := fun he => hfree (he ▸ hc)
      exact bne_iff_ne.mpr hne
    have hstop : (sep :: before).takeWhile (· != sep) = [] := by
      rw [List.takeWhile_cons, bne_self_eq_false]
      rfl
    have hlast : behind.reverse.splitOn sep = [behind.reverse] :=
      List.splitOn_eq_singleton (by simpa using hfree)
    rw [afterLast, hcut, takeWhile_append_eq_left hstop, List.takeWhile_eq_self_iff.mpr hall,
      hl, List.splitOn_append_cons_self, hlast, List.getLastD_concat]
  · rw [afterLast_eq_self h, List.splitOn_eq_singleton h]
    exact String.ofList_toList.symm

/-- Behind a separator, a rest without one is what follows the last. -/
theorem afterLast_eq_of_cut {sep : Char} {s : String} {front back : List Char}
    (hcut : s.toList = front ++ sep :: back) (hfree : sep ∉ back) :
    afterLast sep s = String.ofList back := by
  rw [afterLast_eq_getLastD, hcut, List.splitOn_append_cons_self, List.splitOn_eq_singleton hfree,
    List.getLastD_concat]

/-- Separators at the start of a text have no part in what follows the last one. -/
theorem afterLast_stripStart (sep : Char) (s : String) :
    afterLast sep (stripStart (· == sep) s) = afterLast sep s := by
  -- from behind, the run that is stripped comes last and starts with a separator
  have hlead : (s.toList.takeWhile (· == sep)).reverse.takeWhile (· != sep) = [] := by
    cases hl : (s.toList.takeWhile (· == sep)).reverse with
    | nil => rfl
    | cons c rest =>
      have hc : c ∈ s.toList.takeWhile (· == sep) := by
        rw [← List.mem_reverse, hl]
        exact List.mem_cons_self ..
      have hsep : c = sep := by simpa using List.mem_takeWhile_imp hc
      rw [List.takeWhile_cons, hsep, bne_self_eq_false]
      rfl
  have hsplit : s.toList.reverse = (s.toList.dropWhile (· == sep)).reverse
      ++ (s.toList.takeWhile (· == sep)).reverse := by
    rw [← List.reverse_append, List.takeWhile_append_dropWhile]
  rw [afterLast, afterLast, stripStart, String.toList_ofList, hsplit,
    takeWhile_append_eq_left hlead]

/-- Lines that are each closed by a line end are the joined lines and one line end. -/
theorem join_closed {lines : List String} (h : lines ≠ []) :
    String.join (lines.map (· ++ "\n")) = "\n".intercalate lines ++ "\n" := by
  induction lines with
  | nil => exact absurd rfl h
  | cons first rest ih =>
    rw [List.map_cons, String.join_cons]
    by_cases hrest : rest = []
    · simp [hrest, String.join_nil, String.intercalate_singleton]
    · rw [ih hrest, String.intercalate_cons_of_ne_nil hrest, String.append_assoc,
        String.append_assoc, String.append_assoc]

end ClassDraft.Text
