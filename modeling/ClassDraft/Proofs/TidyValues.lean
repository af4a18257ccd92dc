import ClassDraft.Proofs.QuotedArray

/-!
# Values that are tidied once

Tidying a value has several stages, and each could undo what an earlier one achieved: what is
left of a quoted text might be in quotes again, and what is left after a removal might begin or
end with a blank. **None does, so that tidying a value twice is tidying it once**
(`render_projection`). What is printed for an array begins and ends with its brackets, whatever
was taken out between them, and a bracket is neither a blank nor a quote.

The quotes of an array are cut off by character here. `tidyBytes?` cuts them off by offsets into
the encoded text, where a cut can fail: an offset may lie outside of the text or inside a
character. Both quotes are one byte wide and stand at the ends, so it never does.
-/

namespace ClassDraft

/-! ## Ends of trimmed texts -/

namespace Text

def startsBlank (s : String) : Bool := s.toList.head?.any isBlank

theorem startsBlank_trim (s : String) : startsBlank (trim s) = false := by
  rw [startsBlank, trim, trimStart, toList_stripStart]
  by_cases hempty : (trimEnd s).toList.dropWhile isBlank = []
  · rw [hempty]
    rfl
  · rw [List.head?_eq_some_head hempty, Option.any_some]
    exact List.head_dropWhile_not isBlank hempty

/-- Taking blanks off at the beginning does not bring any to the end. -/
theorem endsBlank_trim (s : String) : endsBlank (trim s) = false := by
  by_cases hempty : trim s = ""
  · rw [hempty]
    rfl
  · -- what is trimmed off the start has no part in how the text ends
    have hcut : trimEnd s = String.ofList ((trimEnd s).toList.takeWhile isBlank) ++ trim s := by
      apply String.ext
      rw [String.toList_append, String.toList_ofList, trim, trimStart, toList_stripStart,
        List.takeWhile_append_dropWhile]
    rw [← endsBlank_append hempty, ← hcut]
    exact endsBlank_trimEnd s

/-- The last character stays, since nothing follows on it. -/
theorem getLast?_dropBefore (x y : Char) (l : List Char) :
    (dropBefore x y l).getLast? = l.getLast? := by
  fun_induction dropBefore x y l with
  | case1 => rfl
  | case2 c => rfl
  | case3 c d rest hpair ih =>
    rw [List.getLast?_cons_cons, List.getLast?_cons, ih, List.getLast?_cons, hpair.2]
  | case4 c d rest hpair ih =>
    rw [List.getLast?_cons_cons, List.getLast?_cons, ih, List.getLast?_cons]
    rfl

/-! ## Cutting at byte offsets -/

/-- The part of a text from the byte `first` up to but not including the byte `last` of its
encoding. There is none if they are out of order, or if one of them lies outside of the text or
inside a character. -/
def slice? (s : String) (first last : Nat) : Option String :=
  if h : first ≤ last ∧ (⟨first⟩ : String.Pos.Raw).IsValid s ∧
      (⟨last⟩ : String.Pos.Raw).IsValid s then
    some (String.extract (s.pos ⟨first⟩ h.2.1) (s.pos ⟨last⟩ h.2.2))
  else none

theorem slice?_append (front middle back : String) :
    slice? (front ++ middle ++ back) front.utf8ByteSize
      (front.utf8ByteSize + middle.utf8ByteSize) = some middle := by
  have hfirst : (⟨front.utf8ByteSize⟩ : String.Pos.Raw).IsValid (front ++ middle ++ back) := by
    rw [String.append_assoc]
    exact String.Pos.Raw.isValid_rawEndPos.append_right _
  have hlast : (⟨front.utf8ByteSize + middle.utf8ByteSize⟩ : String.Pos.Raw).IsValid
      (front ++ middle ++ back) := by
    rw [← String.utf8ByteSize_append]
    exact String.Pos.Raw.isValid_rawEndPos.append_right _
  have hstart : (String.pos _ _ hfirst).Splits front (middle ++ back) :=
    ⟨String.append_assoc, rfl⟩
  have hstop : (String.pos _ _ hlast).Splits (front ++ middle) back := by
    refine ⟨rfl, String.Pos.Raw.ext ?_⟩
    exact String.utf8ByteSize_append.symm
  obtain ⟨hle, hcopy⟩ := String.copy_slice_eq_iff_splits.mpr ⟨front, back, hstart, hstop⟩
  rw [slice?, dif_pos ⟨Nat.le_add_right _ _, hfirst, hlast⟩, String.extract_eq_copy_slice _ _ hle,
    hcopy]

/-- The second character takes up two bytes. -/
example : slice? "aé" 1 3 = some "é" ∧ slice? "aé" 1 2 = none ∧ slice? "aé" 1 4 = none := by
  decide

end Text

namespace Initializer

/-! ## Arrays in quotes -/

/-- The marks at the two ends of an array in quotes do not overlap. -/
theorem exists_quoted {s : String} (hstart : Statement.startsWith s "'[" = true)
    (hend : Statement.endsWith s "]'" = true) : ∃ contents, s = "'[" ++ contents ++ "]'" := by
  obtain ⟨rest, hrest⟩ := Statement.startsWith_iff.mp hstart
  have hsuffix := Statement.endsWith_iff.mp hend
  rw [← hrest] at hsuffix
  -- the closing mark begins with a bracket of its own, so it stands behind the opening one
  have hbehind : "]'".toList <:+ rest := by
    rcases List.suffix_cons_iff.mp hsuffix with heq | hsuffix
    · cases heq
    · rcases List.suffix_cons_iff.mp hsuffix with heq | hsuffix
      · cases heq
      · exact hsuffix
  obtain ⟨contents, hcontents⟩ := hbehind
  refine ⟨String.ofList contents, String.ext ?_⟩
  simp [← hrest, ← hcontents]

/-- Two characters at each end are enough to tell a quoted array; that they do not overlap
follows from what they are. -/
theorem isQuotedArray_iff {s : String} : isQuotedArray s = true ↔
    Statement.startsWith s "'[" = true ∧ Statement.endsWith s "]'" = true := by
  constructor
  · intro h
    rw [isQuotedArray, Bool.and_eq_true, Bool.and_eq_true] at h
    exact ⟨h.1.2, h.2⟩
  · rintro ⟨hstart, hend⟩
    obtain ⟨contents, rfl⟩ := exists_quoted hstart hend
    exact isQuotedArray_quoted contents

/-! ## Tidy texts -/

/-- A text on which no stage of tidying has anything to do, and which no stage would take
for one of the quoted forms. -/
structure IsTidy (s : String) : Prop where
  start : Text.startsBlank s = false
  stop : Text.endsBlank s = false
  notNull : s ≠ "\"null\""
  notQuoted : ¬ (Statement.startsWith s "'[" = true ∧ Statement.endsWith s "]'" = true)

/-- What is tidy is left as it is. -/
theorem IsTidy.tidy_eq_self {s : String} (h : IsTidy s) : tidy s = s := by
  have hquoted : ¬ isQuotedArray s = true := fun hquoted =>
    h.notQuoted (isQuotedArray_iff.mp hquoted)
  rw [tidy, Text.trim_eq_self h.start h.stop, if_neg h.notNull, if_neg hquoted]

theorem isTidy_null : IsTidy "null" := ⟨by decide, by decide, by decide, by decide⟩

/-- A text in brackets is tidy, whatever stands between them. -/
theorem isTidy_brackets {l : List Char} (h : l.getLast? = some ']') :
    IsTidy ("[" ++ String.ofList l) := by
  have hlist : ("[" ++ String.ofList l).toList = '[' :: l := by simp
  refine ⟨?_, ?_, ?_, ?_⟩
  · rw [Text.startsBlank, hlist]
    rfl
  · rw [Text.endsBlank, hlist, List.getLast?_cons, h]
    rfl
  · intro heq
    rw [heq] at hlist
    cases hlist
  · rintro ⟨hquote, _⟩
    rw [Statement.startsWith_iff, hlist] at hquote
    exact absurd (List.cons_prefix_cons.mp hquote).1 (by decide)

/-- **What was tidied is tidy**, in each of the three cases. -/
theorem isTidy_tidy (text : String) : IsTidy (tidy text) := by
  unfold tidy
  dsimp only
  split
  next => exact isTidy_null
  next hnull =>
    split
    next hquoted =>
      obtain ⟨hstart, hend⟩ := isQuotedArray_iff.mp hquoted
      obtain ⟨contents, hcontents⟩ := exists_quoted hstart hend
      rw [hcontents, unquoteArray_quoted]
      -- the spaces that go stand before brackets, and the last bracket stays
      apply isTidy_brackets
      rw [Text.getLast?_dropBefore, List.getLast?_concat]
    next hquoted =>
      exact ⟨Text.startsBlank_trim text, Text.endsBlank_trim text, hnull,
        fun hmarks => hquoted (isQuotedArray_iff.mpr hmarks)⟩

theorem isTidy_render (v : Initializer) : IsTidy v.render := by
  cases v with
  | null => exact isTidy_null
  | literal text => exact isTidy_tidy text

/-! ## Tidying by byte offsets -/

/-- Tidying with lengths and offsets in bytes: of an array in quotes, the part between its first
byte and its last is taken, if these are characters of their own. -/
def tidyBytes? (text : String) : Option String :=
  let text := Text.trim text
  if text = "\"null\"" then some "null"
  else if 4 ≤ text.utf8ByteSize ∧ Statement.startsWith text "'[" = true ∧
      Statement.endsWith text "]'" = true then
    (Text.slice? text 1 (text.utf8ByteSize - 1)).map fun inner =>
      String.ofList (Text.dropBefore ' ' ']' (Text.trimEnd inner).toList)
  else some text

/-- The text of an initial value, computed by byte offsets as `tidyBytes?` does. -/
def renderBytes? : Initializer → Option String
  | null => some "null"
  | literal text => tidyBytes? text

theorem utf8ByteSize_quoted (contents : String) :
    ("'[" ++ contents ++ "]'").utf8ByteSize = contents.utf8ByteSize + 4 := by
  have hopening : "'[".utf8ByteSize = 2 := by decide
  have hclosing : "]'".utf8ByteSize = 2 := by decide
  rw [String.utf8ByteSize_append, String.utf8ByteSize_append, hopening, hclosing]
  omega

/-- The quotes of an array are its first byte and its last. -/
theorem slice?_quoted (contents : String) :
    Text.slice? ("'[" ++ contents ++ "]'") 1 (("'[" ++ contents ++ "]'").utf8ByteSize - 1)
      = some ("[" ++ contents ++ "]") := by
  have hquotes : "'[" ++ contents ++ "]'" = "'" ++ ("[" ++ contents ++ "]") ++ "'" := by
    apply String.ext
    simp
  have hsize : ("'[" ++ contents ++ "]'").utf8ByteSize - 1
      = "'".utf8ByteSize + ("[" ++ contents ++ "]").utf8ByteSize := by
    have hquote : "'".utf8ByteSize = 1 := by decide
    have hopening : "[".utf8ByteSize = 1 := by decide
    have hclosing : "]".utf8ByteSize = 1 := by decide
    rw [utf8ByteSize_quoted, String.utf8ByteSize_append, String.utf8ByteSize_append, hquote,
      hopening, hclosing]
    omega
  rw [hsize, hquotes]
  exact Text.slice?_append "'" ("[" ++ contents ++ "]") "'"

/-- The offsets always fall between characters, since those that are cut off take one byte
each. So there always is a result, and it is the tidied text. -/
theorem tidyBytes?_eq (text : String) : tidyBytes? text = some (tidy text) := by
  unfold tidyBytes? tidy
  dsimp only
  split
  next => rfl
  next =>
    by_cases hquoted : isQuotedArray (Text.trim text) = true
    · obtain ⟨hstart, hend⟩ := isQuotedArray_iff.mp hquoted
      obtain ⟨contents, hcontents⟩ := exists_quoted hstart hend
      have hsize : 4 ≤ (Text.trim text).utf8ByteSize := by
        rw [hcontents, utf8ByteSize_quoted]
        omega
      rw [if_pos ⟨hsize, hstart, hend⟩, if_pos hquoted, hcontents, slice?_quoted, unquoteArray,
        inner_quoted]
      rfl
    · rw [if_neg fun h => hquoted (isQuotedArray_iff.mpr h.2), if_neg hquoted]

theorem renderBytes?_eq (v : Initializer) : v.renderBytes? = some v.render := by
  cases v with
  | null => rfl
  | literal text => exact tidyBytes?_eq text

/-- **Tidying is a projection.** What is printed for a value is printed for itself. It neither
begins nor ends with a blank, is not the keyword in double quotes, and is no array in single
quotes. Cutting by bytes gives the same text, so that no cut falls outside of it or inside a
character. -/
theorem render_projection (v : Initializer) :
    (literal v.render).render = v.render ∧
    Text.startsBlank v.render = false ∧ Text.endsBlank v.render = false ∧
    v.render ≠ "\"null\"" ∧
    ¬ (Statement.startsWith v.render "'[" = true ∧ Statement.endsWith v.render "]'" = true) ∧
    v.renderBytes? = some v.render := by
  have htidy := isTidy_render v
  exact ⟨htidy.tidy_eq_self, htidy.start, htidy.stop, htidy.notNull, htidy.notQuoted,
    renderBytes?_eq v⟩

/-- Quotes around quotes stay, and so does what is left of two spaces before a bracket. -/
example : (literal " ''[1]'' ").render = "''[1]''" ∧ (literal "'['é'  ]'").render = "['é' ]" := by
  decide +kernel

end Initializer

end ClassDraft
