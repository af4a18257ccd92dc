import ClassDraft.Proofs.TrailingBlanks

/-!
# The terminator of a line

A statement is written with one semicolon at its end, however many it came with. What kind of
line it is was read off its first and its last characters, and the last ones are those that
change. So it has to be seen that the line is still of its kind afterwards.

Stripping a text leaves a part of it behind which only characters of the stripped class stand
(`Text.Extends`), and two texts that differ in such a tail only are stripped alike
(`Text.stripEnd_of_extends`). A plain line is its core and semicolons, before and after. **That
it ends in a semicolon keeps it from being a block, and no mark at the start of a comment holds
one**, so that such a mark stands in the core and stood there before. Hence a terminated line is
terminated already (`Statement.terminate_stable`).
-/

namespace ClassDraft

/-! ## Texts that differ in their tails -/

namespace Text

/-- The text `long` is `short` and then characters of the class `p`. -/
def Extends (p : Char → Bool) (short long : String) : Prop :=
  ∃ tail : String, (∀ c ∈ tail.toList, p c = true) ∧ long = short ++ tail

theorem Extends.mono {p q : Char → Bool} {short long : String} (h : Extends q short long)
    (hclass : ∀ c, q c = true → p c = true) : Extends p short long := by
  obtain ⟨tail, htail, hlong⟩ := h
  exact ⟨tail, fun c hc => hclass c (htail c hc), hlong⟩

/-- What is stripped is all of the class, and stands at the end. -/
theorem extends_stripEnd (p : Char → Bool) (s : String) : Extends p (stripEnd p s) s := by
  refine ⟨String.ofList (s.toList.rtakeWhile p), ?_, ?_⟩
  · intro c hc
    rw [String.toList_ofList] at hc
    exact List.mem_rtakeWhile_imp hc
  · apply String.ext
    rw [String.toList_append, toList_stripEnd, String.toList_ofList]
    exact List.rdropWhile_append_rtakeWhile.symm

/-- A tail of the stripped class makes no difference. -/
theorem stripEnd_of_extends {p : Char → Bool} {short long : String} (h : Extends p short long) :
    stripEnd p long = stripEnd p short := by
  obtain ⟨tail, htail, rfl⟩ := h
  have hreverse : ∀ c ∈ tail.toList.reverse, p c = true := fun c hc =>
    htail c (List.mem_reverse.mp hc)
  apply String.ext
  rw [toList_stripEnd, toList_stripEnd, String.toList_append, List.rdropWhile,
    List.reverse_append, List.dropWhile_append_of_pos hreverse, List.rdropWhile]

/-- A semicolon at the end makes no difference where semicolons are stripped. -/
theorem stripEnd_append_semicolon {p : Char → Bool} (h : p ';' = true) (s : String) :
    stripEnd p (s ++ ";") = stripEnd p s := by
  refine stripEnd_of_extends ⟨";", ?_, rfl⟩
  intro c hc
  have hchar : c = ';' := List.mem_singleton.mp hc
  rw [hchar]
  exact h

/-- A smaller class can be stripped first. -/
theorem stripEnd_stripEnd {p q : Char → Bool} (hclass : ∀ c, q c = true → p c = true)
    (s : String) : stripEnd p (stripEnd q s) = stripEnd p s :=
  (stripEnd_of_extends ((extends_stripEnd q s).mono hclass)).symm

theorem trimEnd_trimEnd (s : String) : trimEnd (trimEnd s) = trimEnd s :=
  stripEnd_stripEnd (fun _ hc => hc) s

theorem trim_trimEnd (s : String) : trim (trimEnd s) = trim s :=
  congrArg trimStart (trimEnd_trimEnd s)

theorem trimEnd_eq_self {s : String} (h : endsBlank s = false) : trimEnd s = s := by
  apply String.ext
  rw [trimEnd, toList_stripEnd, List.rdropWhile_eq_self_iff]
  intro hne
  rw [endsBlank, List.getLast?_eq_some_getLast hne, Option.any_some] at h
  exact Bool.eq_false_iff.mp h

theorem trim_eq_self {s : String} (hstart : s.toList.head?.any isBlank = false)
    (hend : endsBlank s = false) : trim s = s := by
  rw [trim, trimEnd_eq_self hend]
  apply String.ext
  rw [trimStart, toList_stripStart]
  cases hl : s.toList with
  | nil => rfl
  | cons c rest =>
    rw [hl, List.head?_cons, Option.any_some] at hstart
    rw [List.dropWhile_cons, hstart]
    rfl

/-- Semicolons stop the trim at the start, also where all before them is blank. -/
theorem trimStart_append_semicolons (s : String) {tail : String}
    (h : ∀ c ∈ tail.toList, c = ';') : trimStart (s ++ tail) = trimStart s ++ tail := by
  have htail : tail.toList.dropWhile isBlank = tail.toList := by
    cases ht : tail.toList with
    | nil => rfl
    | cons c rest =>
      have hc : c = ';' := h c (ht ▸ List.mem_cons_self ..)
      rw [hc]
      rfl
  apply String.ext
  rw [String.toList_append, trimStart, trimStart, toList_stripStart, toList_stripStart,
    String.toList_append, List.dropWhile_append]
  split
  next hempty => rw [htail, List.isEmpty_iff.mp hempty, List.nil_append]
  next => rfl

/-- A text of which no trim leaves anything is gone after the first. -/
theorem trimEnd_eq_empty {s : String} (h : trim s = "") : trimEnd s = "" := by
  have hall : ∀ c ∈ (trimEnd s).toList, isBlank c = true := by
    rw [← List.dropWhile_eq_nil_iff, ← toList_stripStart, ← trimStart, ← trim, h]
    rfl
  apply String.ext
  by_contra hne
  have hlast := endsBlank_trimEnd s
  rw [endsBlank, List.getLast?_eq_some_getLast hne, Option.any_some,
    hall _ (List.getLast_mem hne)] at hlast
  cases hlast

end Text

/-! ## Marks beside a semicolon -/

namespace Statement

theorem startsWith_iff {s start : String} :
    startsWith s start = true ↔ start.toList <+: s.toList :=
  List.isPrefixOf_iff_prefix

theorem endsWith_iff {s stop : String} : endsWith s stop = true ↔ stop.toList <:+ s.toList :=
  List.isSuffixOf_iff_suffix

/-- A mark without a semicolon does not stand at the end of a text that ends in one. -/
theorem endsWith_semicolon {mark : String} (hne : mark ≠ "") (hfree : ';' ∉ mark.toList)
    (s : String) : endsWith (s ++ ";") mark = false := by
  apply Bool.eq_false_iff.mpr
  intro hends
  rw [endsWith_iff, String.toList_append] at hends
  rcases List.suffix_concat_iff.mp hends with hnil | ⟨front, hmark, _⟩
  · exact hne (String.ext hnil)
  · exact hfree (by rw [hmark]; exact List.mem_append_right _ (List.mem_singleton_self _))

/-- A mark without a semicolon that starts a text starts it also if its end is cut off at a
semicolon and replaced. -/
theorem startsWith_append_of_semicolon {s mark : String} (hfree : ';' ∉ mark.toList)
    (h : startsWith (s ++ ";") mark = true) (t : String) : startsWith (s ++ t) mark = true := by
  rw [startsWith_iff, String.toList_append] at h ⊢
  rcases List.prefix_concat_iff.mp h with hwhole | hstart
  · exact absurd (by rw [hwhole]; exact List.mem_append_right _ (List.mem_singleton_self _)) hfree
  · exact hstart.trans (List.prefix_append _ _)

/-! ## Kinds of lines -/

/-- The kind of a line is that of its trimmed text. -/
theorem kind_of_trim_eq {line other : String} (h : Text.trim line = Text.trim other) :
    kind line = kind other := by
  have hblock : isBlock line = isBlock other := by rw [isBlock, h, isBlock]
  have hcomment : isComment line = isComment other := by rw [isComment, h, isComment]
  rw [kind, h, hblock, hcomment, kind]

theorem kind_trimEnd (line : String) : kind (Text.trimEnd line) = kind line :=
  kind_of_trim_eq (Text.trim_trimEnd line)

theorem kind_eq_empty_iff {line : String} : kind line = .empty ↔ Text.trim line = "" := by
  unfold kind
  by_cases hempty : Text.trim line = ""
  · simp [hempty]
  · cases isBlock line <;> cases isComment line <;> simp [hempty]

/-- A line is plain if it is none of the others. -/
theorem kind_eq_plain_iff {line : String} : kind line = .plain ↔
    Text.trim line ≠ "" ∧ isBlock line = false ∧ isComment line = false := by
  unfold kind
  by_cases hempty : Text.trim line = ""
  · simp [hempty]
  · cases isBlock line <;> cases isComment line <;> simp [hempty]

/-- A line that ends in a semicolon opens no block. -/
theorem isBlock_of_semicolon {line core : String} (h : Text.trim line = core ++ ";") :
    isBlock line = false := by
  have hclear : ∀ mark ∈ ["\x7b", "\x7d", ":", "(", ")"], mark ≠ "" ∧ ';' ∉ mark.toList := by
    decide
  have hends : ∀ mark ∈ ["\x7b", "\x7d", ":", "(", ")"], endsWith (core ++ ";") mark = false :=
    fun mark hmark => endsWith_semicolon (hclear mark hmark).1 (hclear mark hmark).2 core
  simp only [List.forall_mem_cons] at hends
  unfold isBlock
  simp [h, hends]

/-- A mark that makes a comment of a line that ends in a semicolon stands in front of it. -/
theorem isComment_of_semicolon {line other core tail : String} (h : Text.trim line = core ++ ";")
    (hother : Text.trim other = core ++ tail) (hcomment : isComment line = true) :
    isComment other = true := by
  unfold isComment at hcomment ⊢
  dsimp only at hcomment ⊢
  rw [h, endsWith_semicolon (by decide) (by decide), Bool.or_false] at hcomment
  obtain ⟨mark, hmark, hstarts⟩ := List.any_eq_true.mp hcomment
  have hclear : ∀ mark ∈ ["*", "/*", "//", "#"], ';' ∉ mark.toList := by decide
  rw [hother, Bool.or_eq_true]
  exact .inl (List.any_eq_true.mpr
    ⟨mark, hmark, startsWith_append_of_semicolon (hclear mark hmark) hstarts tail⟩)

/-! ## Terminated lines -/

/-- A plain line has one semicolon at its end, however many it had. -/
theorem terminate_of_plain {line : String} (h : kind line = .plain) :
    terminate line = dropSemicolons (Text.trimEnd line) ++ ";" := by
  rw [terminate, h]

/-- A line that is no statement loses the blanks at its end and nothing else. -/
theorem terminate_of_ne_plain {line : String} (h : kind line ≠ .plain) :
    terminate line = Text.trimEnd line := by
  unfold terminate
  split
  next hplain => exact absurd hplain h
  next hempty => exact (Text.trimEnd_eq_empty (kind_eq_empty_iff.mp hempty)).symm
  next => rfl
  next => rfl

theorem endsBlank_terminate (line : String) : Text.endsBlank (terminate line) = false :=
  (BodyLine.statement line).endsBlank_render

theorem trimEnd_terminate (line : String) : Text.trimEnd (terminate line) = terminate line :=
  Text.trimEnd_eq_self (endsBlank_terminate line)

/-- Trimmed, a line is its core and the semicolons behind it. -/
theorem exists_trim_eq (line : String) :
    ∃ tail, Text.trim line = Text.trimStart (dropSemicolons (Text.trimEnd line)) ++ tail := by
  obtain ⟨tail, htail, hline⟩ := Text.extends_stripEnd (· == ';') (Text.trimEnd line)
  refine ⟨tail, ?_⟩
  rw [← Text.trimStart_append_semicolons _ fun c hc => beq_iff_eq.mp (htail c hc)]
  exact congrArg Text.trimStart hline

/-- And so is a statement when it is terminated, with one semicolon. -/
theorem trim_terminate {line : String} (h : kind line = .plain) :
    Text.trim (terminate line) = Text.trimStart (dropSemicolons (Text.trimEnd line)) ++ ";" := by
  rw [Text.trim, trimEnd_terminate, terminate_of_plain h]
  exact Text.trimStart_append_semicolons _ fun c hc => List.mem_singleton.mp hc

/-- A plain line is still plain when it is terminated: the semicolon is neither the
beginning of a comment nor the end of a block. -/
theorem kind_terminate_of_plain {line : String} (h : kind line = .plain) :
    kind (terminate line) = .plain := by
  obtain ⟨tail, hbefore⟩ := exists_trim_eq line
  have hafter := trim_terminate h
  refine kind_eq_plain_iff.mpr ⟨?_, isBlock_of_semicolon hafter, ?_⟩
  · rw [hafter]
    simp
  · -- a comment now would have been one before
    apply Bool.eq_false_iff.mpr
    intro hcomment
    have hbefore := isComment_of_semicolon hafter hbefore hcomment
    rw [(kind_eq_plain_iff.mp h).2.2] at hbefore
    cases hbefore

/-- Terminating a line does not change what kind of line it is. -/
theorem kind_terminate (line : String) : kind (terminate line) = kind line := by
  by_cases h : kind line = .plain
  · rw [h, kind_terminate_of_plain h]
  · rw [terminate_of_ne_plain h, kind_trimEnd]

theorem dropSemicolons_append_semicolon (s : String) :
    dropSemicolons (s ++ ";") = dropSemicolons s :=
  Text.stripEnd_append_semicolon rfl s

theorem dropSemicolons_dropSemicolons (s : String) :
    dropSemicolons (dropSemicolons s) = dropSemicolons s :=
  Text.stripEnd_stripEnd (fun _ hc => hc) s

/-- A line is terminated once. -/
theorem terminate_terminate (line : String) : terminate (terminate line) = terminate line := by
  by_cases h : kind line = .plain
  · rw [terminate_of_plain (kind_terminate_of_plain h), trimEnd_terminate, terminate_of_plain h,
      dropSemicolons_append_semicolon, dropSemicolons_dropSemicolons]
  · have hkind : kind (terminate line) ≠ .plain := by rwa [kind_terminate]
    rw [terminate_of_ne_plain hkind, trimEnd_terminate]

/-- A line without the blanks and semicolons at its end. -/
def bare (line : String) : String :=
  String.ofList (line.toList.rdropWhile fun c => Text.isBlank c || c == ';')

/-- What is left of a line without terminators is what is left without blanks and semicolons
at its end, in whatever order they stand there. -/
theorem bare_eq_stripEnd (line : String) :
    bare line = Text.stripEnd (fun c => Text.isBlank c || c == ';') line := by
  apply String.ext
  rw [bare, String.toList_ofList, Text.toList_stripEnd]

theorem bare_trimEnd (line : String) : bare (Text.trimEnd line) = bare line := by
  rw [bare_eq_stripEnd, bare_eq_stripEnd]
  exact Text.stripEnd_stripEnd (fun _ hc => Bool.or_eq_true_iff.mpr (.inl hc)) line

/-- Semicolons at the end are no part of what is on a line. -/
theorem bare_dropSemicolons (line : String) : bare (dropSemicolons line) = bare line := by
  rw [bare_eq_stripEnd, bare_eq_stripEnd]
  exact Text.stripEnd_stripEnd (fun _ hc => Bool.or_eq_true_iff.mpr (.inr hc)) line

theorem bare_append_semicolon (line : String) : bare (line ++ ";") = bare line := by
  rw [bare_eq_stripEnd, bare_eq_stripEnd]
  exact Text.stripEnd_append_semicolon rfl line

/-- Terminating a line changes nothing but blanks and semicolons at its end. -/
theorem bare_terminate (line : String) : bare (terminate line) = bare line := by
  by_cases h : kind line = .plain
  · rw [terminate_of_plain h, bare_append_semicolon, bare_dropSemicolons, bare_trimEnd]
  · rw [terminate_of_ne_plain h, bare_trimEnd]

/-- **A terminated line is of its kind and terminated already.** It does not end in a blank. A
statement ends in a semicolon and differs from the line it was at most in blanks and semicolons
at the end; an empty line is left without any text, and a line of a block or of a comment loses
the blanks at its end and nothing else. -/
theorem terminate_stable (line : String) :
    kind (terminate line) = kind line ∧
    terminate (terminate line) = terminate line ∧
    Text.endsBlank (terminate line) = false ∧
    (kind line = .plain → (∃ front, terminate line = front ++ ";") ∧
      bare (terminate line) = bare line) ∧
    (kind line = .empty → terminate line = "") ∧
    (kind line = .block ∨ kind line = .comment →
      Text.Extends Text.isBlank (terminate line) line) := by
  refine ⟨kind_terminate line, terminate_terminate line, endsBlank_terminate line, ?_, ?_, ?_⟩
  · intro h
    exact ⟨⟨_, terminate_of_plain h⟩, bare_terminate line⟩
  · intro h
    rw [terminate, h]
  · intro h
    have hne : kind line ≠ .plain := by
      rcases h with hkind | hkind <;> rw [hkind] <;> nofun
    rw [terminate_of_ne_plain hne]
    exact Text.extends_stripEnd Text.isBlank line

/-- A brace with semicolons behind it opens no block, and what is put behind the slash makes no
comment of it. The third line is an ideographic space, and the last ends in a no-break space. -/
theorem terminate_stable_odd :
    (kind "  \x7b;; " = .plain ∧ terminate "  \x7b;; " = "  \x7b;" ∧
      (∃ front, terminate "  \x7b;; " = front ++ ";") ∧ kind (terminate "  \x7b;; ") = .plain) ∧
    (kind "/" = .plain ∧ kind (terminate "/") = .plain) ∧
    (kind " \u3000" = .empty ∧ terminate " \u3000" = "") ∧
    (kind "// a; \u00a0" = .comment ∧
      Text.Extends Text.isBlank (terminate "// a; \u00a0") "// a; \u00a0") := by
  have hbrace : kind "  \x7b;; " = .plain := by decide +kernel
  have hslash : kind "/" = .plain := by decide +kernel
  have hspace : kind " \u3000" = .empty := by decide +kernel
  have hcomment : kind "// a; \u00a0" = .comment := by decide +kernel
  obtain ⟨hkept, _, _, hplain, _⟩ := terminate_stable "  \x7b;; "
  obtain ⟨hkeptSlash, _⟩ := terminate_stable "/"
  obtain ⟨_, _, _, _, hempty, _⟩ := terminate_stable " \u3000"
  obtain ⟨_, _, _, _, _, hother⟩ := terminate_stable "// a; \u00a0"
  exact ⟨⟨hbrace, by decide +kernel, (hplain hbrace).1, hkept.trans hbrace⟩,
    ⟨hslash, hkeptSlash.trans hslash⟩, ⟨hspace, hempty hspace⟩, hcomment,
    hother (.inr hcomment)⟩

end Statement

end ClassDraft
