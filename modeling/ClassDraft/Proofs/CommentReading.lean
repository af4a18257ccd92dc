import ClassDraft.Proofs.DocBlock
import ClassDraft.Proofs.Terminators

/-!
# Reading a comment back

A comment is printed one text to a line, each behind the margin and a mark. An empty text
leaves the mark alone; any other is set off from the mark by one space. A text may itself begin
with spaces or look like a mark, so a line can only be read from the left: margin, mark, and then
either nothing or a space and the text (`readLine?_eq_some_iff`).

The first line tells the style, since no line of remarks is the opening mark of a doc block. So
**the style and the texts can be read off the printed comment, and reading accepts nothing but
printed comments** (`read?_eq_some_iff`). What cannot be told apart is where one line of a comment
ended and the next began, and the style of a comment without lines.
-/

namespace ClassDraft

open Code.Writer (marked markedLines)

namespace Comment

/-- The texts of a comment, each of which is set on a line of its own. -/
def texts (c : Comment) : List String := c.lines.flatMap (Text.pieces '\n')

theorem newline_not_mem_texts {c : Comment} {text : String} (h : text ∈ c.texts) :
    '\n' ∉ text.toList := by
  obtain ⟨line, _, hpiece⟩ := List.mem_flatMap.mp h
  exact Text.not_mem_of_mem_pieces hpiece

/-- A comment has no texts only if it has no lines, since even an empty line is a text. -/
theorem texts_eq_nil_iff {c : Comment} : c.texts = [] ↔ c.lines = [] := by
  constructor
  · intro h
    refine List.eq_nil_iff_forall_not_mem.mpr fun line hline => ?_
    exact Text.pieces_ne_nil '\n' line (List.flatMap_eq_nil_iff.mp h line hline)
  · intro h
    rw [texts, h, List.flatMap_nil]

/-- Texts without line ends are the texts of a comment that has them for lines. -/
theorem texts_of_newline_free {lines : List String} (h : ∀ line ∈ lines, '\n' ∉ line.toList)
    (style : CommentStyle) (margin : Margin) : texts ⟨lines, style, margin⟩ = lines :=
  Text.flatMap_pieces_eq_self h

/-! ## The lines of a comment -/

/-- The lines on which texts are set in a style, behind a margin. -/
def setLines (margin : String) (texts : List String) : CommentStyle → List String
  | .multi => (margin ++ "/**") :: texts.map (marked (margin ++ " *")) ++ [margin ++ " */"]
  | .single => texts.map (marked (margin ++ "//"))

/-- The margin may be taken as part of the mark. -/
theorem marked_margin (margin mark text : String) :
    marked (margin ++ mark) text = margin ++ marked mark text := by
  unfold marked
  split <;> simp only [String.append_assoc]

/-- The lines that are printed are the texts in their style, whatever the indentation. -/
theorem lines_eq_setLines {c : Comment} (hne : c.lines ≠ []) (indent : Indent) :
    Code.lines indent c.toCode = setLines c.margin.textD c.texts c.style := by
  have hmap : ∀ mark : String, (markedLines mark c.lines).map (c.margin.textD ++ ·)
      = c.texts.map (marked (c.margin.textD ++ mark)) := by
    intro mark
    rw [markedLines, List.map_map]
    exact List.map_congr_left fun text _ => (marked_margin c.margin.textD mark text).symm
  cases hstyle : c.style with
  | multi => rw [lines_multi hstyle hne, hmap, setLines]
  | single => rw [lines_single hstyle hne, hmap, setLines]

theorem newline_not_mem_setLines {c : Comment} (hmargin : '\n' ∉ c.margin.textD.toList)
    {line : String} (h : line ∈ setLines c.margin.textD c.texts c.style) :
    '\n' ∉ line.toList := by
  have hmark : ∀ {mark : String}, '\n' ∉ mark.toList → '\n' ∉ (c.margin.textD ++ mark).toList := by
    intro mark hmark
    rw [String.toList_append, List.mem_append, not_or]
    exact ⟨hmargin, hmark⟩
  have hmarked : ∀ {mark : String}, '\n' ∉ mark.toList →
      line ∈ c.texts.map (marked (c.margin.textD ++ mark)) → '\n' ∉ line.toList := by
    intro mark hfree hline
    obtain ⟨text, htext, rfl⟩ := List.mem_map.mp hline
    exact Code.newline_not_mem_marked (hmark hfree) (newline_not_mem_texts htext)
  cases hstyle : c.style with
  | multi =>
    rw [hstyle, setLines, List.cons_append, List.mem_cons, List.mem_append,
      List.mem_singleton] at h
    rcases h with rfl | hbody | rfl
    · exact hmark (by decide)
    · exact hmarked (by decide) hbody
    · exact hmark (by decide)
  | single =>
    rw [hstyle] at h
    exact hmarked (by decide) h

theorem setLines_ne_nil {margin : String} {texts : List String} (hne : texts ≠ [])
    (style : CommentStyle) : setLines margin texts style ≠ [] := by
  cases style with
  | multi => exact List.cons_ne_nil _ _
  | single => exact fun hnil => hne (List.map_eq_nil_iff.mp hnil)

/-- The printed comment is these lines, joined by line ends. -/
theorem render_eq_setLines {c : Comment} (hne : c.lines ≠ []) :
    c.render = "\n".intercalate (setLines c.margin.textD c.texts c.style) := by
  rw [render, Code.render_eq, lines_eq_setLines hne]

theorem render_of_empty {c : Comment} (h : c.lines = []) : c.render = "" := by
  have hempty : c.isEmpty = true := List.isEmpty_iff.mpr h
  rw [render, toCode, if_pos hempty]
  rfl

/-- Cutting a printed comment at its line ends gives the lines it was set on. -/
theorem pieces_render {c : Comment} (hmargin : '\n' ∉ c.margin.textD.toList)
    (hne : c.lines ≠ []) :
    Text.pieces '\n' c.render = setLines c.margin.textD c.texts c.style := by
  rw [render_eq_setLines hne]
  exact Text.pieces_intercalate rfl (setLines_ne_nil (mt texts_eq_nil_iff.mp hne) c.style)
    fun line hline => newline_not_mem_setLines hmargin hline

/-! ## Reading -/

/-- The text on a line with a given lead: nothing behind the lead, or a space and a text that is
not empty. -/
def readLine? (lead line : String) : Option String :=
  match line.toList.dropPrefix? lead.toList with
  | some [] => some ""
  | some (' ' :: c :: rest) => some (String.ofList (c :: rest))
  | _ => none

/-- The texts on the lines of a doc block, of which there is at least one. -/
def readBlock? (margin : String) (lines : List String) : Option (List String) :=
  if lines.getLast? = some (margin ++ " */") ∧ lines.dropLast ≠ [] then
    lines.dropLast.mapM (readLine? (margin ++ " *"))
  else none

/-- Reads lines back: the first one tells which of the two styles it is. -/
def readLines? (margin : String) : List String → Option (CommentStyle × List String)
  | [] => none
  | first :: rest =>
    if first = margin ++ "/**" then (readBlock? margin rest).map (.multi, ·)
    else ((first :: rest).mapM (readLine? (margin ++ "//"))).map (.single, ·)

/-- The style and the texts of a printed comment, behind a known margin. -/
def read? (margin text : String) : Option (CommentStyle × List String) :=
  readLines? margin (Text.pieces '\n' text)

/-- What is behind the mark is what was put there. -/
theorem dropPrefix?_lead {lead line : String} {rest : List Char} :
    line.toList.dropPrefix? lead.toList = some rest ↔ line = lead ++ String.ofList rest := by
  rw [List.dropPrefix?_eq_some_iff]
  constructor
  · rintro ⟨front, hline, hfront⟩
    apply String.ext
    rw [String.toList_append, String.toList_ofList, hline, beq_iff_eq.mp hfront]
  · rintro rfl
    exact ⟨lead.toList, by rw [String.toList_append, String.toList_ofList], beq_self_eq_true _⟩

/-- A line can be read exactly if it is marked, and then in one way only. -/
theorem readLine?_eq_some_iff {lead line text : String} :
    readLine? lead line = some text ↔ line = marked lead text := by
  have hspace : ∀ chars, String.ofList (' ' :: chars) = " " ++ String.ofList chars := by
    intro chars
    apply String.ext
    simp
  unfold readLine? marked
  constructor
  · intro h
    split at h
    next hdrop =>
      cases h
      rw [if_pos rfl, dropPrefix?_lead.mp hdrop]
      exact String.append_empty
    next c rest hdrop =>
      cases h
      have hne : String.ofList (c :: rest) ≠ "" := by simp
      rw [if_neg hne, dropPrefix?_lead.mp hdrop, hspace, String.append_assoc]
    next => cases h
  · rintro rfl
    by_cases hempty : text = ""
    · have hdrop : lead.toList.dropPrefix? lead.toList = some [] :=
        dropPrefix?_lead.mpr String.append_empty.symm
      rw [if_pos hempty, hdrop, hempty]
    · -- the text has a first character, which the line has behind the space
      obtain ⟨c, rest, hchars⟩ := List.exists_cons_of_ne_nil fun hnil => hempty (String.ext hnil)
      have htext : text = String.ofList (c :: rest) := by rw [← hchars, String.ofList_toList]
      have hdrop : (lead ++ " " ++ text).toList.dropPrefix? lead.toList
          = some (' ' :: c :: rest) := by
        rw [dropPrefix?_lead, hspace, htext, String.append_assoc]
      rw [if_neg hempty, hdrop, htext]
      rfl

/-- Lines are read one by one. -/
theorem mapM_readLine?_eq_some_iff {lead : String} :
    ∀ {lines texts : List String},
      lines.mapM (readLine? lead) = some texts ↔ lines = texts.map (marked lead)
  | [], [] => by simp
  | [], text :: rest => by simp
  | line :: more, texts => by
    rw [List.mapM_cons]
    simp only [Option.bind_eq_bind, Option.bind_eq_some_iff, readLine?_eq_some_iff,
      mapM_readLine?_eq_some_iff, Option.pure_def, Option.some.injEq]
    constructor
    · rintro ⟨text, rfl, rest, rfl, rfl⟩
      rfl
    · intro h
      cases texts with
      | nil => cases h
      | cons text rest =>
        obtain ⟨hline, hmore⟩ := List.cons.inj h
        exact ⟨text, hline, rest, hmore, rfl⟩

/-- The rest of a block can be read exactly if it has a marked line at least and ends with
the closing. -/
theorem readBlock?_eq_some_iff {margin : String} {lines texts : List String} :
    readBlock? margin lines = some texts ↔
      texts ≠ [] ∧ lines = texts.map (marked (margin ++ " *")) ++ [margin ++ " */"] := by
  unfold readBlock?
  constructor
  · intro h
    split at h
    next hcut =>
      obtain ⟨front, rfl⟩ := List.getLast?_eq_some_iff.mp hcut.1
      rw [List.dropLast_concat] at h hcut
      rw [mapM_readLine?_eq_some_iff] at h
      subst h
      exact ⟨fun hnil => hcut.2 (by rw [hnil, List.map_nil]), rfl⟩
    next => cases h
  · rintro ⟨hne, rfl⟩
    have hbody : texts.map (marked (margin ++ " *")) ≠ [] := fun hnil =>
      hne (List.map_eq_nil_iff.mp hnil)
    rw [List.dropLast_concat, List.getLast?_concat, if_pos ⟨rfl, hbody⟩,
      mapM_readLine?_eq_some_iff]

/-- A line of remarks is not the opening mark of a doc block. -/
theorem marked_remark_ne_opening (margin text : String) :
    marked (margin ++ "//") text ≠ margin ++ "/**" := by
  intro h
  rw [marked_margin] at h
  have hlist := congrArg String.toList h
  rw [String.toList_append, String.toList_append] at hlist
  have hmark := List.append_cancel_left hlist
  unfold marked at hmark
  split at hmark
  next => exact absurd hmark (by decide)
  next => simp at hmark

/-- **Lines are read back as what they were set from**, in the one style that their first
line admits. -/
theorem readLines?_eq_some_iff {margin : String} {lines texts : List String}
    {style : CommentStyle} :
    readLines? margin lines = some (style, texts) ↔
      texts ≠ [] ∧ lines = setLines margin texts style := by
  cases lines with
  | nil =>
    simp only [readLines?, reduceCtorEq, false_iff, not_and]
    exact fun hne hnil => setLines_ne_nil hne style hnil.symm
  | cons first rest =>
    rw [readLines?]
    split
    next hopening =>
      -- only a doc block begins so
      subst hopening
      cases style with
      | multi => simp [readBlock?_eq_some_iff, setLines]
      | single =>
        simp only [Option.map_eq_some_iff, Prod.mk.injEq, reduceCtorEq, false_and, and_false,
          exists_false, false_iff, not_and]
        intro hne hset
        cases texts with
        | nil => exact hne rfl
        | cons text more => exact marked_remark_ne_opening margin text (List.cons.inj hset).1.symm
    next hopening =>
      cases style with
      | multi =>
        simp only [Option.map_eq_some_iff, Prod.mk.injEq, reduceCtorEq, false_and, and_false,
          exists_false, false_iff, not_and]
        exact fun _ hset => hopening (List.cons.inj hset).1
      | single =>
        simp only [Option.map_eq_some_iff, Prod.mk.injEq, true_and, exists_eq_right,
          mapM_readLine?_eq_some_iff, setLines]
        constructor
        · intro hset
          refine ⟨?_, hset⟩
          rintro rfl
          cases hset
        · exact fun h => h.2

theorem mem_marked {lead text : String} {c : Char} (h : c ∈ text.toList) :
    c ∈ (marked lead text).toList := by
  unfold marked
  split
  next hempty =>
    rw [hempty] at h
    cases h
  next =>
    rw [String.toList_append]
    exact List.mem_append_right _ h

/-- Every text stands on some line behind some mark. -/
theorem exists_marked_mem_setLines (margin : String) (style : CommentStyle) {text : String}
    {texts : List String} (h : text ∈ texts) :
    ∃ lead, marked lead text ∈ setLines margin texts style := by
  cases style with
  | multi =>
    exact ⟨margin ++ " *",
      List.mem_cons_of_mem _ (List.mem_append_left _ (List.mem_map_of_mem h))⟩
  | single => exact ⟨margin ++ "//", List.mem_map_of_mem h⟩

/-- A text is read exactly if it is the text of a comment that is not empty, and what is read
is the style and the texts of that comment. -/
theorem read?_eq_some_iff {margin : String} (hmargin : '\n' ∉ margin.toList) {text : String}
    {style : CommentStyle} {texts : List String} :
    read? margin text = some (style, texts) ↔
      ∃ c : Comment, c.margin.textD = margin ∧ c.lines ≠ [] ∧ c.style = style ∧
        c.texts = texts ∧ c.render = text := by
  rw [read?, readLines?_eq_some_iff]
  constructor
  · rintro ⟨hne, hlines⟩
    -- a line end in what is read would be one in a line
    have hfree : ∀ line ∈ texts, '\n' ∉ line.toList := by
      intro line hline hmem
      obtain ⟨lead, hlead⟩ := exists_marked_mem_setLines margin style hline
      rw [← hlines] at hlead
      exact Text.not_mem_of_mem_pieces hlead (mem_marked hmem)
    have htexts := texts_of_newline_free hfree style (.of margin)
    refine ⟨⟨texts, style, .of margin⟩, rfl, hne, rfl, htexts, ?_⟩
    rw [render_eq_setLines hne, htexts]
    show "\n".intercalate (setLines margin texts style) = text
    rw [← hlines, Text.intercalate_pieces rfl]
  · rintro ⟨c, rfl, hne, rfl, rfl, rfl⟩
    exact ⟨mt texts_eq_nil_iff.mp hne, pieces_render hmargin hne⟩

/-- Nothing can be read from the empty text, which is what an empty comment prints as. -/
theorem read?_empty (margin : String) : read? margin "" = none := by
  rw [Option.eq_none_iff_forall_ne_some]
  rintro ⟨style, texts⟩ h
  have hpieces : Text.pieces '\n' "" = [""] := rfl
  rw [read?, hpieces, readLines?_eq_some_iff] at h
  obtain ⟨hne, hset⟩ := h
  cases style with
  | multi => simp [setLines] at hset
  | single =>
    cases texts with
    | nil => exact hne rfl
    | cons text more =>
      -- a mark stands on every line of remarks
      exact marked_ne_empty (by simp) (List.cons.inj hset).1.symm

/-- Reading gives back the style and the texts of a comment that has lines, and nothing for one
that has none. -/
theorem read?_render {margin : String} (hmargin : '\n' ∉ margin.toList) {c : Comment}
    (hc : c.margin.textD = margin) :
    read? margin c.render = if c.lines = [] then none else some (c.style, c.texts) := by
  split
  next hempty => rw [render_of_empty hempty, read?_empty]
  next hne => exact (read?_eq_some_iff hmargin).mpr ⟨c, hc, hne, rfl, rfl, rfl⟩

/-- Two comments in one margin print alike if they have the same texts in the same style. An
empty comment has no style to tell. -/
theorem render_eq_render_iff {c d : Comment} (hmargin : '\n' ∉ c.margin.textD.toList)
    (hsame : d.margin.textD = c.margin.textD) :
    c.render = d.render ↔
      c.texts = d.texts ∧ (¬ (c.lines = [] ∧ d.lines = []) → c.style = d.style) := by
  constructor
  · intro h
    have hread := congrArg (read? c.margin.textD) h
    rw [read?_render hmargin rfl, read?_render hmargin hsame] at hread
    by_cases hc : c.lines = [] <;> by_cases hd : d.lines = []
    · rw [texts_eq_nil_iff.mpr hc, texts_eq_nil_iff.mpr hd]
      exact ⟨rfl, fun hne => absurd ⟨hc, hd⟩ hne⟩
    · rw [if_pos hc, if_neg hd] at hread
      cases hread
    · rw [if_neg hc, if_pos hd] at hread
      cases hread
    · rw [if_neg hc, if_neg hd] at hread
      obtain ⟨hstyle, htexts⟩ := Prod.mk.inj (Option.some.inj hread)
      exact ⟨htexts, fun _ => hstyle⟩
  · rintro ⟨htexts, hstyle⟩
    by_cases hc : c.lines = []
    · have hd : d.lines = [] := texts_eq_nil_iff.mp (htexts ▸ texts_eq_nil_iff.mpr hc)
      rw [render_of_empty hc, render_of_empty hd]
    · have hd : d.lines ≠ [] := fun hd =>
        hc (texts_eq_nil_iff.mp (htexts.trans (texts_eq_nil_iff.mpr hd)))
      rw [render_eq_setLines hc, render_eq_setLines hd, htexts, hsame,
        hstyle fun hboth => hc hboth.1]

/-- How each line of a printed comment begins: with the margin and the mark of its place. -/
def BeginsMarked (margin : String) (lines : List String) : CommentStyle → Prop
  | .single => ∀ line ∈ lines, Statement.startsWith line (margin ++ "//") = true
  | .multi => ∃ first between last, lines = first :: between ++ [last] ∧
      Statement.startsWith first (margin ++ "/**") = true ∧
      (∀ line ∈ between, Statement.startsWith line (margin ++ " *") = true) ∧
      Statement.startsWith last (margin ++ " */") = true

/-- A marked text begins with its mark, also where there is nothing behind it. -/
theorem startsWith_marked (lead text : String) :
    Statement.startsWith (marked lead text) lead = true := by
  rw [Statement.startsWith_iff]
  unfold marked
  split
  next => exact List.prefix_refl _
  next =>
    rw [String.append_assoc, String.toList_append]
    exact List.prefix_append _ _

/-- Each line begins with the mark that its place in the style asks for. -/
theorem beginsMarked_setLines (margin : String) (texts : List String) (style : CommentStyle) :
    BeginsMarked margin (setLines margin texts style) style := by
  have hself : ∀ lead : String, Statement.startsWith lead lead = true := fun lead =>
    Statement.startsWith_iff.mpr (List.prefix_refl _)
  have hmarked : ∀ (lead line : String), line ∈ texts.map (marked lead) →
      Statement.startsWith line lead = true := by
    intro lead line hline
    obtain ⟨text, _, rfl⟩ := List.mem_map.mp hline
    exact startsWith_marked lead text
  cases style with
  | single => exact hmarked (margin ++ "//")
  | multi => exact ⟨_, _, _, rfl, hself _, hmarked (margin ++ " *"), hself _⟩

/-- **A printed comment can be read back**, whatever its texts look like. Behind a margin without
line ends, each line of a comment begins with the margin and the mark of its place. Reading gives
the style and the texts of every comment that has lines and accepts nothing but such comments. So
two comments in one margin have the same text exactly if they have the same texts and, unless both
are empty, the same style. -/
theorem render_read_back {margin : String} (hmargin : '\n' ∉ margin.toList) :
    (∀ c : Comment, c.margin.textD = margin → c.lines ≠ [] →
      BeginsMarked margin (Text.pieces '\n' c.render) c.style) ∧
    (∀ c : Comment, c.margin.textD = margin →
      read? margin c.render = if c.lines = [] then none else some (c.style, c.texts)) ∧
    (∀ text style texts, read? margin text = some (style, texts) →
      ∃ c : Comment, c.margin.textD = margin ∧ c.lines ≠ [] ∧ c.style = style ∧
        c.texts = texts ∧ c.render = text) ∧
    ∀ c d : Comment, c.margin.textD = margin → d.margin.textD = margin →
      (c.render = d.render ↔
        c.texts = d.texts ∧ (¬ (c.lines = [] ∧ d.lines = []) → c.style = d.style)) := by
  refine ⟨?_, fun c hc => read?_render hmargin hc, fun _ _ _ => (read?_eq_some_iff hmargin).mp, ?_⟩
  · rintro c rfl hne
    rw [pieces_render hmargin hne]
    exact beginsMarked_setLines _ _ _
  · rintro c d rfl hd
    exact render_eq_render_iff hmargin hd

/-- Texts that begin with a space or look like marks. The second comment has the same texts on
other lines; the third has them in the other style. -/
theorem render_read_back_marks :
    let c : Comment := { lines := [" x\n", "*/", "// y"], margin := .of "\t" }
    let d : Comment := { lines := [" x", "\n*/\n// y"], margin := .of "\t" }
    let e : Comment := { lines := [" x\n", "*/", "// y"], style := .single, margin := .of "\t" }
    '\n' ∉ "\t".toList ∧
    c.render = "\t/**\n\t *  x\n\t *\n\t * */\n\t * // y\n\t */" ∧
    BeginsMarked "\t" (Text.pieces '\n' c.render) .multi ∧
    read? "\t" c.render = some (.multi, [" x", "", "*/", "// y"]) ∧
    c.render = d.render ∧ c.render ≠ e.render := by
  intro c d e
  have hmargin : '\n' ∉ "\t".toList := by decide
  obtain ⟨hmarked, hread, _, hsame⟩ := render_read_back hmargin
  refine ⟨hmargin, by decide +kernel, hmarked c rfl (List.cons_ne_nil _ _), hread c rfl, ?_, ?_⟩
  · exact (hsame c d rfl rfl).mpr ⟨rfl, fun _ => rfl⟩
  · intro htext
    have hstyle := ((hsame c e rfl rfl).mp htext).2 (fun hboth => List.cons_ne_nil _ _ hboth.1)
    cases hstyle

end Comment

end ClassDraft
