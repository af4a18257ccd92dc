import ClassDraft.Code.Writer
import ClassDraft.Margin
import ClassDraft.Proofs.Text

/-!
# The rows of a piece of code

What a tree of code is printed as, without a writer: its *rows*, from top to bottom. A
row has a text without line ends, the margins around it, and the number of blocks whose
bodies it stands in. It is printed as its margin, its indentation and its text, or as
nothing at all where there is no text.

Writing a tree appends its rows, each at its place as seen from the writer, and changes
nothing else of the writer (`Writer.writeAll_eq`). So the text of several pieces of code
is their printed rows, each closed by a line end (`text_eq`), and **without the last line
end it is the rows joined by line ends** (`render_eq`).
-/

namespace ClassDraft.Code

/-- One line of a piece of code: its text, how deep it stands, and the margins in front of
it as one text. -/
structure Row where
  /-- The margins around the row, the outermost first. -/
  margin : String := ""
  /-- In how many bodies of blocks the row stands. -/
  depth : Nat := 0
  text : String
deriving DecidableEq

namespace Row

/-- The row inside one more margin, which comes in front of those that it has. -/
def within (margin : String) (r : Row) : Row := { r with margin := margin ++ r.margin }

theorem within_empty (r : Row) : r.within "" = r := by
  simp [within]

def deeper (r : Row) : Row := { r with depth := r.depth + 1 }

/-- The row as it is printed. Nothing stands in front of an empty text. -/
def print (indent : Indent) (r : Row) : String :=
  if r.text = "" then "" else r.margin ++ indent.levels r.depth ++ r.text

end Row

/-- Texts as rows without margin or indentation. -/
def flushRows (texts : List String) : List Row := texts.map fun text => { text }

/-- A text as rows: one for each of its lines. -/
def textRows (text : String) : List Row := flushRows (Text.pieces '\n' text)

/-- Even the empty text has a row, an empty one. -/
theorem textRows_ne_nil (text : String) : textRows text ≠ [] := fun h =>
  Text.pieces_ne_nil '\n' text (List.map_eq_nil_iff.mp h)

mutual

/-- The rows of a piece of code, each with the depth and the margins that the nodes above it
add up to. -/
def rows : Code → List Row
  | .line text => textRows text
  | .blank => flushRows [""]
  | .block opening body closing =>
    textRows opening ++ (rowsAll body).map .deeper ++ closing.toList.flatMap textRows
  | .margin text body => (rowsAll body).map (.within text)
  | .docBlock lines => flushRows ("/**" :: Writer.markedLines " *" lines ++ [" */"])
  | .remarks lines => flushRows (Writer.markedLines "//" lines)

def rowsAll : List Code → List Row
  | [] => []
  | code :: more => rows code ++ rowsAll more

end

theorem rowsAll_eq_flatMap (code : List Code) : rowsAll code = code.flatMap rows := by
  induction code with
  | nil => rfl
  | cons first rest ih => rw [rowsAll, ih, List.flatMap_cons]

theorem rowsAll_append (code more : List Code) :
    rowsAll (code ++ more) = rowsAll code ++ rowsAll more := by
  simp only [rowsAll_eq_flatMap, List.flatMap_append]

theorem rowsAll_singleton (code : Code) : rowsAll [code] = code.rows := by
  rw [rowsAll_eq_flatMap, List.flatMap_singleton]

theorem mem_rowsAll {code : List Code} {r : Row} :
    r ∈ rowsAll code ↔ ∃ piece ∈ code, r ∈ piece.rows := by
  rw [rowsAll_eq_flatMap, List.mem_flatMap]

/-- Sections with an empty line between two of them, row by row. -/
theorem map_rowsAll_intercalate_blank {α : Type} (f : Row → α) (sections : List (List Code)) :
    (rowsAll ([Code.blank].intercalate sections)).map f
      = [f { text := "" }].intercalate (sections.map fun code => (rowsAll code).map f) := by
  simp only [rowsAll_eq_flatMap, List.map_flatMap]
  exact Text.flatMap_intercalate (fun code => code.rows.map f) [Code.blank] sections

/-- A blank line between sections is an empty row between their rows. -/
theorem rowsAll_intercalate_blank (sections : List (List Code)) :
    rowsAll ([Code.blank].intercalate sections)
      = [{ text := "" }].intercalate (sections.map rowsAll) := by
  simpa only [List.map_id_fun, id_eq] using map_rowsAll_intercalate_blank id sections

/-- Whether a margin is set, or there is any code to set in it, makes no difference to a
reading of code that finds the rows of a margin within it. -/
theorem reading_wrap (reading : List Code → List Row) (hnil : reading [] = [])
    (hmargin : ∀ text code, reading [.margin text code] = (reading code).map (.within text))
    (m : Margin) (code : List Code) :
    reading (m.wrap code) = (reading code).map (.within m.textD) := by
  unfold Margin.wrap
  split
  next h =>
    rcases h with hempty | hcode
    · rw [hempty]
      exact (List.map_id'' Row.within_empty _).symm
    · rw [List.isEmpty_iff.mp hcode, hnil]
      rfl
  next => exact hmargin m.textD code

/-- A margin is set around all rows. That `wrap` leaves an empty margin out makes no
difference to them. -/
theorem rowsAll_wrap (m : Margin) (code : List Code) :
    rowsAll (m.wrap code) = (rowsAll code).map (.within m.textD) :=
  reading_wrap rowsAll rfl (fun text code => by rw [rowsAll_singleton, rows]) m code

theorem newline_not_mem_marked {mark text : String} (hmark : '\n' ∉ mark.toList)
    (htext : '\n' ∉ text.toList) : '\n' ∉ (Writer.marked mark text).toList := by
  unfold Writer.marked
  split
  next => exact hmark
  next => simp [hmark, htext]

/-- The lines of a comment were cut at line ends before they were marked. -/
theorem newline_not_mem_markedLines {mark text : String} {lines : List String}
    (hmark : '\n' ∉ mark.toList) (h : text ∈ Writer.markedLines mark lines) :
    '\n' ∉ text.toList := by
  obtain ⟨piece, hpiece, rfl⟩ := List.mem_map.mp h
  obtain ⟨line, _, hpiece⟩ := List.mem_flatMap.mp hpiece
  exact newline_not_mem_marked hmark (Text.not_mem_of_mem_pieces hpiece)

theorem mem_flushRows {texts : List String} {r : Row} :
    r ∈ flushRows texts ↔ ∃ text ∈ texts, { text } = r :=
  List.mem_map

theorem newline_not_mem_textRows {text : String} {r : Row} (h : r ∈ textRows text) :
    '\n' ∉ r.text.toList := by
  obtain ⟨piece, hpiece, rfl⟩ := mem_flushRows.mp h
  exact Text.not_mem_of_mem_pieces hpiece

mutual

/-- The text of a row holds no line end. -/
theorem newline_not_mem_rows : ∀ (code : Code) (r : Row), r ∈ code.rows → '\n' ∉ r.text.toList
  | .line _, _, h => newline_not_mem_textRows h
  | .blank, r, h => by
    rw [rows] at h
    obtain ⟨text, htext, rfl⟩ := mem_flushRows.mp h
    obtain rfl := List.mem_singleton.mp htext
    decide
  | .block opening body closing, r, h => by
    rw [rows, List.mem_append, List.mem_append] at h
    rcases h with (hopening | hbody) | hclosing
    · exact newline_not_mem_textRows hopening
    · obtain ⟨inner, hinner, rfl⟩ := List.mem_map.mp hbody
      exact newline_not_mem_rowsAll body inner hinner
    · obtain ⟨text, _, hr⟩ := List.mem_flatMap.mp hclosing
      exact newline_not_mem_textRows hr
  | .margin text body, r, h => by
    rw [rows] at h
    obtain ⟨inner, hinner, rfl⟩ := List.mem_map.mp h
    exact newline_not_mem_rowsAll body inner hinner
  | .docBlock lines, r, h => by
    rw [rows] at h
    obtain ⟨text, htext, rfl⟩ := mem_flushRows.mp h
    rw [List.cons_append, List.mem_cons, List.mem_append, List.mem_singleton] at htext
    rcases htext with rfl | htext | rfl
    · decide
    · exact newline_not_mem_markedLines (by decide) htext
    · decide
  | .remarks lines, r, h => by
    rw [rows] at h
    obtain ⟨text, htext, rfl⟩ := mem_flushRows.mp h
    exact newline_not_mem_markedLines (by decide) htext

/-- No row holds a line end, so that rows are lines. -/
theorem newline_not_mem_rowsAll :
    ∀ (code : List Code) (r : Row), r ∈ rowsAll code → '\n' ∉ r.text.toList
  | [], _, h => by cases h
  | code :: more, r, h => by
    rw [rowsAll, List.mem_append] at h
    rcases h with hcode | hmore
    · exact newline_not_mem_rows code r hcode
    · exact newline_not_mem_rowsAll more r hmore

end

/-- The lines that several pieces of code are printed as. -/
def lines (indent : Indent) (code : List Code) : List String :=
  (rowsAll code).map (Row.print indent)

/-- Pieces of code are set one after another, without regard to each other. -/
theorem lines_append (indent : Indent) (code more : List Code) :
    lines indent (code ++ more) = lines indent code ++ lines indent more := by
  rw [lines, rowsAll_append, List.map_append]
  rfl

namespace Writer

/-- A row at its place as seen from a writer: inside its margins, below its depth. -/
def place (w : Writer) (r : Row) : Row :=
  { r with margin := String.join w.margins ++ r.margin, depth := w.depth + r.depth }

/-- The writer with rows appended, each closed by a line end. -/
def append (w : Writer) (rows : List Row) : Writer :=
  { w with
    written := w.written ++ String.join (rows.map fun r => (w.place r).print w.indent ++ "\n") }

theorem append_nil (w : Writer) : w.append [] = w := by
  simp [append]

/-- Rows may be appended all at once or in parts. This is all that holds the writer
together. -/
theorem append_append (w : Writer) (rows more : List Row) :
    (w.append rows).append more = w.append (rows ++ more) := by
  -- the place of a row does not depend on what is written
  simp only [append, place, List.map_append, String.join_append, String.append_assoc]

/-- Writing a text is appending a row. Both leave nothing in front of a text that is empty. -/
theorem writeText_eq (w : Writer) (text : String) : w.writeText text = w.append [{ text }] := by
  by_cases h : text = ""
  · simp [writeText, append, place, Row.print, writeBlank, h]
  · simp [writeText, append, place, Row.print, lead, h]

theorem writeTexts_eq (texts : List String) :
    ∀ w : Writer, w.writeTexts texts = w.append (flushRows texts) := by
  induction texts with
  | nil => intro w; exact w.append_nil.symm
  | cons text rest ih =>
    intro w
    show (w.writeText text).writeTexts rest = _
    rw [ih, writeText_eq, append_append]
    rfl

theorem writeLine_eq (w : Writer) (text : String) : w.writeLine text = w.append (textRows text) :=
  writeTexts_eq _ w

/-- A block of comment is written as the rows that the tree says it has. -/
theorem writeDocBlock_eq (w : Writer) (lines : List String) :
    w.writeDocBlock lines = w.append (Code.docBlock lines).rows := by
  rw [writeDocBlock, writeText_eq, writeTexts_eq, writeText_eq, append_append, append_append]
  simp [rows, flushRows]

/-- What is set one level deeper stands in one more body. -/
theorem shallower_append_deeper (w : Writer) (rows : List Row) :
    (w.deeper.append rows).shallower = w.append (rows.map .deeper) := by
  have hplace : ∀ r : Row, w.deeper.place r = w.place r.deeper := by
    intro r
    simp only [place, deeper, Row.deeper]
    congr 1
    omega
  simp only [append, hplace, List.map_map]
  rfl

/-- What is set inside one more margin stands within it. -/
theorem popMargin_append_pushMargin (w : Writer) (text : String) (rows : List Row) :
    ((w.pushMargin text).append rows).popMargin = w.append (rows.map (.within text)) := by
  have hplace : ∀ r : Row, (w.pushMargin text).place r = w.place (r.within text) := by
    intro r
    simp [place, pushMargin, Row.within, String.append_assoc]
  simp only [append, hplace, List.map_map, popMargin]
  simp only [pushMargin, List.dropLast_concat]
  rfl

mutual

/-- Writing appends the rows of a tree and leaves the place of the next line alone. -/
theorem write_eq (w : Writer) : ∀ code : Code, w.write code = w.append code.rows
  | .line text => by rw [write, rows, writeLine_eq]
  | .blank => by
    have h := w.writeText_eq ""
    rw [write, rows]
    exact h
  | .block opening body none => by
    rw [write, writeLine_eq, writeAll_eq, shallower_append_deeper, append_append, rows]
    simp
  | .block opening body (some closing) => by
    rw [write, writeLine_eq, writeAll_eq, shallower_append_deeper, append_append, writeLine_eq,
      append_append, rows]
    simp
  | .margin text body => by
    rw [write, writeAll_eq, popMargin_append_pushMargin, rows]
  | .docBlock lines => by rw [write, writeDocBlock_eq]
  | .remarks lines => by rw [write, rows, writeRemarks, writeTexts_eq]

/-- The same for several pieces, by induction on both at once. -/
theorem writeAll_eq (w : Writer) : ∀ code : List Code, w.writeAll code = w.append (rowsAll code)
  | [] => by rw [writeAll, rowsAll, append_nil]
  | code :: more => by
    rw [writeAll, write_eq, writeAll_eq, append_append, rowsAll]

end

/-- Finishing takes off the one line end that closes the last line, and no other. -/
theorem finish_eq {w : Writer} {text : String} (h : w.written = text ++ "\n") :
    w.finish = text := by
  have hlist : w.written.toList = text.toList ++ ['\n'] := by rw [h, String.toList_append]; rfl
  rw [finish, hlist, List.getLast?_concat, List.dropLast_concat]
  exact String.ofList_toList

end Writer

/-- The text is made of its lines, with a line end behind each of them. -/
theorem text_eq (indent : Indent) (code : List Code) :
    text indent code = String.join ((lines indent code).map (· ++ "\n")) := by
  have hplace : ∀ r : Row, (Writer.start indent).place r = r := by
    intro r
    simp [Writer.start, Writer.place]
  rw [text, Writer.writeAll_eq, Writer.append]
  simp only [hplace, lines, List.map_map]
  exact String.empty_append

/-- **The text of code is its printed rows, joined by line ends.** -/
theorem render_eq (indent : Indent) (code : List Code) :
    render indent code = "\n".intercalate (lines indent code) := by
  have hwritten : ((Writer.start indent).writeAll code).written
      = String.join ((lines indent code).map (· ++ "\n")) := text_eq indent code
  cases hl : lines indent code with
  | nil =>
    rw [hl] at hwritten
    rw [render, Writer.finish, hwritten]
    rfl
  | cons first rest =>
    rw [hl, Text.join_closed (List.cons_ne_nil _ _)] at hwritten
    exact Writer.finish_eq hwritten

/-- Texts of code can be put together where line ends close them. -/
theorem text_append (indent : Indent) (code more : List Code) :
    text indent (code ++ more) = text indent code ++ text indent more := by
  rw [text_eq, text_eq, text_eq, lines_append, List.map_append, String.join_append]

/-- Closing the last line of a text that has one. -/
theorem render_append_newline {indent : Indent} {code : List Code} (h : lines indent code ≠ []) :
    render indent code ++ "\n" = text indent code := by
  rw [render_eq, text_eq, Text.join_closed h]

/-- A text that is made of closed parts is, without its last line end, the parts joined. -/
theorem render_eq_of_text_eq {indent : Indent} {code : List Code} {parts : List String}
    (hne : parts ≠ []) (h : text indent code = String.join (parts.map (· ++ "\n"))) :
    render indent code = "\n".intercalate parts := by
  rw [Text.join_closed hne] at h
  exact Writer.finish_eq h

/-- Sections that are not empty, with an empty line between two of them. -/
theorem text_intercalate_blank {indent : Indent} :
    ∀ {sections : List (List Code)}, (∀ code ∈ sections, lines indent code ≠ []) →
      text indent ([Code.blank].intercalate sections)
        = String.join (((sections.map (render indent)).intersperse "").map (· ++ "\n"))
  | [], _ => rfl
  | [code], h => by
    have hcode := render_append_newline (h code (List.mem_cons_self ..))
    simp [String.join_cons, String.join_nil, hcode]
  | code :: next :: more, h => by
    have hcode := render_append_newline (h code (List.mem_cons_self ..))
    have hrest := text_intercalate_blank fun other hother =>
      h other (List.mem_cons_of_mem code hother)
    have hblank : text indent [Code.blank] = "\n" := rfl
    simp only [List.map_cons] at hrest ⊢
    rw [List.intercalate_cons_cons, text_append, text_append, hrest, hblank,
      List.intersperse_cons_cons, List.map_cons, List.map_cons, String.join_cons, String.join_cons,
      hcode, String.empty_append, String.append_assoc]

end ClassDraft.Code
