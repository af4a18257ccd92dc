import ClassDraft.Proofs.Rows

/-!
# What is written for each line of a tree

A tree of code has *logical lines*: the lines of its texts, one empty line for each blank,
and the marked lines of its comments, from left to right. Which nodes stand around a
logical line, bodies of blocks and margins in any order, is read off the tree.

Writing a tree changes nothing of the writer but the text written so far, to which it
appends the logical lines (`Writer.write_exact`). However bodies and margins are nested,
**all margins come before all indentation**: first those of the writer, then those around the
line, the outermost first, and then one unit for each level of the writer and for each
body around the line. A line without text has none of that.
-/

namespace ClassDraft

/-- The indentation at a depth is one unit written that many times. -/
theorem Indent.levels_eq_join (indent : Indent) :
    ∀ depth : Nat, indent.levels depth = String.join (List.replicate depth indent.unit)
  | 0 => rfl
  | depth + 1 => by
    rw [Indent.levels, indent.levels_eq_join depth, List.replicate_succ, String.join_cons]

namespace Code

/-- A node that a line of a tree stands in. -/
inductive Enclosure where
  /-- The body of a block. -/
  | body
  | margin (text : String)
deriving DecidableEq

/-- The text that a node around a line puts in front of it, if it is a margin. -/
def Enclosure.margin? : Enclosure → Option String
  | body => none
  | margin text => some text

/-- A line of a tree and the nodes it stands in, the outermost first. -/
structure LogicalLine where
  around : List Enclosure := []
  text : String
deriving DecidableEq

namespace LogicalLine

/-- The line of a larger tree, in which one more node stands around it. -/
def inside (node : Enclosure) (line : LogicalLine) : LogicalLine :=
  { line with around := node :: line.around }

/-- The margins around a line, the outermost first. -/
def margins (line : LogicalLine) : List String := line.around.filterMap Enclosure.margin?

/-- The number of bodies around a line. -/
def bodies (line : LogicalLine) : Nat := line.around.count .body

/-- What is around a line has no say in what is on it. -/
@[simp] theorem text_inside (node : Enclosure) (line : LogicalLine) :
    (line.inside node).text = line.text := rfl

@[simp] theorem margins_inside_body (line : LogicalLine) :
    (line.inside .body).margins = line.margins := rfl

@[simp] theorem margins_inside_margin (text : String) (line : LogicalLine) :
    (line.inside (.margin text)).margins = text :: line.margins := rfl

@[simp] theorem bodies_inside_body (line : LogicalLine) :
    (line.inside .body).bodies = line.bodies + 1 := List.count_cons_self

@[simp] theorem bodies_inside_margin (text : String) (line : LogicalLine) :
    (line.inside (.margin text)).bodies = line.bodies :=
  List.count_cons_of_ne (by simp)

end LogicalLine

/-- Texts as lines that nothing stands around. -/
def bareLines (texts : List String) : List LogicalLine := texts.map fun text => { text }

/-- The lines of a comment: a mark for each line of each text, and the line after it. -/
def commentTexts (mark : String) (texts : List String) : List String :=
  (texts.flatMap (Text.pieces '\n')).map fun piece =>
    if piece = "" then mark else mark ++ " " ++ piece

mutual

/-- The lines of a piece of code, each with the nodes that are around it, the outermost
first. Nothing is said here about how they are written. -/
def logicalLines : Code → List LogicalLine
  | .line text => bareLines (Text.pieces '\n' text)
  | .blank => bareLines [""]
  | .block opening body closing =>
    bareLines (Text.pieces '\n' opening) ++ (logicalLinesAll body).map (.inside .body)
      ++ bareLines (closing.toList.flatMap (Text.pieces '\n'))
  | .margin text body => (logicalLinesAll body).map (.inside (.margin text))
  | .docBlock texts => bareLines (["/**"] ++ commentTexts " *" texts ++ [" */"])
  | .remarks texts => bareLines (commentTexts "//" texts)

def logicalLinesAll : List Code → List LogicalLine
  | [] => []
  | code :: more => logicalLines code ++ logicalLinesAll more

end

/-! ## Logical lines as rows -/

namespace LogicalLine

/-- A logical line with the nodes around it summed up: the bodies are counted and the
margins joined, and how they were nested is forgotten. -/
def toRow (line : LogicalLine) : Row where
  margin := String.join line.margins
  depth := line.bodies
  text := line.text

/-- A body around a line is one more level around its row. -/
theorem toRow_inside_body (line : LogicalLine) :
    (line.inside .body).toRow = line.toRow.deeper := by
  simp [toRow, Row.deeper]

/-- A margin around a line is one more margin around its row. All margins of a row are one
text, while the nodes around a line are kept apart. -/
theorem toRow_inside_margin (text : String) (line : LogicalLine) :
    (line.inside (.margin text)).toRow = line.toRow.within text := by
  simp [toRow, Row.within]

end LogicalLine

/-- Lines with nothing around them are rows at no depth and without a margin. -/
theorem map_toRow_bareLines (texts : List String) :
    (bareLines texts).map LogicalLine.toRow = flushRows texts := by
  rw [bareLines, List.map_map]
  rfl

/-- The rows of a text are its lines with nothing around them. -/
theorem textRows_eq_map_toRow (text : String) :
    textRows text = (bareLines (Text.pieces '\n' text)).map LogicalLine.toRow := by
  rw [map_toRow_bareLines]
  rfl

mutual

/-- By induction on the tree: what the writer goes through row by row are the logical lines,
with the nodes around each of them added up. -/
theorem rows_eq_map_toRow : ∀ code : Code, code.rows = code.logicalLines.map LogicalLine.toRow
  | .line text => by rw [rows, logicalLines, textRows_eq_map_toRow]
  | .blank => by rw [rows, logicalLines, map_toRow_bareLines]
  | .block opening body closing => by
    have hbody : (rowsAll body).map Row.deeper
        = ((logicalLinesAll body).map (.inside .body)).map LogicalLine.toRow := by
      rw [rowsAll_eq_map_toRow, List.map_map, List.map_map]
      exact List.map_congr_left fun line _ => line.toRow_inside_body.symm
    have hclosing : closing.toList.flatMap textRows
        = (bareLines (closing.toList.flatMap (Text.pieces '\n'))).map LogicalLine.toRow := by
      cases closing with
      | none => rfl
      | some text =>
        simp only [Option.toList_some, List.flatMap_singleton]
        exact textRows_eq_map_toRow text
    rw [rows, logicalLines, List.map_append, List.map_append, hbody, hclosing,
      textRows_eq_map_toRow]
  | .margin text body => by
    rw [rows, logicalLines, rowsAll_eq_map_toRow, List.map_map, List.map_map]
    exact List.map_congr_left fun line _ => (line.toRow_inside_margin text).symm
  | .docBlock texts => by
    rw [rows, logicalLines, map_toRow_bareLines]
    rfl
  | .remarks texts => by
    rw [rows, logicalLines, map_toRow_bareLines]
    rfl

/-- The same for several pieces; the two inductions go hand in hand, as the two definitions
do. -/
theorem rowsAll_eq_map_toRow :
    ∀ code : List Code, rowsAll code = (logicalLinesAll code).map LogicalLine.toRow
  | [] => rfl
  | code :: more => by
    rw [rowsAll, logicalLinesAll, rows_eq_map_toRow code, rowsAll_eq_map_toRow more,
      List.map_append]

end

/-- No logical line holds a line end, since its row does not. -/
theorem newline_not_mem_logicalLines {code : Code} {line : LogicalLine}
    (h : line ∈ code.logicalLines) : '\n' ∉ line.text.toList := by
  have hrow : line.toRow ∈ code.rows := by
    rw [rows_eq_map_toRow]
    exact List.mem_map_of_mem h
  exact newline_not_mem_rows code line.toRow hrow

/-! ## What is written -/

namespace Writer

/-- A logical line as a writer sets it: the margins of the writer, the margins around the
line, the indentation, the text and a line end; or a line end alone. -/
def lineText (w : Writer) (line : LogicalLine) : String :=
  if line.text = "" then "\n"
  else
    String.join w.margins ++ String.join line.margins
      ++ String.join (List.replicate (w.depth + line.bodies) w.indent.unit) ++ line.text ++ "\n"

/-- What is written for a row is what a line has to have in front: the margins of the writer
and of the nodes, the depth of both, and nothing at all where there is no text. -/
theorem print_place_toRow (w : Writer) (line : LogicalLine) :
    (w.place line.toRow).print w.indent ++ "\n" = w.lineText line := by
  by_cases h : line.text = ""
  · simp [lineText, place, Row.print, LogicalLine.toRow, h]
  · simp [lineText, place, Row.print, LogicalLine.toRow, h, Indent.levels_eq_join]

/-- **What writing a tree does.** The unit, the depth and the margins of the writer stay as
they were. The text grows by the logical lines of the tree in order, none of which holds a
line end: in front of each that is not empty the margins of the writer and then those around
the line, the outermost first, and behind them as many units as the depth of the writer and
the bodies around the line together. -/
theorem write_exact (w : Writer) (code : Code) :
    (w.write code).indent = w.indent ∧ (w.write code).depth = w.depth ∧
    (w.write code).margins = w.margins ∧
    (w.write code).written = w.written ++ String.join (code.logicalLines.map w.lineText) ∧
    ∀ line ∈ code.logicalLines, '\n' ∉ line.text.toList := by
  rw [write_eq]
  refine ⟨rfl, rfl, rfl, ?_, fun line hline => newline_not_mem_logicalLines hline⟩
  show w.written ++ String.join (code.rows.map _) = _
  rw [rows_eq_map_toRow, List.map_map]
  refine congrArg (w.written ++ String.join ·) (List.map_congr_left ?_)
  intro line _
  exact w.print_place_toRow line

end Writer

end Code

end ClassDraft
