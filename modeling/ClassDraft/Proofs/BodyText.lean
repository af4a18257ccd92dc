import ClassDraft.Proofs.Terminators
import Mathlib.Data.List.Forall2

/-!
# What becomes of the text of a body

The lines of a body come in by three kinds of steps, each of which cuts its text into lines.
Some lines stay as they are, some are terminated, and those of a longer text have their
terminators taken off before they are looked at. Whatever way a line takes, only its end is
touched: **each line that was put in is printed as one line, in its place, and nothing of it is
lost or added but blanks and semicolons at the end** (`Method.body_faithful`).

Which lines a text has is said by its line ends, apart from how it is cut (`Text.newlineParts`
and `Text.endedLines`). The history of a method may mix these steps with any others and may settle
the method on the way. `Wrote` keeps account of what came in, and the body follows that account
step by step.
-/

namespace ClassDraft

/-! ## The lines of a text -/

namespace Text

/-- What stands between the newlines of a text. -/
def newlineParts (s : String) : List String := (s.toList.splitOn '\n').map String.ofList

/-- The lines of a text by its line ends. A newline closes a line, and a carriage return right
before it belongs to it. What follows the last newline is a line only if it is not empty. -/
def endedLines (s : String) : List String :=
  let parts := s.toList.splitOn '\n'
  let closed := parts.dropLast.map fun part =>
    if part.getLast? = some '\r' then part.dropLast else part
  let last := if parts.getLastD [] = [] then [] else [parts.getLastD []]
  (closed ++ last).map String.ofList

/-- Cutting at line ends, in terms of the library. -/
theorem pieces_eq_newlineParts (s : String) : pieces '\n' s = newlineParts s := by
  rw [pieces, piecesOf_eq_splitOn, newlineParts]

/-- All pieces but the last are lines that a line end has closed. The last one is a line
only if there is anything in it. -/
theorem closedLines_eq : ∀ {pieces : List (List Char)}, pieces ≠ [] →
    closedLines pieces = pieces.dropLast.map dropReturn
      ++ if pieces.getLastD [] = [] then [] else [pieces.getLastD []]
  | [], h => absurd rfl h
  | [last], _ => rfl
  | piece :: next :: more, _ => by
    have ih := closedLines_eq (List.cons_ne_nil next more)
    rw [closedLines, ih]
    rfl

/-- The lines of a text, in terms of the library. -/
theorem lines_eq_endedLines (s : String) : lines s = endedLines s := by
  rw [lines, piecesOf_eq_splitOn, closedLines_eq (List.splitOn_ne_nil _ _)]
  rfl

end Text

/-! ## One line -/

namespace BodyLine

/-- Terminating a line leaves what is on it up to the end. -/
theorem bare_render (line : BodyLine) :
    Statement.bare line.render = Statement.bare line.text := by
  cases line with
  | statement text => exact Statement.bare_terminate text
  | verbatim text => exact Statement.bare_trimEnd text

theorem bare_ofSource (line : String) :
    Statement.bare (ofSource line).text = Statement.bare line := by
  rw [text_ofSource, Statement.bare_dropSemicolons, Statement.bare_trimEnd]

end BodyLine

namespace Method

/-! ## All lines -/

/-- A line of a text that was put into a body. -/
structure SourceLine where
  text : String
  /-- Whether the line is to stay as it is. -/
  asIs : Bool
deriving DecidableEq, Repr

/-- The lines of the text that a step puts into a body. -/
def Edit.sourceLines : Edit → List SourceLine
  | .addStatements text => (Text.newlineParts text).map (⟨·, false⟩)
  | .addVerbatim text => (Text.newlineParts text).map (⟨·, true⟩)
  | .addSource text => (Text.endedLines text).map (⟨·, false⟩)
  | _ => []

/-- Steps of its own lead to the method, and by them the lines `sources` were put into its body,
in this order. -/
inductive Wrote : List SourceLine → Method → Prop where
  | named (name : String) : Wrote [] (named name)
  | edit {sources : List SourceLine} {m m' : Method} (change : Edit) :
    Wrote sources m → m.edit change = .ok m' → Wrote (sources ++ change.sourceLines) m'
  | settle {sources : List SourceLine} {m : Method} (o : Options) (uses : UseList) :
    Wrote sources m → Wrote sources ((m.settle o).run uses).1

/-- The text is one line that does not end in a blank, and it is the source but for blanks and
semicolons at the end; if the source is to stay as it is, but for blanks. -/
structure Faithful (source : SourceLine) (text : String) : Prop where
  oneLine : '\n' ∉ text.toList
  trimmed : Text.endsBlank text = false
  bare_eq : Statement.bare text = Statement.bare source.text
  extends_asIs : source.asIs = true → Text.Extends Text.isBlank text source.text

/-- A line that has kept what is on it is printed faithfully, whatever its terminator has
become. -/
theorem faithful_render {line : BodyLine} {source : String} (hfree : '\n' ∉ line.text.toList)
    (hbare : Statement.bare line.text = Statement.bare source) :
    Faithful ⟨source, false⟩ line.render where
  oneLine := BodyLine.newline_not_mem_render hfree
  trimmed := line.endsBlank_render
  bare_eq := line.bare_render.trans hbare
  extends_asIs := nofun

theorem faithful_verbatim {source : String} (hfree : '\n' ∉ source.toList) :
    Faithful ⟨source, true⟩ (BodyLine.verbatim source).render := by
  have h : Faithful ⟨source, false⟩ (BodyLine.verbatim source).render := faithful_render hfree rfl
  exact ⟨h.oneLine, h.trimmed, h.bare_eq, fun _ => Text.extends_stripEnd Text.isBlank source⟩

/-- What is printed faithfully line by line is printed faithfully as a whole, in the same
order. -/
theorem faithful_map {lines : List String} {make : String → BodyLine} {asIs : Bool}
    (h : ∀ line ∈ lines, Faithful ⟨line, asIs⟩ (make line).render) :
    List.Forall₂ Faithful (lines.map (⟨·, asIs⟩)) ((lines.map make).map BodyLine.render) := by
  rw [List.map_map, List.forall₂_map_left_iff, List.forall₂_map_right_iff, List.forall₂_same]
  exact h

/-- What a step adds to a body answers to what it was given, line by line. -/
theorem faithful_bodyLines (change : Edit) :
    List.Forall₂ Faithful change.sourceLines (change.bodyLines.map BodyLine.render) := by
  cases change with
  | addStatements text =>
    rw [Edit.sourceLines, ← Text.pieces_eq_newlineParts]
    exact faithful_map fun line hline => faithful_render (Text.not_mem_of_mem_pieces hline) rfl
  | addVerbatim text =>
    rw [Edit.sourceLines, ← Text.pieces_eq_newlineParts]
    exact faithful_map fun line hline => faithful_verbatim (Text.not_mem_of_mem_pieces hline)
  | addSource text =>
    rw [Edit.sourceLines, ← Text.lines_eq_endedLines]
    refine faithful_map fun line hline => faithful_render ?_ (BodyLine.bare_ofSource line)
    exact BodyLine.newline_not_mem_ofSource (Text.newline_not_mem_lines hline)
  | _ => exact .nil

/-- The body of a method answers to all that was put into it. -/
theorem Wrote.faithful_body {sources : List SourceLine} {m : Method} (h : Wrote sources m) :
    List.Forall₂ Faithful sources (m.body.map BodyLine.render) := by
  induction h with
  | named name => exact .nil
  | edit change _ hok ih =>
    rw [body_edit hok, List.map_append]
    exact List.rel_append ih (faithful_bodyLines change)
  | settle o uses _ ih =>
    -- settling shortens types and sets the comment, and the body stays
    rw [settle_refers _ o uses]
    exact ih

/-- **Nothing of a body is lost and nothing is made up.** Whatever steps a method has gone
through, unless it is a bare signature it is printed as its comment, its signature and a block
with one line for each line that was put into its body, in this order. Each is one line, does not
end in a blank and differs from its source at most by blanks and semicolons at the end, and by
blanks only if the source was to stay as it is. -/
theorem body_faithful {sources : List SourceLine} {m : Method} (h : Wrote sources m)
    (hbody : m.isBare = false) :
    ∃ texts : List String,
      m.toCode = m.comment.elim [] Comment.toCode
        ++ m.margin.wrap [.line m.signature, .block "\x7b" (texts.map .line) (some "\x7d")] ∧
      List.Forall₂ Faithful sources texts := by
  refine ⟨m.body.map BodyLine.render, ?_, h.faithful_body⟩
  rw [toCode, declaration, hbody, if_neg Bool.false_ne_true, List.map_map]
  cases m.comment with
  | none => rfl
  | some comment => rfl

/-- A statement with two semicolons and an empty line, a line that stays as it is, and after
settling a text of two lines, the first of which goes on in the second. -/
theorem body_faithful_mixed :
    let sources : List SourceLine := [⟨"  $a = 1;; ", false⟩, ⟨"", false⟩, ⟨" raw;; ", true⟩,
      ⟨"$x = [;", false⟩, ⟨"  1]", false⟩]
    let run : Method := {
      name := "run"
      body := [.statement "  $a = 1;; ", .statement "", .verbatim " raw;; ", .verbatim "$x = [",
        .statement "  1]"] }
    Wrote sources run ∧ run.isBare = false ∧
    run.body.map BodyLine.render = ["  $a = 1;", "", " raw;;", "$x = [", "  1];"] ∧
    ∃ texts : List String,
      run.toCode = [.line run.signature, .block "\x7b" (texts.map .line) (some "\x7d")] ∧
      List.Forall₂ Faithful sources texts := by
  intro sources run
  have hstart := ((Wrote.named "run").edit (.addStatements "  $a = 1;; \n") rfl).edit
    (.addVerbatim " raw;; ") rfl
  have hrun : Wrote sources run :=
    (hstart.settle {} .empty).edit (.addSource "$x = [;\r\n  1]\n") rfl
  exact ⟨hrun, rfl, by decide +kernel, body_faithful hrun rfl⟩

end Method

end ClassDraft
