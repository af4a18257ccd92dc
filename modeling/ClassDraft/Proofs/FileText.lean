import ClassDraft.Proofs.Rows
import ClassDraft.Proofs.Settling
import ClassDraft.SourceFile

/-!
# The text of a file from the text of its class

A file and its class are printed by two writers, and these end their texts in two ways: the
file keeps the line end of its last line, the class alone gives it up. Nevertheless **the
file is its head followed by the text of the class and one line end** (`file_text`). The code of
a class always has a last line, the closing brace, so that there is one line end to give up
and no more.

The head is printed letter by letter. Outside every margin and every block a text is
written as it stands, even where it holds line ends of its own (`Code.text_line`), which a
namespace or a path may.
-/

namespace ClassDraft

namespace Code

theorem Row.print_flush (indent : Indent) (text : String) : Row.print indent { text } = text := by
  by_cases h : text = ""
  · simp [Row.print, h]
  · simp [Row.print, Indent.levels, h]

/-- A line that stands by itself is its text, whatever that holds, and a line end. -/
theorem text_line (indent : Indent) (line : String) :
    text indent [.line line] = line ++ "\n" := by
  have hlines : lines indent [.line line] = Text.pieces '\n' line := by
    rw [lines, rowsAll_singleton, rows, textRows, flushRows, List.map_map]
    exact (List.map_congr_left fun piece _ => Row.print_flush indent piece).trans (List.map_id _)
  rw [text_eq, hlines, Text.join_closed (Text.pieces_ne_nil _ _), Text.intercalate_pieces rfl]

theorem text_map_line (indent : Indent) (lines : List String) :
    text indent (lines.map .line) = String.join (lines.map (· ++ "\n")) := by
  induction lines with
  | nil => rfl
  | cons first rest ih =>
    have happend : text indent ([.line first] ++ rest.map .line) = _ := text_append indent _ _
    rw [text_line, ih] at happend
    rw [List.map_cons, List.map_cons, String.join_cons]
    exact happend

end Code

/-- A class ends with its closing brace, whatever stands before it. -/
theorem FairCopy.lines_toCode_ne_nil (c : FairCopy) (indent : Indent) :
    Code.lines indent c.toCode ≠ [] := by
  simp [toCode, Code.lines, Code.rowsAll_append, Code.rowsAll_wrap, Code.rowsAll_singleton,
    Code.rows, Code.textRows_ne_nil]

/-- As part of a file the class ends its last line, which by itself it does not. -/
theorem FairCopy.text_toCode (c : FairCopy) :
    Code.text c.options.indent c.toCode = c.render ++ "\n" :=
  (Code.render_append_newline (c.lines_toCode_ne_nil c.options.indent)).symm

namespace SourceFile

/-- A paragraph is its lines and a blank line, or nothing if it has none. -/
theorem text_paragraph (indent : Indent) (lines : List String) :
    Code.text indent (paragraph lines)
      = if lines.isEmpty then "" else String.join (lines.map (· ++ "\n")) ++ "\n" := by
  unfold paragraph
  split
  next => rfl
  next =>
    have hblank : Code.text indent [Code.blank] = "\n" := rfl
    rw [Code.text_append, Code.text_map_line, hblank]

theorem text_paragraph_singleton (indent : Indent) (line : String) :
    Code.text indent (paragraph [line]) = line ++ "\n\n" := by
  rw [text_paragraph]
  simp [String.append_assoc]

/-- The part of the head that names the namespace, if there is one. -/
def namespaceText : Option String → String
  | some path => if path = "" then "" else "namespace " ++ path ++ ";\n\n"
  | none => ""

theorem text_namespace (indent : Indent) (inNamespace : Option String) :
    Code.text indent (paragraph (match inNamespace with
      | some path => if path = "" then [] else ["namespace " ++ path ++ ";"]
      | none => [])) = namespaceText inNamespace := by
  cases inNamespace with
  | none => rfl
  | some path =>
    by_cases h : path = ""
    · simp [namespaceText, h, text_paragraph]
    · simp [namespaceText, h, text_paragraph_singleton, String.append_assoc]

/-- The lines of the used paths, each closed by a line end. -/
def useLines (paths : List String) : List String := paths.map fun path => "use " ++ path ++ ";\n"

/-- The lines of the used paths and a blank line, or nothing if nothing is used. -/
theorem text_uses (indent : Indent) (paths : List String) :
    Code.text indent (paragraph (paths.map fun path => "use " ++ path ++ ";"))
      = if paths.isEmpty then "" else String.join (useLines paths) ++ "\n" := by
  rw [text_paragraph, List.isEmpty_map, List.map_map]
  simp [useLines, Function.comp_def, String.append_assoc]

/-- No path has two lines, since a line tells its path. -/
theorem nodup_useLines {paths : List String} (h : paths.Nodup) : (useLines paths).Nodup := by
  refine List.Pairwise.map _ ?_ h
  intro path other hne heq
  exact hne (by simpa using heq)

/-- A file is its four parts, of which only the last is always there. -/
theorem render_eq (f : SourceFile) :
    f.render = (if f.openTag then "<?php\n\n" else "")
      ++ namespaceText f.copy.draft.inNamespace
      ++ (if f.uses.isEmpty then "" else String.join (useLines f.uses) ++ "\n")
      ++ f.copy.render ++ "\n" := by
  have htag : Code.text f.copy.options.indent (paragraph (if f.openTag then ["<?php"] else []))
      = if f.openTag then "<?php\n\n" else "" := by
    cases f.openTag with
    | true => exact text_paragraph_singleton _ _
    | false => rfl
  rw [render, toCode, Code.text_append, Code.text_append, Code.text_append, htag, text_uses,
    FairCopy.text_toCode, ← String.append_assoc]
  exact congrArg (_ ++ · ++ _ ++ _ ++ _) (text_namespace _ f.copy.draft.inNamespace)

end SourceFile

/-- **A file is its head and the text of its class.** The head is the opening tag if it is
wanted, the namespace if it is set and not empty, and one line for each used path, in order
and none twice, if there are any; an empty line follows each of these. Then come the text
that the class has by itself and one line end. -/
theorem Draft.file_text (d : Draft) (o : Options) :
    (SourceFile.of (d.fairCopy o)).render
      = (if o.openTag then "<?php\n\n" else "")
        ++ (match d.inNamespace with
          | some path => if path = "" then "" else "namespace " ++ path ++ ";\n\n"
          | none => "")
        ++ (if (d.settled o).uses.toList.isEmpty then ""
          else String.join ((d.settled o).uses.toList.map fun path => "use " ++ path ++ ";\n")
            ++ "\n")
        ++ (d.fairCopy o).render ++ "\n" ∧
    ((d.settled o).uses.toList.map fun path => "use " ++ path ++ ";\n").Nodup := by
  have hnamespace : (d.fairCopy o).draft.inNamespace = d.inNamespace := by
    rw [fairCopy, settled_eq]
    rfl
  refine ⟨?_, SourceFile.nodup_useLines (d.settled o).uses.paths.nodup⟩
  rw [SourceFile.render_eq]
  show _ ++ SourceFile.namespaceText (d.fairCopy o).draft.inNamespace ++ _ ++ _ ++ _ = _
  rw [hnamespace]
  rfl

end ClassDraft
