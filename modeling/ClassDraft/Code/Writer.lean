import ClassDraft.Code
import ClassDraft.Indent
import ClassDraft.Text.Pieces

/-!
# Writing code out

The writer holds the text written so far together with the depth and the margins
at which the next line will stand. Every operation appends whole lines. A line
without text is written as a bare line end: neither margin nor indentation ever
stands alone, so setting code deeper adds no blanks to its empty lines.

The writer itself is never rewound. Setting a tree (`write`) therefore has to
leave depth and margins as it found them, which it does by undoing after each
inner node what that node has set.
-/

namespace ClassDraft.Code

/-- A text in the making and the place of its next line. The place is a depth and a number
of margins, which come and go while the tree is written. -/
structure Writer where
  indent : Indent := default
  depth : Nat := 0
  /-- The margins in force, the outermost first. -/
  margins : List String := []
  written : String := ""
deriving DecidableEq

namespace Writer

def start (indent : Indent) : Writer := { indent := indent }

/-- What precedes the text of the next line: all margins, and behind them all indentation. -/
def lead (w : Writer) : String := String.join w.margins ++ w.indent.levels w.depth

/-- Ends a line with nothing on it. Neither the indentation nor a margin is written, since
an empty line shall not end in blanks. -/
def writeBlank (w : Writer) : Writer := { w with written := w.written ++ "\n" }

/-- Appends one line of text that holds no line end. -/
def writeText (w : Writer) (text : String) : Writer :=
  if text = "" then w.writeBlank
  else { w with written := w.written ++ (w.lead ++ text ++ "\n") }

def writeTexts (w : Writer) (texts : List String) : Writer := texts.foldl writeText w

/-- Appends a text that may hold line ends, each of its lines at the same place. -/
def writeLine (w : Writer) (text : String) : Writer := w.writeTexts (Text.pieces '\n' text)

/-- Goes one level in, for all that is written until `shallower`. -/
def deeper (w : Writer) : Writer := { w with depth := w.depth + 1 }

/-- Sets the next lines one level less deep, but never above the first level. -/
def shallower (w : Writer) : Writer := { w with depth := w.depth - 1 }

/-- Puts a margin inside the others in front of the next lines. -/
def pushMargin (w : Writer) (text : String) : Writer := { w with margins := w.margins ++ [text] }

/-- Removes the innermost margin, if there is one. -/
def popMargin (w : Writer) : Writer := { w with margins := w.margins.dropLast }

/-- A comment line: the mark alone where there is nothing to say, and otherwise
the mark, a space and the text. -/
def marked (mark text : String) : String := if text = "" then mark else mark ++ " " ++ text

/-- The lines of a comment, each with its mark. -/
def markedLines (mark : String) (lines : List String) : List String :=
  (lines.flatMap (Text.pieces '\n')).map (marked mark)

/-- Writes a comment as a block, with its opening and its closing on lines of their own and
a star in front of every line between them. -/
def writeDocBlock (w : Writer) (lines : List String) : Writer :=
  ((w.writeText "/**").writeTexts (markedLines " *" lines)).writeText " */"

/-- Writes a comment as remarks: every line is marked, and nothing encloses them. -/
def writeRemarks (w : Writer) (lines : List String) : Writer :=
  w.writeTexts (markedLines "//" lines)

mutual

/-- Writes a piece of code. What a block or a margin changes for its body is undone behind
it, so that what follows is set as if the piece had not been there. -/
def write (w : Writer) : Code → Writer
  | .line text => w.writeLine text
  | .blank => w.writeBlank
  | .block opening body closing =>
    let after := ((w.writeLine opening).deeper.writeAll body).shallower
    match closing with
    | some text => after.writeLine text
    | none => after
  | .margin text body => ((w.pushMargin text).writeAll body).popMargin
  | .docBlock lines => w.writeDocBlock lines
  | .remarks lines => w.writeRemarks lines

/-- Writes pieces of code one after another; each begins where the one before has left the
writer. -/
def writeAll (w : Writer) : List Code → Writer
  | [] => w
  | code :: more => (w.write code).writeAll more

end

/-- The text written, without the line end that closes its last line. -/
def finish (w : Writer) : String :=
  match w.written.toList.getLast? with
  | some '\n' => String.ofList w.written.toList.dropLast
  | _ => w.written

end Writer

/-- The text of several pieces of code, each line closed by a line end. -/
def text (indent : Indent) (code : List Code) : String :=
  ((Writer.start indent).writeAll code).written

/-- The text of several pieces of code, without the line end of the last line. -/
def render (indent : Indent) (code : List Code) : String :=
  ((Writer.start indent).writeAll code).finish

end ClassDraft.Code
