import ClassDraft.Text.Blank
import ClassDraft.Text.Pieces

/-!
# Lines of code and their terminators

A line of a method body is *empty*, part of a *block* (it opens or closes one, or
continues a parenthesis), a *comment*, or *plain*. Only a plain line is a
statement that needs a semicolon at its end: `terminate` removes what semicolons
and blanks stand there and writes exactly one. A line that ends in one of the
`continuation` characters goes on in the next line.
-/

namespace ClassDraft.Statement

/-- What a line of code is, as far as its terminator is concerned. Only plain lines get one. -/
inductive Kind where
  | block
  | comment
  | plain
  | empty
deriving DecidableEq, Repr

/-- The characters at which a statement is broken over two lines. -/
def continuation : List Char := ['[', ',', ':', '}', '{', '?']

/-- Whether a text begins with another, compared character by character. -/
def startsWith (s start : String) : Bool := start.toList.isPrefixOf s.toList

def endsWith (s stop : String) : Bool := stop.toList.isSuffixOf s.toList

/-- Whether a line opens or closes a block or stands in parentheses. Such lines go on or
come to an end without a semicolon. -/
def isBlock (line : String) : Bool :=
  let line := Text.trim line
  ["\x7b", "\x7d", ":", "("].any (endsWith line) || (startsWith line "(" && endsWith line ")")

/-- Whether a line is a comment or part of one. It is judged by how it begins, and by
whether it ends as a block comment does. -/
def isComment (line : String) : Bool :=
  let line := Text.trim line
  ["*", "/*", "//", "#"].any (startsWith line) || endsWith line "*/"

/-- The kind of a line, for which blanks at both ends do not count. A line that could be
both is a block and not a comment. -/
def kind (line : String) : Kind :=
  if Text.trim line = "" then .empty
  else if isBlock line then .block
  else if isComment line then .comment
  else .plain

/-- The line without the semicolons at its end, however many. Blanks behind them keep them
where they are. -/
def dropSemicolons (line : String) : String := Text.stripEnd (· == ';') line

/-- A line as it is written into a body: without blanks at its end, and with one
semicolon there if it is a statement. -/
def terminate (line : String) : String :=
  match kind line with
  | .plain => dropSemicolons (Text.trimEnd line) ++ ";"
  | .empty => ""
  | .block | .comment => Text.trimEnd line

/-- Whether the last character that is not blank is a continuation character or
one of `extra`. -/
def endsOpen (line : String) (extra : List Char) : Bool :=
  match (Text.trimEnd line).toList.getLast? with
  | none => false
  | some c => continuation.contains c || extra.contains c

/-- Whether the first character that is not blank is a continuation character or
one of `extra`. -/
def startsOpen (line : String) (extra : List Char) : Bool :=
  match (Text.trimStart line).toList with
  | [] => false
  | c :: _ => continuation.contains c || extra.contains c

end ClassDraft.Statement
