/-!
# Cutting text at a separator

Two views of a text: its *pieces* at a separator, of which there is always at
least one and which keep every character but the separators, and its *lines*,
where a line end closes the line before it, so that a final line end opens no
new line, and the carriage return of a two-character line end belongs to it.
-/

namespace ClassDraft.Text

/-- The pieces of a character list between the occurrences of `sep`. -/
def piecesOf (sep : Char) : List Char → List (List Char)
  | [] => [[]]
  | c :: rest =>
    if c = sep then [] :: piecesOf sep rest
    else match piecesOf sep rest with
      | [] => [[c]]
      | piece :: more => (c :: piece) :: more

/-- The pieces of a text between the occurrences of `sep`. -/
def pieces (sep : Char) (s : String) : List String :=
  (piecesOf sep s.toList).map String.ofList

/-- What follows the last `sep`, or everything where there is none. -/
def afterLast (sep : Char) (s : String) : String :=
  String.ofList (s.toList.reverse.takeWhile (· != sep)).reverse

/-- A line without the carriage return that is part of its line end. -/
def dropReturn (line : List Char) : List Char :=
  if line.getLast? = some '\r' then line.dropLast else line

/-- The lines among newline-separated pieces: each piece but the last was closed
by a line end, and the last counts only if something stands on it. -/
def closedLines : List (List Char) → List (List Char)
  | [] => []
  | [last] => if last = [] then [] else [last]
  | piece :: next :: more => dropReturn piece :: closedLines (next :: more)

/-- The lines of a text, each without its line end. Unlike the pieces between line ends,
these do not include an empty rest behind the last one. -/
def lines (s : String) : List String :=
  (closedLines (piecesOf '\n' s.toList)).map String.ofList

/-- Replaces each occurrence of the two characters `a b` by `b` alone, reading
from the left. -/
def dropBefore (a b : Char) : List Char → List Char
  | [] => []
  | [c] => [c]
  | c :: d :: rest =>
    if c = a ∧ d = b then b :: dropBefore a b rest else c :: dropBefore a b (d :: rest)

end ClassDraft.Text
