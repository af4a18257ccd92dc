import ClassDraft.Statement

/-!
# Initial values of parameters, properties and constants

A value is the keyword for "nothing" or a literal given as text. A literal is
tidied when it is written: it loses the blanks around it, a quoted `"null"` is
taken for the keyword, and an array that was handed over inside single quotes is
written without them and without the space before a closing bracket.
-/

namespace ClassDraft

/-- The value something starts out with. That nothing is one of the values is not the same
as that there is none. -/
inductive Initializer where
  | null
  | literal (text : String)
deriving DecidableEq, Repr

namespace Initializer

/-- Whether a literal is an array inside single quotes. Both quotes must be
there, so three characters are not enough. -/
def isQuotedArray (text : String) : Bool :=
  decide (4 ≤ text.toList.length) && Statement.startsWith text "'[" && Statement.endsWith text "]'"

/-- A quoted array without its quotes and without spaces before brackets. -/
def unquoteArray (text : String) : String :=
  let inner := String.ofList text.toList.tail.dropLast
  String.ofList (Text.dropBefore ' ' ']' (Text.trimEnd inner).toList)

/-- A literal as it is printed, without the blanks around it. Beyond that only the two
quoted forms are changed; an array that came without quotes is left alone, spaces and all. -/
def tidy (text : String) : String :=
  let text := Text.trim text
  if text = "\"null\"" then "null"
  else if isQuotedArray text then unquoteArray text
  else text

/-- The text of an initial value. Only literals are tidied. -/
def render : Initializer → String
  | null => "null"
  | literal text => tidy text

end Initializer

end ClassDraft
