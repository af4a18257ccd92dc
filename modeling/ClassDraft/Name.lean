import ClassDraft.Text.Blank
import ClassDraft.Text.Pieces

/-!
# Names and class paths

An *identifier* is an ASCII letter or underscore followed by ASCII letters,
digits and underscores. A *class path* is a list of identifiers joined by the
namespace separator, optionally rooted by one more separator in front. A text is
*qualified* when it holds a separator anywhere.
-/

namespace ClassDraft.Name

/-- The character between the parts of a class path, which also stands in front of a rooted
one. -/
def separator : Char := '\\'

/-- The method name that the language reserves for construction. -/
def defaultConstructor : String := "__construct"

/-- Letters of the basic alphabet and the underscore; no others, whatever their script. -/
def startsIdentifier (c : Char) : Bool := c.isAlpha || c == '_'

/-- What may follow the first character of an identifier, which is to say that digits are
allowed as well. -/
def continuesIdentifier (c : Char) : Bool := c.isAlphanum || c == '_'

/-- Whether characters spell an identifier. The empty text is none. -/
def spellsIdentifier : List Char → Bool
  | [] => false
  | c :: rest => startsIdentifier c && rest.all continuesIdentifier

/-- Whether a text can be the name of a class, a member or a parameter. -/
def isIdentifier (s : String) : Bool := spellsIdentifier s.toList

/-- The characters of a path without the one separator that may root it. -/
def unrooted : List Char → List Char
  | [] => []
  | c :: rest => if c = separator then rest else c :: rest

/-- Whether a text can name a class in some namespace: identifiers with separators between
them, and perhaps one separator more in front. An identifier alone is a class path too. -/
def isClassPath (s : String) : Bool :=
  (Text.piecesOf separator (unrooted s.toList)).all spellsIdentifier

/-- Whether a text holds a namespace separator, wherever in it. A rooted name without a
namespace does. -/
def isQualified (s : String) : Bool := s.toList.contains separator

/-- A path without any leading separators. There is no more than one in a class path, but
other texts come here too. -/
def dropRoot (path : String) : String := Text.stripStart (· == separator) path

/-- The last part of a path: what follows its last separator, and the whole text if it has
none. -/
def short (path : String) : String := Text.afterLast separator path

end ClassDraft.Name
