import ClassDraft.Fault
import ClassDraft.Options
import ClassDraft.Settings.Document

/-!
# Options from a settings document

A document sets any of four options and leaves the others at their defaults; it
must not name anything else. A choice between alternatives is written as the name
of the alternative, or as a table whose only key is that name and which holds what
belongs to the alternative: a width for spaces, and nothing for the others.
-/

namespace ClassDraft

namespace Settings.Value

/-- Whether a value holds nothing, as one has to that belongs to an alternative without a
width. -/
def isVoid : Value → Bool
  | .table _ [] | .list [] => true
  | _ => false

/-- The name of an alternative that nothing belongs to. -/
def choice? : Value → Option String
  | .text name => some name
  | .table _ [(name, inner)] => if inner.isVoid then some name else none
  | _ => none

def flag? : Value → Option Bool
  | .flag value => some value
  | _ => none

end Settings.Value

namespace Indent

/-- Reads an indentation, which is a choice: the word for tabs, or a table whose only field
gives a width. A width has to fit into one byte. -/
def ofValue? : Settings.Value → Option Indent
  | .table _ [("spaces", .integer width)] =>
    if 0 ≤ width ∧ width < 256 then some (.spaces width.toNat.toUInt8) else none
  | value => do if (← value.choice?) = "tab" then some .tab else none

end Indent

namespace CommentStyle

/-- Reads a style of comments by its name; there are two, and names are matched exactly. -/
def ofValue? (value : Settings.Value) : Option CommentStyle := do
  let name ← value.choice?
  if name = "multi" then some .multi else if name = "single" then some .single else none

end CommentStyle

namespace Options

/-- Sets the option that a key names. Neither an unknown key nor a value of the wrong kind
is passed over. -/
def set? (o : Options) (key : String) (value : Settings.Value) : Option Options :=
  match key with
  | "indent" => do return { o with indent := ← Indent.ofValue? value }
  | "comment_style" => do return { o with commentStyle := ← CommentStyle.ofValue? value }
  | "docblocks" => do return { o with annotate := ← value.flag? }
  | "open_tag" => do return { o with openTag := ← value.flag? }
  | _ => none

/-- The options that a document describes. Those it does not mention keep their defaults,
and one bad field spoils the whole document. -/
def ofDocument? (document : String) : Option Options := do
  (← Settings.parse? document).foldlM (fun o field => o.set? field.1 field.2) default

/-- The options that a document describes, or a refusal. -/
def ofDocument (document : String) : Checked Options :=
  match ofDocument? document with
  | some o => .ok o
  | none => .error .badOptions

/-- The options in a file, given what could be read there. A file that is not there,
or that is not text, is refused under its path. -/
def ofFile (path : String) (contents : Option ByteArray) : Checked Options :=
  match contents.bind String.fromUTF8? with
  | some document => ofDocument document
  | none => .error (.unreadable path)

end Options

end ClassDraft
