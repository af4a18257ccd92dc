import ClassDraft.Access
import ClassDraft.Options
import ClassDraft.Text.Upper

/-!
# Properties and constants

A constant is a property that is declared with the keyword for constants; its
name is printed in upper case and its type, if it has one, is not printed.
Settling a property shortens its type and draws up its comment: the description
and, for a property with a type, the annotation of that type.
-/

namespace ClassDraft

/-- A property or constant of a class. A step of its own makes a property a constant, and
changes how it is printed. -/
structure Property where
  name : String
  access : Access := default
  type : Option String := none
  initial : Option Initializer := none
  isConstant : Bool := false
  isStatic : Bool := false
  description : List String := []
  /-- The comment that was drawn up when the property was last settled. -/
  comment : Option Comment := none
  margin : Margin := {}
deriving DecidableEq, Repr

namespace Property

instance : Named Property where
  name := Property.name

/-- A public property without type or initial value. -/
def named (name : String) : Property := { name }

/-- What can be done to a property by itself, before it is added to a draft. -/
inductive Edit where
  | typed (type : String)
  | initially (value : Initializer)
  | constant
  | setStatic (value : Bool)
  | access (keyword : String)
  | describe (text : String)
  | setMargin (text : String)
deriving DecidableEq, Repr

/-- Sets the text in front of every line of the property. A draft does this to its
properties when it is settled. -/
def withMargin (p : Property) (text : String) : Property := { p with margin := .of text }

/-- Carries out a step. The only one that can be refused is setting the access by a word,
for a word that names none. -/
def edit (p : Property) : Edit → Checked Property
  | .typed type => .ok { p with type := some type }
  | .initially value => .ok { p with initial := some value }
  | .constant => .ok { p with isConstant := true }
  | .setStatic value => .ok { p with isStatic := value }
  | .access keyword => do return { p with access := ← Access.parse keyword }
  | .describe text => .ok { p with description := p.description ++ Text.pieces '\n' text }
  | .setMargin text => .ok (p.withMargin text)

/-- The property that steps lead to, unless one of them is refused. -/
def build (name : String) (edits : List Edit) : Checked Property :=
  edits.foldlM edit (named name)

/-- A public constant with a literal value. Its name is taken as it is and put into capitals
only in print. -/
def constant (name value : String) : Property :=
  { name, initial := some (.literal value), isConstant := true }

/-- The annotation of a type, below the description and a gap if there is one. -/
def annotationLines (description : List String) (type : String) : List String :=
  (if description.isEmpty then [] else [""]) ++ ["@var " ++ type]

/-- The comment of a property whose type has the given short form. A constant is described
but never annotated, since its value says what type it has. -/
def commentFor (p : Property) (o : Options) (type : Option String) : Comment where
  lines := p.description ++ match type with
    | some type => if o.annotate && !p.isConstant then annotationLines p.description type else []
    | none => []
  style := o.commentStyle
  margin := p.margin

/-- The property with its type shortened and its comment drawn up. An initial value is left
alone. -/
def settle (p : Property) (o : Options) : StateM UseList Property := do
  let type ← p.type.mapM UseList.shorten
  return { p with type := type, comment := (p.commentFor o type).nonempty? }

/-- What is declared, before the initial value: the words in front, the type and the name. A
constant has its name in capitals and no type. -/
def declared (p : Property) : String :=
  if p.isConstant then p.access.keyword ++ " const " ++ Text.upper p.name
  else
    p.access.keyword ++ (if p.isStatic then " static" else "")
      ++ (match p.type with
        | some type => " " ++ type
        | none => "")
      ++ " $" ++ p.name

/-- The line that declares a property, with its initial value if it has one. -/
def declaration (p : Property) : String :=
  p.declared
    ++ (match p.initial with
      | some value => " = " ++ value.render
      | none => "")
    ++ ";"

/-- The property as code: its comment, if it was settled, and its declaration. -/
def toCode (p : Property) : List Code :=
  (match p.comment with
    | some comment => comment.toCode
    | none => [])
  ++ p.margin.wrap [.line p.declaration]

/-- The property as it would be printed alone, with default options and no draft around it.
The paths in it are shortened but listed nowhere. -/
def display (p : Property) : String :=
  Code.render (default : Options).indent ((p.settle default).run .empty).1.toCode

end Property

end ClassDraft
