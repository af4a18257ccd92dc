import ClassDraft.Access
import ClassDraft.Options

/-!
# Methods

A method has a signature and, unless it is a bare signature, a body of lines.
Settling a method shortens the types of its signature and the names of its
exceptions and draws up its comment.
-/

namespace ClassDraft

/-- A line of a body. How it is to be terminated depends on what it is when the body is
printed, so lines are kept as they came, with the way they came in. -/
inductive BodyLine where
  /-- A line that is terminated as its kind demands. -/
  | statement (text : String)
  /-- A line that is written as it is. -/
  | verbatim (text : String)
deriving DecidableEq, Repr

namespace BodyLine

/-- A line of a body as it is printed; no line ends in a blank. -/
def render : BodyLine → String
  | statement text => Statement.terminate text
  | verbatim text => Text.trimEnd text

/-- A line out of a longer text. Its terminator is taken off, to be put back if
the line is a statement that does not go on in the next line. -/
def ofSource (line : String) : BodyLine :=
  let text := Statement.dropSemicolons (Text.trimEnd line)
  if Statement.kind text = .plain && Statement.endsOpen text [] then verbatim text
  else statement text

end BodyLine

/-- A method in the making: its signature, its body, and what is said about it. Types and
exceptions are kept as full paths until the method is settled, and again as short names
after that. -/
structure Method where
  name : String
  access : Access := default
  description : List String := []
  params : Roster Param := {}
  returns : Returns := default
  exceptions : List String := []
  isStatic : Bool := false
  body : List BodyLine := []
  /-- Whether the method is a signature without a body. -/
  isBare : Bool := false
  /-- The comment that was drawn up when the method was last settled. -/
  comment : Option Comment := none
  margin : Margin := {}
deriving DecidableEq

namespace Method

instance : Named Method where
  name := Method.name

/-- A public method with an empty body. -/
def named (name : String) : Method := { name }

/-- Adds a parameter at the end, in place. Its name is checked here and not when the
parameter was made. -/
def tryAddParam (p : Param) : InPlace Fault Method Unit := do
  InPlace.require (Name.isIdentifier p.name) (.unexpected .paramName p.name)
  (Roster.tryPush p).onPart params (fun m params => { m with params := params })
    fun m rejected => .duplicateParam m.name rejected.name

/-- The method with a parameter added at the end, for one who gives the method away. -/
def addParam (m : Method) (p : Param) : Checked Method := (tryAddParam p).result m

/-- The method with parameters added one after another, unless one of them is refused. -/
def addParams (m : Method) (params : List Param) : Checked Method :=
  InPlace.result (params.forM tryAddParam) m

/-- Adds exceptions, all of them or none: they are all checked before the first is added.
The same exception may be added twice. -/
def addExceptions (m : Method) (exceptions : List String) : Checked Method :=
  match exceptions.find? (!Name.isClassPath ·) with
  | some bad => .error (.unexpected .exceptionName bad)
  | none => .ok { m with exceptions := m.exceptions ++ exceptions }

def addLines (m : Method) (lines : List BodyLine) : Method := { m with body := m.body ++ lines }

/-- Sets the text in front of every line of the method. A draft does this to its methods
when it is settled. -/
def withMargin (m : Method) (text : String) : Method := { m with margin := .of text }

/-- What can be done to a method by itself. All that a draft does to a method that it takes
in could be done by `bare` and `setStatic`. -/
inductive Edit where
  | access (keyword : String)
  | describe (text : String)
  | addParam (param : Param)
  | addParams (params : List Param)
  | returning (type : Returns)
  | raising (exceptions : List String)
  | setStatic (value : Bool)
  | bare
  | addStatements (text : String)
  | addVerbatim (text : String)
  | addSource (text : String)
  | setMargin (text : String)
deriving DecidableEq, Repr

/-- Carries out one step. A method that is named like a constructor cannot be made
static. -/
def edit (m : Method) : Edit → Checked Method
  | .access keyword => do return { m with access := ← Access.parse keyword }
  | .describe text => .ok { m with description := m.description ++ Text.pieces '\n' text }
  | .addParam param => m.addParam param
  | .addParams params => m.addParams params
  | .returning type => .ok { m with returns := type }
  | .raising exceptions => m.addExceptions exceptions
  | .setStatic value =>
    .ok { m with isStatic := value && m.name != Name.defaultConstructor }
  | .bare => .ok { m with isBare := true }
  | .addStatements text => .ok (m.addLines ((Text.pieces '\n' text).map .statement))
  | .addVerbatim text => .ok (m.addLines ((Text.pieces '\n' text).map .verbatim))
  | .addSource text => .ok (m.addLines ((Text.lines text).map .ofSource))
  | .setMargin text => .ok (m.withMargin text)

/-- The method that steps lead to, unless one of them is refused. -/
def build (name : String) (edits : List Edit) : Checked Method := edits.foldlM edit (named name)

/-- The comment of a method whose signature has the given short parts. Without annotations
it is the description as it is, with no line added. -/
def commentFor (m : Method) (o : Options) (params : List Param) (returns : Returns)
    (exceptions : List String) : StateM UseList Comment := do
  let comment ←
    if o.annotate then
      Comment.ofSignature m.description params returns exceptions o.commentStyle
    else
      pure { lines := m.description, style := o.commentStyle }
  return { comment with margin := m.margin }

/-- The method with its signature shortened and its comment drawn up. The body is left
alone, whatever paths are in it. -/
def settle (m : Method) (o : Options) : StateM UseList Method := do
  let params ← m.params.members.mapM Param.shorten
  let returns ← m.returns.shorten
  let exceptions ← m.exceptions.mapM UseList.refer
  let comment ← m.commentFor o params returns exceptions
  return { m with
    params := ⟨params⟩
    returns := returns
    exceptions := exceptions
    comment := comment.nonempty? }

/-- The signature of a method; a bare signature is always public, whatever access the method
was given. -/
def signature (m : Method) : String :=
  (if m.isBare then Access.everyone else m.access).keyword
    ++ (if m.isStatic then " static" else "")
    ++ " function " ++ m.name ++ "(" ++ Param.renderList m.params.members ++ ")"
    ++ (match m.returns.render with
      | some type => ": " ++ type
      | none => "")

/-- The signature and, unless the method is bare, its body. -/
def declaration (m : Method) : List Code :=
  if m.isBare then [.line (m.signature ++ ";")]
  else
    [.line m.signature,
      .block "\x7b" (m.body.map fun line => .line line.render) (some "\x7d")]

/-- The method as code: its comment, if it was settled, and its declaration. -/
def toCode (m : Method) : List Code :=
  (match m.comment with
    | some comment => comment.toCode
    | none => [])
  ++ m.margin.wrap m.declaration

/-- The method as it would be printed alone, with default options and no draft around it.
The paths in it are shortened but listed nowhere. -/
def display (m : Method) : String :=
  Code.render (default : Options).indent ((m.settle default).run .empty).1.toCode

end Method

end ClassDraft
