import ClassDraft.Method
import ClassDraft.Property

/-!
# Drafts of classes and interfaces

A draft is built up by steps, in any order; a step that would make it ill-formed
is refused and leaves nothing behind. Names of methods are unique, and so are
names of properties. The constructor, if there is one, is the first method and
never static. An interface has constants and bare signatures only; what a class
inherits from, an interface lists among the interfaces it extends.
-/

namespace ClassDraft

namespace Draft

/-- What a draft is to become. The kind is settled at the beginning and never changes, while
what it forbids is checked at each step. -/
inductive Kind where
  | classKind
  | interfaceKind
deriving DecidableEq, Repr

instance : Inhabited Kind := ⟨.classKind⟩

/-- What may stand before the keyword of a class. The two exclude each other, so that the
one set last counts. -/
inductive Modifier where
  | finalClass
  | abstractClass
deriving DecidableEq, Repr

/-- The word for a modifier, as it stands before the keyword `class`. -/
def Modifier.keyword : Modifier → String
  | finalClass => "final"
  | abstractClass => "abstract"

end Draft

/-- A class or interface in the making. Nothing in it is shortened until it is settled, and
every step leaves it in a state that could be printed. -/
structure Draft where
  name : String
  kind : Draft.Kind := default
  modifier : Option Draft.Modifier := none
  inNamespace : Option String := none
  base : Option String := none
  interfaces : OrderedSet String := .empty
  traits : OrderedSet String := .empty
  methods : Roster Method := {}
  properties : Roster Property := {}
  /-- The paths that the file uses, as far as they are known. -/
  uses : UseList := {}
  description : List String := []
  constructorName : String := Name.defaultConstructor
  margin : Margin := {}
deriving DecidableEq

namespace Draft

/-- An empty draft of a kind, provided that its name is an identifier. All other names come
in later and are checked then. -/
def new (kind : Kind) (name : String) : Checked Draft := do
  Checked.require (Name.isIdentifier name) (.unexpected .className name)
  return { name, kind }

def isInterface (d : Draft) : Bool := d.kind == .interfaceKind

/-- Sets the namespace, which neither begins nor ends with a separator. Nothing else is
asked of it: it may be empty, and it need not be a path. -/
def setNamespace (d : Draft) (path : String) : Draft :=
  { d with inNamespace := some (Text.stripEnd (· == Name.separator) (Name.dropRoot path)) }

/-- Sets the modifier of a class; an interface has none. -/
def setModifier (d : Draft) (modifier : Modifier) : Draft :=
  if d.isInterface then d else { d with modifier := some modifier }

/-- Adds an interface that is implemented or extended, unless it is among them. Two
spellings of one path are two interfaces. -/
def addInterface (d : Draft) (path : String) : Checked Draft := do
  Checked.require (Name.isClassPath path) (.unexpected .interfacePath path)
  return { d with interfaces := d.interfaces.insert path }

/-- Sets the class inherited from; on an interface, adds an interface it extends. -/
def inheritFrom (d : Draft) (path : String) : Checked Draft := do
  Checked.require (Name.isClassPath path) (.unexpected .classPath path)
  if d.isInterface then return { d with interfaces := d.interfaces.insert path }
  else return { d with base := some path }

/-- Adds a trait, which only a class can have. Both causes of refusal have one fault, in
which the path is named even where it is well-formed and the interface is to blame. -/
def addTrait (d : Draft) (path : String) : Checked Draft := do
  Checked.require (!d.isInterface && Name.isClassPath path) (.unexpected .traitOnClass path)
  return { d with traits := d.traits.insert path }

/-- A method as it stands in the draft: bare on an interface, and not static as the
constructor. -/
def adapt (d : Draft) (m : Method) : Method :=
  { m with
    isBare := m.isBare || d.isInterface
    isStatic := m.isStatic && m.name != d.constructorName }

/-- Adds a method in place, the constructor at the front and any other at the end. -/
def tryAddMethod (m : Method) : InPlace Fault Draft Unit := do
  InPlace.require (Name.isIdentifier m.name) (.unexpected .methodName m.name)
  let d ← get
  let take :=
    if m.name = d.constructorName then Roster.tryPushFront (d.adapt m)
    else Roster.tryPush (d.adapt m)
  take.onPart methods (fun d methods => { d with methods := methods })
    fun _ rejected => .duplicateMember .method rejected.name

/-- The draft with a method added, for one who gives the draft away. -/
def addMethod (d : Draft) (m : Method) : Checked Draft := (tryAddMethod m).result d

/-- Adds a property in place, at the end; an interface takes only constants. -/
def tryAddProperty (p : Property) : InPlace Fault Draft Unit := do
  InPlace.require (Name.isIdentifier p.name) (.unexpected .propertyName p.name)
  InPlace.require (!(← get).isInterface || p.isConstant) (.unexpected .constantOnInterface p.name)
  (Roster.tryPush p).onPart properties (fun d properties => { d with properties := properties })
    fun _ rejected => .duplicateMember .property rejected.name

/-- The draft with a property added, for one who gives the draft away. -/
def addProperty (d : Draft) (p : Property) : Checked Draft := (tryAddProperty p).result d

/-- Names another method as the constructor. If the draft has that method already,
it moves to the front and is no longer static. -/
def setConstructor (d : Draft) (name : String) : Draft :=
  { d with
    constructorName := name
    methods := d.methods.promote name ({ · with isStatic := false }) }

/-- Records a path that the file is to list as used, apart from those that are met when the
draft is settled. A path that is not qualified leaves no trace. -/
def addUse (d : Draft) (path : String) : Draft := { d with uses := d.uses.add path }

/-- Shortens a type and records the paths in it. The type is handed back for use in texts
that the draft does not look into, such as bodies. -/
def importType (d : Draft) (type : String) : String × Draft :=
  let (short, uses) := (UseList.shorten type).run d.uses
  (short, { d with uses := uses })

/-- Adds a text to the comment on the class, one line for each of its lines. -/
def describe (d : Draft) (text : String) : Draft :=
  { d with description := d.description ++ Text.pieces '\n' text }

def withMargin (d : Draft) (text : String) : Draft := { d with margin := .of text }

/-- The margin of the members: that of the draft, and one level of indentation. -/
def memberMargin (d : Draft) (o : Options) : String := d.margin.textD ++ o.indent.unit

/-- The draft with every path in it shortened and every member settled. The order of the
steps is the order in which the used paths will be listed. -/
def settle (d : Draft) (o : Options) : StateM UseList Draft := do
  let base ← d.base.mapM UseList.refer
  let interfaces ← d.interfaces.toList.mapM UseList.refer
  let traits ← d.traits.toList.mapM UseList.refer
  let properties ← d.properties.members.mapM fun p => (p.withMargin (d.memberMargin o)).settle o
  let methods ← d.methods.members.mapM fun m => (m.withMargin (d.memberMargin o)).settle o
  return { d with
    base := base
    interfaces := .ofList interfaces
    traits := .ofList traits
    properties := ⟨properties⟩
    methods := ⟨methods⟩ }

/-- The settled draft together with all the paths it uses. Those met on the way are
collected in a list of their own, which is then merged into the one the draft had before. -/
def settled (d : Draft) (o : Options) : Draft :=
  let (draft, met) := (d.settle o).run .empty
  { draft with uses := d.uses.merge met }

/-- The comment on the class, if it is described. It is not drawn up from anything but the
description, so that annotations do not come into it. -/
def comment (d : Draft) (o : Options) : Option Comment :=
  Comment.nonempty? { lines := d.description, style := o.commentStyle, margin := d.margin }

/-- A list of names after a keyword, or nothing if there are none. -/
def clause (keyword : String) (names : List String) : String :=
  if names.isEmpty then "" else " " ++ keyword ++ " " ++ ", ".intercalate names

/-- The line that opens a class or an interface. The kind decides which clauses there are:
an interface extends its interfaces, while a class extends its base and implements its
interfaces. -/
def declaration (d : Draft) : String :=
  (match d.kind with
    | .interfaceKind => "interface " ++ d.name ++ clause "extends" d.interfaces.toList
    | .classKind =>
      (match d.modifier with
        | some modifier => modifier.keyword ++ " "
        | none => "")
      ++ "class " ++ d.name ++ clause "extends" d.base.toList
      ++ clause "implements" d.interfaces.toList)
  ++ " \x7b"

/-- Whether two drafts are the same, where the order of interfaces, of traits and of
used paths does not count. -/
def same (d e : Draft) : Bool :=
  d.interfaces.sameMembers e.interfaces && d.traits.sameMembers e.traits
    && d.uses.sameMembers e.uses
    && decide (d = { e with
      interfaces := d.interfaces
      traits := d.traits
      uses := d.uses })

end Draft

end ClassDraft
