import ClassDraft.Draft

/-!
# The steps by which a draft is built

Every change to a draft is a value of `Edit`, so a history of changes is a list.
`build` carries out a history that must succeed at each step; `attempt` goes on
after a refused step with what that step has left.
-/

namespace ClassDraft.Draft

/-- What can be done to a draft once it is there, with all that the step is given. The names
say what is wanted, not that it will be accepted. -/
inductive Edit where
  | setNamespace (path : String)
  | setModifier (modifier : Modifier)
  | inheritFrom (path : String)
  | addInterface (path : String)
  | addTrait (path : String)
  | addMethod (method : Method)
  | addProperty (property : Property)
  | addConstant (name value : String)
  | addUse (path : String)
  | importType (type : String)
  | describe (text : String)
  | setMargin (text : String)
  | setConstructor (name : String)
  /-- Replaces the draft by its settled form. -/
  | settle (options : Options)

/-- Carries out a change or refuses it, for one who gives the draft away. Only six of the
changes can be refused. -/
def edit (d : Draft) : Edit → Checked Draft
  | .setNamespace path => .ok (d.setNamespace path)
  | .setModifier modifier => .ok (d.setModifier modifier)
  | .inheritFrom path => d.inheritFrom path
  | .addInterface path => d.addInterface path
  | .addTrait path => d.addTrait path
  | .addMethod method => d.addMethod method
  | .addProperty property => d.addProperty property
  | .addConstant name value => d.addProperty (.constant name value)
  | .addUse path => .ok (d.addUse path)
  | .importType type => .ok (d.importType type).2
  | .describe text => .ok (d.describe text)
  | .setMargin text => .ok (d.withMargin text)
  | .setConstructor name => .ok (d.setConstructor name)
  | .settle options => .ok (d.settled options)

/-- The draft that a history of changes leads to, if no change is refused. -/
def build (kind : Kind) (name : String) (edits : List Edit) : Checked Draft := do
  edits.foldlM edit (← new kind name)

/-- The draft that is there after a change was tried. Members are added in place, so that it
is what adding them has left. The other changes use up the draft that they are made to: they
are given a copy, and the draft itself goes on where nothing comes back. -/
def attempt (d : Draft) : Edit → Draft
  | .addMethod method => (tryAddMethod method).left d
  | .addProperty property => (tryAddProperty property).left d
  | change =>
    match d.edit change with
    | .ok next => next
    | .error _ => d

end ClassDraft.Draft
