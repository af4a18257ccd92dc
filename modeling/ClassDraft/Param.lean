import ClassDraft.Initializer
import ClassDraft.Roster
import ClassDraft.UseList

/-!
# Parameters

A signature lists the parameters that must be given before those that may be
left out. A parameter may be left out when it says so or when it has an initial
value; one that says so without naming a value starts out as nothing.
-/

namespace ClassDraft

/-- A parameter in the making. Its name stands without the sign that it is printed with, and
its type is kept as it was given until the method is settled. -/
structure Param where
  name : String
  type : Option String := none
  initial : Option Initializer := none
  /-- Whether the parameter was declared as one that may be left out. -/
  declaredOptional : Bool := false
deriving DecidableEq, Repr

namespace Param

instance : Named Param where
  name := Param.name

/-- A parameter without type or initial value. -/
def named (name : String) : Param := { name }

/-- What can be done to a parameter. None of it is ever refused; a name is checked only when
the parameter is added to a method. -/
inductive Edit where
  | typed (type : String)
  | initially (value : Initializer)
  | optional
deriving DecidableEq, Repr

/-- Carries out a step. One that makes the parameter optional sees to it that there is an
initial value, and keeps the one that is there. -/
def edit (p : Param) : Edit → Param
  | .typed type => { p with type := some type }
  | .initially value => { p with initial := some value }
  | .optional => { p with declaredOptional := true, initial := some (p.initial.getD .null) }

/-- The parameter of a name that steps lead to. An earlier type or initial value is replaced
by a later one. -/
def build (name : String) (edits : List Edit) : Param := edits.foldl edit (named name)

/-- Whether a call may leave the parameter out: it was declared so, or it has an initial
value. -/
def isOptional (p : Param) : Bool := p.declaredOptional || p.initial.isSome

/-- A parameter as it stands in a signature: its type if it has one, its name with the sign
in front, its initial value if it has one. -/
def render (p : Param) : String :=
  let head := match p.type with
    | some type => type ++ " $" ++ p.name
    | none => "$" ++ p.name
  match p.initial with
  | some value => head ++ " = " ++ value.render
  | none => head

/-- The parameter with its type shortened; what the type refers to is recorded as used. An
initial value is not looked into. -/
def shorten (p : Param) : StateM UseList Param := do
  return { p with type := ← p.type.mapM UseList.shorten }

/-- The order of a signature: the required parameters, then the optional ones,
each kind in the order given. -/
def inSignatureOrder (params : List Param) : List Param :=
  params.filter (!·.isOptional) ++ params.filter (·.isOptional)

/-- The parameters between the parentheses of a signature. Those that may be left out come
last, whatever order they were added in. -/
def renderList (params : List Param) : String :=
  ", ".intercalate ((inSignatureOrder params).map render)

end Param

end ClassDraft
