/-!
# What can go wrong

Every refusal is a value that names its cause. The wording, the diagnostic code
and the advice that go with a cause are written here and nowhere else.
-/

namespace ClassDraft

/-- What was wanted where something else was found. Each place where a name is checked has
one of its own, by which it can be told from the others. -/
inductive Wanted where
  | className
  | classPath
  | interfacePath
  | traitOnClass
  | methodName
  | propertyName
  | constantOnInterface
  | paramName
  | exceptionName
  | accessWord
deriving DecidableEq, Repr

/-- The two kinds of members whose names are unique within a class. A method and a property
may have one name. -/
inductive MemberKind where
  | method
  | property
deriving DecidableEq, Repr

/-- The causes of refusal, each with the names that its message needs. -/
inductive Fault where
  /-- An ill-formed or misplaced name. -/
  | unexpected (wanted : Wanted) (found : String)
  /-- A second member of one kind and name. -/
  | duplicateMember (kind : MemberKind) (name : String)
  /-- A second parameter of one name. -/
  | duplicateParam (method name : String)
  /-- A file that is not there or is not text. -/
  | unreadable (path : String)
  /-- A document that does not describe options. -/
  | badOptions
deriving DecidableEq, Repr

/-- How the message calls what was wanted. Each text takes its place in "expected ..., found
...". -/
def Wanted.text : Wanted → String
  | .className => "a class name"
  | .classPath => "a class path"
  | .interfacePath => "an interface path"
  | .traitOnClass => "a trait path on a class"
  | .methodName => "a method name"
  | .propertyName => "a property name"
  | .constantOnInterface => "a constant on an interface"
  | .paramName => "a parameter name"
  | .exceptionName => "an exception class name"
  | .accessWord => "one of public, protected, private"

/-- How messages and advice call a kind of member. -/
def MemberKind.text : MemberKind → String
  | .method => "method"
  | .property => "property"

namespace Fault

/-- The message for a cause; names stand in it as they are. -/
def message : Fault → String
  | unexpected wanted found => "expected " ++ wanted.text ++ ", found '" ++ found ++ "'"
  | duplicateMember kind name => "duplicate " ++ kind.text ++ " definition '" ++ name ++ "'"
  | duplicateParam method name =>
    "duplicate parameter '" ++ name ++ "' in method '" ++ method ++ "'"
  | unreadable path => "failed to read '" ++ path ++ "'"
  | badOptions => "failed to parse render options"

/-- The diagnostic code, which names the kind of cause and nothing that was found. -/
def code : Fault → String
  | unexpected .. => "blueprint::invalid_element"
  | duplicateMember .. => "blueprint::duplicate_member"
  | duplicateParam .. => "blueprint::duplicate_parameter"
  | unreadable .. => "blueprint::io"
  | badOptions => "blueprint::config"

/-- What to do about a cause, where there is advice to give. -/
def help : Fault → Option String
  | duplicateMember kind _ =>
    some ("rename the " ++ kind.text ++ " or drop one of the definitions")
  | _ => none

end Fault

/-- A value built by steps each of which may be refused; the first refusal counts. -/
abbrev Checked (α : Type) := Except Fault α

/-- Lets a condition pass or refuses with the given cause. Nothing has been changed at that
point that would have to be undone. -/
def Checked.require (ok : Bool) (fault : Fault) : Checked Unit :=
  if ok then .ok () else .error fault

end ClassDraft
