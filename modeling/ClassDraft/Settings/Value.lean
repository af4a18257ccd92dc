/-!
# Values of a settings document

Settings are written in TOML. A document is a table: a list of keys with values
that may be tables again. How a table came about decides what may still be added
to it, so each table remembers it.

Only what a setting can hold has a value here: text, whole numbers, truth values,
lists and tables.
-/

namespace ClassDraft.Settings

/-- How a table came about, which decides what may still be added to it. -/
inductive Origin where
  /-- Written between braces; nothing can be added to it. -/
  | inline
  /-- Named as part of a longer header; a header of its own may still follow. -/
  | implied
  /-- Opened by a header of its own. -/
  | header
  /-- Named as part of a dotted key; further dotted keys may add to it. -/
  | dotted
deriving DecidableEq, Repr

/-- What a field of a document can hold. Tables remember how they came about, because only
some of them may be added to later. -/
inductive Value where
  | text (content : String)
  | integer (number : Int)
  | flag (value : Bool)
  | list (items : List Value)
  | table (origin : Origin) (fields : List (String × Value))
deriving Repr

/-- The fields of a table in the order in which they came. -/
abbrev Fields := List (String × Value)

namespace Fields

def get? (fields : Fields) (key : String) : Option Value := fields.lookup key

/-- Gives a key that is there another value. -/
def replace (fields : Fields) (key : String) (value : Value) : Fields :=
  fields.map fun field => if field.1 == key then (key, value) else field

/-- Gives a value to a key, which may be dotted. The last part must be new, and each
part before it must be new or a table made by dotted keys. -/
def assign : List String → Value → Fields → Option Fields
  | [], _, _ => none
  | [key], value, fields =>
    if (fields.get? key).isSome then none else some (fields ++ [(key, value)])
  | key :: keys, value, fields =>
    match fields.get? key with
    | none => do return fields ++ [(key, .table .dotted (← assign keys value []))]
    | some (.table .dotted inner) => do
      return fields.replace key (.table .dotted (← assign keys value inner))
    | some _ => none

/-- Opens the table of a header. Each part but the last must be new or a table that
can still grow; the last must be new or known only from longer headers. -/
def openTable : List String → Fields → Option Fields
  | [], _ => none
  | [key], fields =>
    match fields.get? key with
    | none => some (fields ++ [(key, .table .header [])])
    | some (.table .implied inner) => some (fields.replace key (.table .header inner))
    | some _ => none
  | key :: keys, fields =>
    match fields.get? key with
    | none => do return fields ++ [(key, .table .implied (← openTable keys []))]
    | some (.table .inline _) => none
    | some (.table origin inner) => do
      return fields.replace key (.table origin (← openTable keys inner))
    | some _ => none

/-- Changes the table at the end of a path of keys. -/
def changeAt (change : Fields → Option Fields) : List String → Fields → Option Fields
  | [], fields => change fields
  | key :: keys, fields =>
    match fields.get? key with
    | some (.table origin inner) => do
      return fields.replace key (.table origin (← changeAt change keys inner))
    | _ => none

end Fields

end ClassDraft.Settings
