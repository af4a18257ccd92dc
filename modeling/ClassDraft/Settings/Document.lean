import ClassDraft.Settings.Token
import ClassDraft.Settings.Value

/-!
# Reading a settings document

A document is a row of lines, each of which is empty, assigns a value to a key of
the table that the last header opened, or is a header. Inside brackets and braces
lines do not count: a line end may stand before and after each item, key, equals
sign and value, and a comma may also follow the last item.

No setting can hold a fraction, a date or a list of tables made by headers, so a
document with any of these describes no settings and is refused when it is read.
-/

namespace ClassDraft.Settings

namespace Token

/-- The key that a token is: a quotation on one line, or a bare word of letters,
digits, underscores and hyphens. -/
def key? : Token → Option String
  | word text =>
    if text.all fun c => c.isAlphanum || c == '_' || c == '-' then some (String.ofList text)
    else none
  | quoted text => some text
  | _ => none

/-- The value that a bare word stands for: a truth value or a number, and nothing else. -/
def wordValue? (text : List Char) : Option Value :=
  if text = "true".toList then some (.flag true)
  else if text = "false".toList then some (.flag false)
  else (integer? text).map .integer

end Token

/-- A key whose parts are divided by dots, and the tokens after it. -/
def readKey : List Token → Option (List String × List Token)
  | first :: .dot :: rest => do
    let (keys, rest) ← readKey rest
    return ((← first.key?) :: keys, rest)
  | first :: rest => do return ([← first.key?], rest)
  | [] => none

def skipLineEnds (tokens : List Token) : List Token := tokens.dropWhile (· == .lineEnd)

mutual

/-- A value and the tokens after it. Each call uses up one unit of `fuel`. -/
def readValue : (fuel : Nat) → List Token → Option (Value × List Token)
  | 0, _ => none
  | fuel + 1, tokens =>
    match tokens with
    | .word text :: rest => (Token.wordValue? text).map (·, rest)
    | .quoted text :: rest | .quotedBlock text :: rest => some (.text text, rest)
    | .openList :: rest => readItems fuel [] (skipLineEnds rest)
    | .openTable :: rest => readFields fuel [] (skipLineEnds rest)
    | _ => none

/-- The rest of a list after `items`, up to its closing bracket. -/
def readItems : (fuel : Nat) → List Value → List Token → Option (Value × List Token)
  | 0, _, _ => none
  | _ + 1, items, .closeList :: rest => some (.list items, rest)
  | fuel + 1, items, tokens => do
    let (item, rest) ← readValue fuel tokens
    match skipLineEnds rest with
    | .comma :: rest => readItems fuel (items ++ [item]) (skipLineEnds rest)
    | .closeList :: rest => some (.list (items ++ [item]), rest)
    | _ => none

/-- The rest of a table after `fields`, up to its closing brace. A key, its equals
sign and its value may stand on lines of their own. -/
def readFields : (fuel : Nat) → Fields → List Token → Option (Value × List Token)
  | 0, _, _ => none
  | _ + 1, fields, .closeTable :: rest => some (.table .inline fields, rest)
  | fuel + 1, fields, tokens => do
    let (key, rest) ← readKey tokens
    let .equals :: rest := skipLineEnds rest | none
    let (value, rest) ← readValue fuel (skipLineEnds rest)
    let fields ← fields.assign key value
    match skipLineEnds rest with
    | .comma :: rest => readFields fuel fields (skipLineEnds rest)
    | .closeTable :: rest => some (.table .inline fields, rest)
    | _ => none

end

/-- The tokens after the line end, or none at the end of the document. -/
def endOfLine : List Token → Option (List Token)
  | [] => some []
  | .lineEnd :: rest => some rest
  | _ => none

/-- Reads lines into `fields`; `table` is the path of the table that is open. -/
def readLines : (fuel : Nat) → Fields → (table : List String) → List Token → Option Fields
  | 0, _, _, _ => none
  | _ + 1, fields, _, [] => some fields
  | fuel + 1, fields, table, .lineEnd :: rest => readLines fuel fields table rest
  | fuel + 1, fields, _, .openList :: rest => do
    let (path, .closeList :: rest) ← readKey rest | none
    readLines fuel (← fields.openTable path) path (← endOfLine rest)
  | fuel + 1, fields, table, tokens => do
    let (key, .equals :: rest) ← readKey tokens | none
    let (value, rest) ← readValue fuel rest
    readLines fuel (← fields.changeAt (Fields.assign key value) table) table (← endOfLine rest)

/-- The table that a document describes. A call that leads to no further token takes
at most one more unit of fuel, so twice the number of tokens suffices. -/
def parse? (document : String) : Option Fields := do
  let tokens ← scan document
  readLines (2 * tokens.length + 2) [] [] tokens

end ClassDraft.Settings
