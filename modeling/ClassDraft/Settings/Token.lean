import ClassDraft.Settings.Integer

/-!
# Tokens of a settings document

The scanner reads one character at a time in a mode that says what the character
is part of, and looks ahead only to see where a word or a quotation ends. It drops
blanks and comments, and it resolves the escapes of quotations, so a token carries
the text that was meant. `scan` gives nothing for a document that is not made of
tokens: an open quotation, an unknown escape, a control character, a carriage
return that is no line end.
-/

namespace ClassDraft.Settings

/-- The smallest parts of a document. Which of them may follow which is not known here, and
neither is what a bare word means. -/
inductive Token where
  /-- A bare word: a key, a number or a truth value. -/
  | word (text : List Char)
  | quoted (text : String)
  /-- A quotation between triple marks. -/
  | quotedBlock (text : String)
  | dot
  | equals
  | comma
  | openList
  | closeList
  | openTable
  | closeTable
  | lineEnd
deriving DecidableEq, Repr

/-- The four forms of a quotation: escapes are resolved between double marks only,
line ends are admitted between triple marks only. -/
structure Quotation where
  mark : Char
  isBlock : Bool
deriving DecidableEq, Repr

namespace Quotation

/-- Whether backslashes mean anything in a quotation, which depends on its mark alone. -/
def hasEscapes (q : Quotation) : Bool := q.mark == '"'

/-- The token of a quotation whose characters were collected last first. -/
def token (q : Quotation) (collected : List Char) : Token :=
  let text := String.ofList collected.reverse
  if q.isBlock then .quotedBlock text else .quoted text

end Quotation

/-- What the next character is part of. Characters are collected last first. -/
inductive Mode where
  | between
  | word (collected : List Char)
  | comment
  | quotation (q : Quotation) (collected : List Char)
  /-- After a backslash in a quotation. -/
  | escape (q : Quotation) (collected : List Char)
  /-- Within an escape that still wants `left` digits of base sixteen. -/
  | codePoint (q : Quotation) (collected : List Char) (left value : Nat)
  /-- In the blanks after a backslash that ends a line, once `past` that line's end. -/
  | gap (q : Quotation) (collected : List Char) (past : Bool)
  /-- Before the last of `count` characters that were understood by looking ahead. -/
  | skip (count : Nat) (next : Mode)

/-- A character that may stand in a comment or a quotation as it is. -/
def isPlain (c : Char) : Bool := c == '\t' || decide (0x20 ≤ c.toNat ∧ c.toNat ≠ 0x7F)

/-- What ends a bare word. All of these but the blanks mean something by themselves. -/
def delimiters : List Char :=
  [' ', '\t', '\n', '\r', '#', '"', '\'', '.', '=', ',', '[', ']', '{', '}']

/-- Whether a bare word goes on at the start of the rest. -/
def wordGoesOn : List Char → Bool
  | [] => false
  | c :: _ => !delimiters.contains c

/-- Whether the gap after a line-ending backslash goes on at the start of the rest. -/
def gapGoesOn : List Char → Bool
  | ' ' :: _ | '\t' :: _ | '\n' :: _ | '\r' :: '\n' :: _ => true
  | _ => false

/-- The character that a one-letter escape stands for. -/
def simpleEscape : Char → Option Char
  | 'b' => some '\x08'
  | 't' => some '\t'
  | 'n' => some '\n'
  | 'f' => some '\x0c'
  | 'r' => some '\r'
  | 'e' => some '\x1b'
  | '"' => some '"'
  | '\\' => some '\\'
  | _ => none

/-- The number of digits that follow an escape letter for a code point. -/
def escapeDigits : Char → Option Nat
  | 'x' => some 2
  | 'u' => some 4
  | 'U' => some 8
  | _ => none

/-- The token that a character is by itself, wherever it stands outside of quotations and
comments. The end of a line is among them, because it ends a field. -/
def punctuation? : Char → Option Token
  | '.' => some .dot
  | '=' => some .equals
  | ',' => some .comma
  | '[' => some .openList
  | ']' => some .closeList
  | '{' => some .openTable
  | '}' => some .closeTable
  | '\n' => some .lineEnd
  | _ => none

/-- The mode after an opening mark. Triple marks open a block, and a line end right
after them is no part of it. -/
def openQuotation (mark : Char) (ahead : List Char) : Mode :=
  if [mark, mark].isPrefixOf ahead then
    let lineEnd := if ['\n'].isPrefixOf (ahead.drop 2) then 1
      else if ['\r', '\n'].isPrefixOf (ahead.drop 2) then 2
      else 0
    .skip (2 + lineEnd) (.quotation ⟨mark, true⟩ [])
  else .quotation ⟨mark, false⟩ []

/-- What one character brings: the tokens it completes and the mode for the next. -/
abbrev Step := Option (List Token × Mode)

/-- A bare word takes in one more character. It is closed together with its last character,
so that the delimiter behind it is looked at anew. -/
def wordStep (collected : List Char) (c : Char) (ahead : List Char) : Step :=
  if wordGoesOn ahead then some ([], .word (c :: collected))
  else some ([.word (c :: collected).reverse], .between)

/-- A character between two tokens, where anything may begin. A carriage return is passed
over before a line feed and refused anywhere else. -/
def betweenStep (c : Char) (ahead : List Char) : Step :=
  match punctuation? c with
  | some token => some ([token], .between)
  | none =>
    if c = ' ' ∨ c = '\t' then some ([], .between)
    else if c = '\r' then (if ahead.head? = some '\n' then some ([], .between) else none)
    else if c = '#' then some ([], .comment)
    else if c = '"' ∨ c = '\'' then some ([], openQuotation c ahead)
    else wordStep [] c ahead

/-- A character of a comment. The end of the line ends the comment and is still a token of
its own. -/
def commentStep (c : Char) (ahead : List Char) : Step :=
  if c = '\n' then some ([.lineEnd], .between)
  else if isPlain c ∨ (c = '\r' ∧ ahead.head? = some '\n') then some ([], .comment)
  else none

/-- A character of a quotation. In a block a row of three marks or more closes the
quotation with its last three. -/
def quotationStep (q : Quotation) (collected : List Char) (c : Char) (ahead : List Char) : Step :=
  let goOn : Step := some ([], .quotation q (c :: collected))
  if c = q.mark then
    if !q.isBlock then some ([q.token collected], .between)
    else if [c, c].isPrefixOf ahead ∧ ¬[c, c, c].isPrefixOf ahead then
      some ([q.token collected], .skip 2 .between)
    else goOn
  else if c = '\\' ∧ q.hasEscapes then some ([], .escape q collected)
  else if isPlain c then goOn
  else if q.isBlock ∧ (c = '\n' ∨ (c = '\r' ∧ ahead.head? = some '\n')) then goOn
  else none

/-- A character of the gap that follows a line-ending backslash. -/
def gapStep (q : Quotation) (collected : List Char) (past : Bool) (c : Char)
    (ahead : List Char) : Step :=
  let past := past || c == '\n'
  if gapGoesOn ahead then some ([], .gap q collected past)
  else if past then some ([], .quotation q collected)
  else none

/-- The character behind a backslash: it stands for another one, or tells how many digits of
a code point follow, or is part of a gap that a quotation of several lines may have. -/
def escapeStep (q : Quotation) (collected : List Char) (c : Char) (ahead : List Char) : Step :=
  match simpleEscape c, escapeDigits c with
  | some meant, _ => some ([], .quotation q (meant :: collected))
  | none, some digits => some ([], .codePoint q collected digits 0)
  | none, none =>
    if q.isBlock ∧ gapGoesOn (c :: ahead) then gapStep q collected false c ahead else none

/-- One more digit of a code point that is written out. With the last digit the code point
has to be one of a character. -/
def codePointStep (q : Quotation) (collected : List Char) (left value : Nat) (c : Char) : Step := do
  let value := value * 16 + (← digit? c)
  if 1 < left then return ([], .codePoint q collected (left - 1) value)
  else if value.isValidChar then return ([], .quotation q (Char.ofNat value :: collected))
  else none

/-- One character, read in some mode. What comes after it is at hand too, since some tokens
can be told from their beginnings only by looking ahead. -/
def step : Mode → Char → List Char → Step
  | .between, c, ahead => betweenStep c ahead
  | .word collected, c, ahead => wordStep collected c ahead
  | .comment, c, ahead => commentStep c ahead
  | .quotation q collected, c, ahead => quotationStep q collected c ahead
  | .escape q collected, c, ahead => escapeStep q collected c ahead
  | .codePoint q collected left value, c, _ => codePointStep q collected left value c
  | .gap q collected past, c, ahead => gapStep q collected past c ahead
  | .skip count next, _, _ => some ([], if 1 < count then .skip (count - 1) next else next)

/-- Whether a document may end in a mode. Bare words are closed by their last character, so
that no mode of theirs is left at the end. -/
def Mode.mayEnd : Mode → Bool
  | between | comment => true
  | _ => false

/-- The tokens of a text, read from the given mode on. -/
def scanFrom : Mode → List Char → Option (List Token)
  | mode, [] => if mode.mayEnd then some [] else none
  | mode, c :: ahead => do
    let (tokens, next) ← step mode c ahead
    return tokens ++ (← scanFrom next ahead)

/-- The tokens of a document. A byte order mark at its start is no part of it. -/
def scan (document : String) : Option (List Token) :=
  match document.toList with
  | '\ufeff' :: rest => scanFrom .between rest
  | text => scanFrom .between text

end ClassDraft.Settings
