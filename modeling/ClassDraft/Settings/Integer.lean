import ClassDraft.Text.Pieces

/-!
# Whole numbers in a settings document

A whole number is written in decimal, with a sign or without, or without a sign in
base sixteen, eight or two after a two-character mark. Underscores may stand
between digits. A decimal does not begin with a zero unless it is zero.
-/

namespace ClassDraft.Settings

/-- The value of a digit in any base up to sixteen. -/
def digit? (c : Char) : Option Nat :=
  if '0' ≤ c ∧ c ≤ '9' then some (c.toNat - '0'.toNat)
  else if 'a' ≤ c ∧ c ≤ 'f' then some (c.toNat - 'a'.toNat + 10)
  else if 'A' ≤ c ∧ c ≤ 'F' then some (c.toNat - 'A'.toNat + 10)
  else none

/-- The value of a character as a digit of a base, which rules out the digits that the base
does not reach. -/
def digitIn? (base : Nat) (c : Char) : Option Nat := (digit? c).filter (· < base)

/-- The number written by groups of digits with an underscore between two groups. -/
def natural? (base : Nat) (digits : List Char) : Option Nat :=
  let groups := Text.piecesOf '_' digits
  if groups.any (·.isEmpty) then none
  else do
    let values ← groups.flatten.mapM (digitIn? base)
    return values.foldl (fun number digit => number * base + digit) 0

/-- A decimal number without a sign. Leading zeros are not allowed, so that no number is
taken for an octal one. -/
def decimal? : List Char → Option Nat
  | ['0'] => some 0
  | '0' :: _ => none
  | digits => natural? 10 digits

/-- The whole number that a bare word is, if it is one. -/
def integer? : List Char → Option Int
  | '0' :: 'x' :: digits => (natural? 16 digits).map Int.ofNat
  | '0' :: 'o' :: digits => (natural? 8 digits).map Int.ofNat
  | '0' :: 'b' :: digits => (natural? 2 digits).map Int.ofNat
  | '+' :: digits => (decimal? digits).map Int.ofNat
  | '-' :: digits => (decimal? digits).map fun number => -Int.ofNat number
  | digits => (decimal? digits).map Int.ofNat

end ClassDraft.Settings
