import ClassDraft.Text.UpperTable

/-!
# Upper case

The upper-case form of a text is taken character by character. One character may
become several: the sharp s becomes two letters, a ligature its parts.
-/

namespace ClassDraft.Text

namespace UpperRun

/-- Whether a code point is one of a run: it lies within its bounds, at a multiple of its
step from the first. -/
def covers (run : UpperRun) (point : Nat) : Bool :=
  decide (run.first ≤ point ∧ point ≤ run.last) && (point - run.first) % run.step == 0

/-- The upper-case form of a code point that the run covers. -/
def map (run : UpperRun) (point : Nat) : Nat := run.upper + (point - run.first)

end UpperRun

/-- A character in capitals, which may be several characters. What is in neither table is
its own capital. -/
def upperChar (c : Char) : List Char :=
  match upperRuns.find? (·.covers c.toNat) with
  | some run => [Char.ofNat (run.map c.toNat)]
  | none =>
    match upperExpansions.find? (·.1 == c.toNat) with
    | some expansion => expansion.2.map Char.ofNat
    | none => [c]

/-- A text in capitals, character by character. The text may grow by this. -/
def upper (s : String) : String := String.ofList (s.toList.flatMap upperChar)

end ClassDraft.Text
