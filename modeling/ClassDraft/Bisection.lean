/-!
# Search by bisection

A search keeps a window of the list in which the answer may still lie and asks
about the key in its middle until the answer is "here" or the window is empty.
What is asked is up to the caller: the answers need not come from an order, need
not be consistent with one another, and may depend on what was asked before. The
search reports the place it found and every place it looked at.
-/

namespace ClassDraft

/-- The answer to a question about one key: it is the one sought, or the search goes on
among the keys before it or after it. -/
inductive Verdict where
  /-- The key is the one sought. -/
  | here
  /-- What is sought lies before the key. -/
  | before
  /-- What is sought lies after the key. -/
  | after
deriving DecidableEq, Repr

namespace Bisection

/-- The outcome of a search: the place found and the places looked at, in order. -/
structure Trail where
  found : Option Nat
  probed : List Nat
deriving DecidableEq, Repr

/-- Searches the places from `low` up to but not including `high`. An answer may
depend on the places `probed` so far. -/
def searchWindow {κ : Type} (keys : List κ) (answer : List Nat → κ → Verdict) (low high : Nat)
    (inRange : high ≤ keys.length) (probed : List Nat) : Trail :=
  if _ : low < high then
    let middle := low + (high - low) / 2
    match answer probed (keys.get ⟨middle, by omega⟩) with
    | .here => ⟨some middle, probed ++ [middle]⟩
    | .before => searchWindow keys answer low middle (by omega) (probed ++ [middle])
    | .after => searchWindow keys answer (middle + 1) high inRange (probed ++ [middle])
  else ⟨none, probed⟩
termination_by high - low
decreasing_by all_goals omega

/-- Searches a list with answers that may depend on the questions before. -/
def searchWith {κ : Type} (keys : List κ) (answer : List Nat → κ → Verdict) : Trail :=
  searchWindow keys answer 0 keys.length (Nat.le_refl _) []

/-- Searches a list with one answer per key. What was answered before has no influence on an
answer, as it may have in `searchWith`. -/
def search {κ : Type} (keys : List κ) (answer : κ → Verdict) : Trail :=
  searchWith keys fun _ key => answer key

end Bisection

end ClassDraft
