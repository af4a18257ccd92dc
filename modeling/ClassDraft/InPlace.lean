/-!
# Changes made in place

A change made in place may break off on the way, and nothing undoes what it has done until
then. So its outcome is always two things: whether it was carried out, or else why not, and
what it has left of the value.

Whoever keeps the value sees both. Whoever has given the value away for a changed one sees
the changed value or the cause alone, and never what a change that broke off has left.
-/

namespace ClassDraft

/-- A change made in place to a value of type `σ`, which may break off for a cause of type
`ε`. A run of it ends with what is left of the value, in either case. -/
abbrev InPlace (ε σ α : Type) := EStateM ε σ α

namespace InPlace

variable {ε ε' σ τ α : Type}

/-- Lets a condition pass or breaks off for the given cause. It touches nothing itself;
whether anything was touched before depends on where it stands. -/
def require (ok : Bool) (cause : ε) : InPlace ε σ Unit :=
  if ok then pure () else throw cause

/-- Makes a change to one part of a larger value. Also where the change breaks off, what it
has left of the part is put back; the cause is then told in the terms of the whole. -/
def onPart (get : τ → σ) (put : τ → σ → τ) (tell : τ → ε → ε') (change : InPlace ε σ α) :
    InPlace ε' τ α := fun whole =>
  match change.run (get whole) with
  | .ok a part => .ok a (put whole part)
  | .error cause part => .error (tell whole cause) (put whole part)

/-- What a change leaves of a value, whether it is carried out or breaks off. -/
def left (change : InPlace ε σ α) (s : σ) : σ :=
  match change.run s with
  | .ok _ next => next
  | .error _ next => next

/-- The change as one who gives the value away sees it: a changed value comes back, or the
cause without the value. -/
def result (change : InPlace ε σ Unit) (s : σ) : Except ε σ :=
  match change.run s with
  | .ok _ next => .ok next
  | .error cause _ => .error cause

end InPlace

end ClassDraft
