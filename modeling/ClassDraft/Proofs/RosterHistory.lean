import ClassDraft.Proofs.Roster

/-!
# Histories of a roster

A roster begins empty and meets requests in any number and order: to take a member in at
the end or at the front, or to bring the member of a name to the front. It is changed in
place, and a member that it turns away is handed back. What it is then like is nobody's
decision but a matter of what has been written before the member was turned away, and that is
nothing.

The search behind this follows the order of the names, while what it looks for is sameness,
which may be wider than equality of names. It may therefore stop at a member of another
name, and it may pass by a member that counts as the same. What it cannot do is pass by
the name of the newcomer (`contains_of_mem_names`) or stop at a member that does not count as
the same (`find?_eq_some`). That is enough: **after every history the names are distinct**, and
what is turned away is turned away for a reason.
-/

namespace ClassDraft.Roster

variable {α : Type} [Named α]

/-- What can be asked of a roster, with all that the request is given. -/
inductive Request (α : Type) [Named α] where
  | push (newcomer : α)
  | pushFront (newcomer : α)
  /-- The member that comes to the front may be changed there, but not in its name. -/
  | promote (name : String) (change : α → α)
    (keepsName : ∀ m, Named.name (change m) = Named.name m)

/-- What a request does to the roster. It breaks off if it hands a member back. -/
def Request.serve : Request α → InPlace α (Roster α) Unit
  | .push newcomer => tryPush newcomer
  | .pushFront newcomer => tryPushFront newcomer
  | .promote name change _ => modify (·.promote name change)

/-- What a request leaves of the roster, whether or not it hands a member back. -/
def attempt (r : Roster α) (request : Request α) : Roster α := request.serve.left r

/-- The roster that a history of requests leads to, from the empty one on. Requests that
hand a member back are part of a history like any other. -/
def after (requests : List (Request α)) : Roster α := requests.foldl attempt empty

/-! ## One request -/

/-- How a roster deals with a newcomer that a step offers it, where taking it in would make
the members `grown`. -/
structure Guards (r : Roster α) (step : InPlace α (Roster α) Unit) (newcomer : α)
    (grown : List α) : Prop where
  /-- A second member of a name is never let in. -/
  taken : Named.name newcomer ∈ r.names → step.run r = .error newcomer r
  /-- Where the step breaks off, for whatever reason, nothing is written by then. -/
  refused : ∀ back left, step.run r = .error back left →
    back = newcomer ∧ left = r ∧ ∃ held ∈ r.members, Named.sameAs held newcomer = true
  accepted : ∀ next, step.run r = .ok () next → next.members = grown

/-- Every place is guarded by the same question. -/
theorem guards_tryTake (hsame : SameByName α) (place : α → List α → List α) (newcomer : α)
    (r : Roster α) : r.Guards (tryTake place newcomer) newcomer (place newcomer r.members) := by
  have hrun := run_tryTake place newcomer r
  rcases r.contains_cases hsame newcomer with ⟨hknown, hlike⟩ | ⟨hnew, hfresh⟩
  · rw [if_pos hknown] at hrun
    refine ⟨fun _ => hrun, ?_, ?_⟩
    · intro back left hback
      rw [hrun] at hback
      cases hback
      exact ⟨rfl, rfl, hlike⟩
    · intro next hok
      rw [hrun] at hok
      cases hok
  · rw [hnew, if_neg Bool.false_ne_true] at hrun
    refine ⟨fun htaken => absurd htaken hfresh, ?_, ?_⟩
    · intro back left hback
      rw [hrun] at hback
      cases hback
    · intro next hok
      rw [hrun] at hok
      cases hok
      rfl

/-- One more member leaves the names distinct at whichever place it comes in. -/
theorem nodup_names_tryTake (hsame : SameByName α) {place : α → List α → List α} {newcomer : α}
    {r : Roster α} (hplace : (place newcomer r.members).Perm (newcomer :: r.members))
    (h : r.names.Nodup) : ((tryTake place newcomer).left r).names.Nodup := by
  rw [InPlace.left, run_tryTake]
  rcases r.contains_cases hsame newcomer with ⟨hknown, _⟩ | ⟨hnew, hfresh⟩
  · rw [if_pos hknown]
    exact h
  · rw [hnew, if_neg Bool.false_ne_true]
    exact nodup_names_insert h hfresh (hplace.map Named.name)

/-! ## All of a history -/

/-- No request brings a name in twice. -/
theorem nodup_names_attempt (hsame : SameByName α) {r : Roster α} (h : r.names.Nodup)
    (request : Request α) : (r.attempt request).names.Nodup := by
  cases request with
  | push newcomer =>
    rw [attempt, Request.serve, tryPush]
    exact nodup_names_tryTake hsame (List.perm_append_singleton newcomer r.members) h
  | pushFront newcomer =>
    rw [attempt, Request.serve, tryPushFront]
    exact nodup_names_tryTake hsame (List.Perm.refl _) h
  | promote name change keepsName =>
    exact (r.perm_names_promote name change keepsName).nodup_iff.mpr h

/-- By induction on the requests: what one of them preserves, a whole history does. -/
theorem nodup_names_foldl (hsame : SameByName α) (requests : List (Request α)) :
    ∀ {r : Roster α}, r.names.Nodup → (requests.foldl attempt r).names.Nodup := by
  induction requests with
  | nil => exact fun h => h
  | cons request rest ih => exact fun h => ih (nodup_names_attempt hsame h request)

/-- **A roster is safe after every history**, whatever else than members of equal names
counts as the same. Its names are distinct. A member whose name is taken is handed back.
Whatever is handed back is the member that was offered, the roster is left as it was, and
the member has its like there. Whatever is taken in stands at the end or at the front, with
the others in their order. -/
theorem history_safe (hsame : SameByName α) (requests : List (Request α)) :
    (after requests).names.Nodup ∧ ∀ newcomer : α,
      (after requests).Guards (tryPush newcomer) newcomer
        ((after requests).members ++ [newcomer]) ∧
      (after requests).Guards (tryPushFront newcomer) newcomer
        (newcomer :: (after requests).members) := by
  refine ⟨nodup_names_foldl hsame requests List.nodup_nil, ?_⟩
  intro newcomer
  exact ⟨guards_tryTake hsame _ newcomer _, guards_tryTake hsame _ newcomer _⟩

/-- A name that is compared without regard to the case of its letters. -/
structure Caseless where
  text : String
deriving DecidableEq

instance : Named Caseless where
  name := Caseless.text
  sameAs held newcomer :=
    held.text.toList.map Char.toLower == newcomer.text.toList.map Char.toLower

/-- Ignoring case is a sameness that is wider than equality of names. -/
theorem sameByName_caseless : SameByName Caseless := by
  intro held newcomer h
  have htext : held.text = newcomer.text := h
  simp [Named.sameAs, htext]

/-- `D` gets in beside `d`, which the search passes by; `C` is turned away because of `c`.
From then on `D` is turned away as well. -/
theorem history_safe_caseless :
    let r : Roster Caseless := after [.push ⟨"a"⟩, .push ⟨"b"⟩, .push ⟨"c"⟩, .push ⟨"d"⟩,
      .push ⟨"e"⟩, .push ⟨"D"⟩, .pushFront ⟨"C"⟩, .promote "c" id fun _ => rfl]
    SameByName Caseless ∧ r.names = ["c", "a", "b", "d", "e", "D"] ∧ r.names.Nodup ∧
      (tryPush ⟨"D"⟩).run r = .error ⟨"D"⟩ r ∧ (tryPushFront ⟨"D"⟩).run r = .error ⟨"D"⟩ r := by
  intro r
  obtain ⟨hnodup, hguards⟩ := history_safe sameByName_caseless _
  obtain ⟨hpush, hpushFront⟩ := hguards ⟨"D"⟩
  have hnames : r.names = ["c", "a", "b", "d", "e", "D"] := by decide +kernel
  have htaken : Named.name (Caseless.mk "D") ∈ r.names := by
    rw [hnames]
    decide
  exact ⟨sameByName_caseless, hnames, hnodup, hpush.taken htaken, hpushFront.taken htaken⟩

end ClassDraft.Roster
