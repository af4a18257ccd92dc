import ClassDraft.Bisection

/-!
# What a search by bisection finds

A place that is found was answered with "here" (`search_found`), whatever the
answers are. That something is found needs only that the answers do not lead away
from one of the places where the answer is "here": `LeadsTo` says that no earlier
place answers "before" and no later place answers "after". Other places may answer
"here" as well; the search then stops at one of them.
-/

namespace ClassDraft.Bisection

variable {κ : Type}

/-- No answer leads away from the place `k`, and at `k` itself the answer is "here". -/
structure LeadsTo (keys : List κ) (answer : κ → Verdict) (k : Nat) : Prop where
  inRange : k < keys.length
  here : answer (keys.get ⟨k, inRange⟩) = .here
  earlier : ∀ i : Fin keys.length, i.val < k → answer (keys.get i) ≠ .before
  later : ∀ i : Fin keys.length, k < i.val → answer (keys.get i) ≠ .after

/-- A place found lies in the window and was answered with "here". -/
theorem searchWindow_found {keys : List κ} {answer : κ → Verdict} {low high i : Nat}
    {inRange : high ≤ keys.length} {probed : List Nat}
    (h : (searchWindow keys (fun _ key => answer key) low high inRange probed).found = some i) :
    low ≤ i ∧ i < high ∧ ∃ hi : i < keys.length, answer (keys.get ⟨i, hi⟩) = .here := by
  fun_induction searchWindow keys (fun _ key => answer key) low high inRange probed with
  | case1 low high inRange probed hlt middle hanswer =>
    have hmiddle : middle = i := Option.some.inj h
    subst hmiddle
    exact ⟨by omega, by omega, by omega, hanswer⟩
  | case2 low high inRange probed hlt middle hanswer ih =>
    obtain ⟨hlow, hhigh, hhere⟩ := ih h
    exact ⟨hlow, by omega, hhere⟩
  | case3 low high inRange probed hlt middle hanswer ih =>
    obtain ⟨hlow, hhigh, hhere⟩ := ih h
    exact ⟨by omega, hhigh, hhere⟩
  | case4 low high inRange probed hlt => cases h

/-- While the place that the answers lead to is in the window, something is found. -/
theorem searchWindow_isSome {keys : List κ} {answer : κ → Verdict} {k low high : Nat}
    {inRange : high ≤ keys.length} {probed : List Nat} (hleads : LeadsTo keys answer k)
    (hlow : low ≤ k) (hhigh : k < high) :
    (searchWindow keys (fun _ key => answer key) low high inRange probed).found.isSome = true := by
  fun_induction searchWindow keys (fun _ key => answer key) low high inRange probed with
  | case1 low high inRange probed hlt middle hanswer => rfl
  | case2 low high inRange probed hlt middle hanswer ih =>
    -- an answer "before" comes from a later place only
    apply ih hlow
    rcases Nat.lt_trichotomy k middle with hk | hk | hk
    · exact hk
    · subst hk
      rw [hleads.here] at hanswer
      cases hanswer
    · exact absurd hanswer (hleads.earlier ⟨middle, by omega⟩ hk)
  | case3 low high inRange probed hlt middle hanswer ih =>
    refine ih ?_ hhigh
    rcases Nat.lt_trichotomy k middle with hk | hk | hk
    · exact absurd hanswer (hleads.later ⟨middle, by omega⟩ hk)
    · subst hk
      rw [hleads.here] at hanswer
      cases hanswer
    · exact hk
  | case4 low high inRange probed hlt => omega

/-- **Soundness.** What is found answers "here". -/
theorem search_found {keys : List κ} {answer : κ → Verdict} {i : Nat}
    (h : (search keys answer).found = some i) :
    ∃ hi : i < keys.length, answer (keys.get ⟨i, hi⟩) = .here :=
  (searchWindow_found h).2.2

/-- **Completeness.** Where the answers lead to a place, something is found. -/
theorem search_isSome {keys : List κ} {answer : κ → Verdict} {k : Nat}
    (hleads : LeadsTo keys answer k) : (search keys answer).found.isSome = true :=
  searchWindow_isSome hleads (Nat.zero_le k) hleads.inRange

end ClassDraft.Bisection
