import ClassDraft.Bisection

/-!
# The places a search looks at

Nothing is known here of the keys and of the answers. The keys may stand in any order, and an
answer may contradict those before it: since it may depend on the places `probed` so far, it may
depend on their number, and so any sequence of answers whatever is among those considered.

A question is about a place of the window, and the window that the answer leaves lies inside the
old one, no longer holds that place and is at most half as large (`Narrows`). That is all it
takes. **The places are distinct, and there are at most as many of them as the length of the list
has binary digits** (`probed_distinct_and_few`).

The definition of the search comes with two promises, that the window shrinks and that its places
have keys. `attempt?` is the same loop without them. It never comes to the point where it has to
give up.
-/

namespace ClassDraft.Bisection

variable {κ : Type}

/-! ## The number of questions -/

/-- How many questions a window of `n` places takes at most. -/
def questionLimit (n : Nat) : Nat := if n = 0 then 0 else Nat.log2 n + 1

/-- Half as many places take one question less, at least. -/
theorem questionLimit_lt_of_two_mul_le {m n : Nat} (hpos : 0 < n) (h : 2 * m ≤ n) :
    questionLimit m < questionLimit n := by
  have hn : n ≠ 0 := Nat.ne_of_gt hpos
  rw [questionLimit, questionLimit, if_neg hn]
  split
  next => exact Nat.succ_pos _
  next hm =>
    -- twice as many places take one question more
    have hdouble : Nat.log2 m + 1 ≤ Nat.log2 n := by
      rw [← Nat.log2_two_mul hm, Nat.le_log2 hn]
      exact Nat.le_trans (Nat.log2_self_le (by omega)) h
    exact Nat.succ_lt_succ hdouble

/-! ## One question -/

/-- After a question about `place`, the window from `low` to `high` can become the one from
`low'` to `high'`. -/
structure Narrows (low high place low' high' : Nat) : Prop where
  asked : low ≤ place ∧ place < high
  inside : low ≤ low' ∧ high' ≤ high
  left : place < low' ∨ high' ≤ place
  halved : 2 * (high' - low') ≤ high - low

/-- To go on before the place that was asked about halves the places. -/
theorem narrows_before {low high : Nat} (h : low < high) :
    Narrows low high (low + (high - low) / 2) low (low + (high - low) / 2) :=
  ⟨by omega, by omega, by omega, by omega⟩

/-- The upper part is the smaller one where the window has an even number of places. -/
theorem narrows_after {low high : Nat} (h : low < high) :
    Narrows low high (low + (high - low) / 2) (low + (high - low) / 2 + 1) high :=
  ⟨by omega, by omega, by omega, by omega⟩

/-- A question brings the search nearer to its end. -/
theorem Narrows.questionLimit_lt {low high place low' high' : Nat}
    (h : Narrows low high place low' high') :
    questionLimit (high' - low') < questionLimit (high - low) := by
  have hasked := h.asked
  exact questionLimit_lt_of_two_mul_le (by omega) h.halved

/-! ## All questions of a search -/

/-- The places that a search may look at, from the window between `low` and `high` on. -/
structure Questions (low high : Nat) (places : List Nat) : Prop where
  inside : ∀ i ∈ places, low ≤ i ∧ i < high
  nodup : places.Nodup
  few : places.length ≤ questionLimit (high - low)

theorem questions_nil (low high : Nat) : Questions low high [] :=
  ⟨fun _ hi => (List.not_mem_nil hi).elim, List.nodup_nil, Nat.zero_le _⟩

theorem Questions.cons {low high place low' high' : Nat} {places : List Nat}
    (h : Questions low' high' places) (hstep : Narrows low high place low' high') :
    Questions low high (place :: places) := by
  have hasked := hstep.asked
  have hinside := hstep.inside
  have hleft := hstep.left
  refine ⟨?_, List.nodup_cons.mpr ⟨?_, h.nodup⟩, ?_⟩
  · intro i hi
    rcases List.mem_cons.mp hi with rfl | hlater
    · exact hasked
    · have hi := h.inside i hlater
      omega
  · intro hagain
    have hplace := h.inside place hagain
    omega
  · exact Nat.lt_of_le_of_lt h.few hstep.questionLimit_lt

/-- What is asked from a window on is added to what was asked before. -/
theorem exists_questions (keys : List κ) (answer : List Nat → κ → Verdict) (low high : Nat)
    (inRange : high ≤ keys.length) (probed : List Nat) :
    ∃ places, Questions low high places ∧
      (searchWindow keys answer low high inRange probed).probed = probed ++ places := by
  fun_induction searchWindow keys answer low high inRange probed with
  | case1 low high inRange probed hlt middle hanswer =>
    exact ⟨[middle], (questions_nil _ _).cons (narrows_before hlt), rfl⟩
  | case2 low high inRange probed hlt middle hanswer ih =>
    obtain ⟨places, hplaces, hprobed⟩ := ih
    exact ⟨middle :: places, hplaces.cons (narrows_before hlt), by simp [hprobed]⟩
  | case3 low high inRange probed hlt middle hanswer ih =>
    obtain ⟨places, hplaces, hprobed⟩ := ih
    exact ⟨middle :: places, hplaces.cons (narrows_after hlt), by simp [hprobed]⟩
  | case4 low high inRange probed hlt =>
    exact ⟨[], questions_nil low high, (List.append_nil probed).symm⟩

theorem questions_searchWith (keys : List κ) (answer : List Nat → κ → Verdict) :
    Questions 0 keys.length (searchWith keys answer).probed := by
  obtain ⟨places, hplaces, hprobed⟩ := exists_questions keys answer 0 keys.length (Nat.le_refl _) []
  rw [searchWith, hprobed]
  exact hplaces

/-! ## The loop without promises -/

/-- The loop of the search, of which it is not known that it ends or stays inside the list. It is
given up when `rounds` questions did not suffice, and at a place that has no key. -/
def attempt? (keys : List κ) (answer : List Nat → κ → Verdict) :
    (rounds low high : Nat) → (probed : List Nat) → Option Trail
  | 0, low, high, probed => if low < high then none else some ⟨none, probed⟩
  | rounds + 1, low, high, probed =>
    if low < high then
      let middle := low + (high - low) / 2
      keys[middle]?.bind fun key =>
        match answer probed key with
        | .here => some ⟨some middle, probed ++ [middle]⟩
        | .before => attempt? keys answer rounds low middle (probed ++ [middle])
        | .after => attempt? keys answer rounds (middle + 1) high (probed ++ [middle])
    else some ⟨none, probed⟩

/-- Without places left there is nothing to run out of. -/
theorem attempt?_of_not_lt {low high : Nat} (h : ¬ low < high) (keys : List κ)
    (answer : List Nat → κ → Verdict) (rounds : Nat) (probed : List Nat) :
    attempt? keys answer rounds low high probed = some ⟨none, probed⟩ := by
  cases rounds <;> rw [attempt?, if_neg h]

/-- With enough rounds for the window, the loop ends with the outcome of the search. -/
theorem attempt?_eq_searchWindow {keys : List κ} {answer : List Nat → κ → Verdict}
    {rounds low high : Nat} (inRange : high ≤ keys.length)
    (h : questionLimit (high - low) ≤ rounds) (probed : List Nat) :
    attempt? keys answer rounds low high probed
      = some (searchWindow keys answer low high inRange probed) := by
  induction rounds generalizing low high probed with
  | zero =>
    have hempty : ¬ low < high := by
      intro hlt
      have hless := (narrows_before hlt).questionLimit_lt
      omega
    rw [attempt?_of_not_lt hempty, searchWindow, dif_neg hempty]
  | succ rounds ih =>
    by_cases hlt : low < high
    · have hmiddle : low + (high - low) / 2 < keys.length := by omega
      have hbefore := (narrows_before hlt).questionLimit_lt
      have hafter := (narrows_after hlt).questionLimit_lt
      rw [searchWindow, dif_pos hlt]
      simp only [attempt?, if_pos hlt, List.getElem?_eq_getElem hmiddle, Option.bind_some,
        List.get_eq_getElem]
      cases answer probed keys[low + (high - low) / 2] with
      | here => rfl
      | before => exact ih _ (by omega) _
      | after => exact ih inRange (by omega) _
    · rw [attempt?_of_not_lt hlt, searchWindow, dif_neg hlt]

/-- The rounds that are allowed for are always enough. -/
theorem attempt?_eq_searchWith (keys : List κ) (answer : List Nat → κ → Verdict) :
    attempt? keys answer (questionLimit keys.length) 0 keys.length []
      = some (searchWith keys answer) :=
  attempt?_eq_searchWindow (Nat.le_refl _) (Nat.le_refl (questionLimit keys.length)) []

/-- **A search is over after a few questions, none of which is put twice**, for any keys and any
answers. The loop ends within that number of rounds, and the places it looked at are distinct and
no more than that: none for an empty list, and otherwise one more than the binary logarithm of
the length, rounded down. -/
theorem probed_distinct_and_few (keys : List κ) (answer : List Nat → κ → Verdict) :
    attempt? keys answer (questionLimit keys.length) 0 keys.length []
      = some (searchWith keys answer) ∧
    (searchWith keys answer).probed.Nodup ∧
    (searchWith keys answer).probed.length ≤ questionLimit keys.length := by
  have hquestions := questions_searchWith keys answer
  exact ⟨attempt?_eq_searchWith keys answer, hquestions.nodup, hquestions.few⟩

/-- Seven keys can take three questions, and two do not suffice. -/
example : attempt? (List.range 7) (fun _ _ => .before) 3 0 7 [] = some ⟨none, [3, 1, 0]⟩ ∧
    attempt? (List.range 7) (fun _ _ => .before) 2 0 7 [] = none := by
  decide

end ClassDraft.Bisection
