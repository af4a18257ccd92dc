import ClassDraft.Proofs.Bisection
import ClassDraft.Proofs.ProbedPlaces

/-!
# When a search finds what is there

A search follows the answers it gets. They lead to a key that is sought if the list falls into
three parts, each of which may be empty: first keys that what is sought comes after, then the
keys that are sought, then keys that it comes before (`Partitioned`). There may be several keys in
the middle part, and the search stops at one of them. Where the middle part is empty, nothing is
asked of the order of the other two.

Keys in ascending order that are compared with a target fall into such parts, also if some of
them are equal and if keys that compare as equal are not the same (`partitioned_of_ascending`).
**On a list in three parts something is found exactly if there is something to be found**
(`search_exact`).
-/

namespace ClassDraft

/-- The answer about a key, from how the key compares with what is sought. -/
def Verdict.ofOrdering : Ordering → Verdict
  | .lt => .after
  | .eq => .here
  | .gt => .before

theorem Verdict.ofOrdering_inj (o p : Ordering) : ofOrdering o = ofOrdering p ↔ o = p := by
  cases o <;> cases p <;> decide

namespace Bisection

variable {κ : Type}

/-- The keys that answer "after" come before those that answer "here", and these come before
those that answer "before". -/
structure Partitioned (keys : List κ) (answer : κ → Verdict) : Prop where
  after_here : ∀ i j : Fin keys.length,
    answer (keys.get i) = .after → answer (keys.get j) = .here → i < j
  here_before : ∀ i j : Fin keys.length,
    answer (keys.get i) = .here → answer (keys.get j) = .before → i < j

/-- In a list in three parts, the answers lead to each key that is sought. -/
theorem Partitioned.leadsTo {keys : List κ} {answer : κ → Verdict} (h : Partitioned keys answer)
    {k : Fin keys.length} (hhere : answer (keys.get k) = .here) : LeadsTo keys answer k := by
  refine ⟨k.isLt, hhere, ?_, ?_⟩
  · intro i hearlier hbefore
    have hlater : k.val < i.val := h.here_before k i hhere hbefore
    omega
  · intro i hlater hafter
    have hearlier : i.val < k.val := h.after_here i k hafter hhere
    omega

/-- Among keys in three parts the search finds something exactly if the middle part is not
empty. -/
theorem Partitioned.search_isSome_iff {keys : List κ} {answer : κ → Verdict}
    (h : Partitioned keys answer) :
    (search keys answer).found.isSome = true ↔ ∃ key ∈ keys, answer key = .here := by
  constructor
  · intro hsome
    obtain ⟨i, hi⟩ := Option.isSome_iff_exists.mp hsome
    obtain ⟨hlt, hhere⟩ := search_found hi
    exact ⟨keys.get ⟨i, hlt⟩, List.get_mem keys ⟨i, hlt⟩, hhere⟩
  · rintro ⟨key, hkey, hhere⟩
    obtain ⟨k, rfl⟩ := List.get_of_mem hkey
    exact search_isSome (h.leadsTo hhere)

section

variable {cmp : κ → κ → Ordering} [Std.TransCmp cmp] {keys : List κ}

/-- In an ascending list, an earlier key or the key itself is at most as great. -/
theorem isLE_of_ascending (h : keys.Pairwise fun first second => (cmp first second).isLE = true)
    {i j : Fin keys.length} (hij : i ≤ j) : (cmp (keys.get i) (keys.get j)).isLE = true := by
  rcases Nat.lt_or_eq_of_le hij with hlt | heq
  · exact List.pairwise_iff_getElem.mp h i j i.isLt j.isLt hlt
  · have hself : cmp (keys.get j) (keys.get j) = .eq := Std.ReflCmp.compare_self
    rw [Fin.ext heq, hself]
    rfl

/-- Ascending keys that are compared with a target fall into the three parts. -/
theorem partitioned_of_ascending
    (h : keys.Pairwise fun first second => (cmp first second).isLE = true) (target : κ) :
    Partitioned keys fun key => .ofOrdering (cmp key target) := by
  constructor
  · intro i j hafter hhere
    have hless : cmp (keys.get i) target = .lt := (Verdict.ofOrdering_inj _ .lt).mp hafter
    have hequal : cmp (keys.get j) target = .eq := (Verdict.ofOrdering_inj _ .eq).mp hhere
    refine Fin.not_le.mp fun hle => ?_
    -- the equal key would stand no later than the smaller one and be smaller as well
    have hless' := Std.TransCmp.lt_of_isLE_of_lt (isLE_of_ascending h hle) hless
    rw [hequal] at hless'
    cases hless'
  · intro i j hhere hbefore
    have hequal : cmp (keys.get i) target = .eq := (Verdict.ofOrdering_inj _ .eq).mp hhere
    have hgreater : cmp (keys.get j) target = .gt := (Verdict.ofOrdering_inj _ .gt).mp hbefore
    refine Fin.not_le.mp fun hle => ?_
    have hisLE : (cmp (keys.get i) target).isLE = true := by
      rw [hequal]
      rfl
    have hless := Std.TransCmp.isLE_trans (isLE_of_ascending h hle) hisLE
    rw [hgreater] at hless
    cases hless

end

/-- **What a search finds.** A place it finds is a place of the list where the answer is "here",
whatever the answers are. On a list in three parts, such as an ascending list whose keys are
compared with a target, something is found exactly if some key is sought. On any list, every
place looked at has a key, so that the loop that would give up at another place never does. -/
theorem search_exact (keys : List κ) (answer : κ → Verdict) :
    (∀ i, (search keys answer).found = some i →
      ∃ hi : i < keys.length, answer (keys.get ⟨i, hi⟩) = .here) ∧
    (Partitioned keys answer →
      ((search keys answer).found.isSome = true ↔ ∃ key ∈ keys, answer key = .here)) ∧
    (∀ (cmp : κ → κ → Ordering) [Std.TransCmp cmp] (target : κ),
      keys.Pairwise (fun first second => (cmp first second).isLE = true) →
      ((search keys fun key => .ofOrdering (cmp key target)).found.isSome = true ↔
        ∃ key ∈ keys, cmp key target = .eq)) ∧
    (∀ i ∈ (search keys answer).probed, i < keys.length) ∧
    ∃ rounds, attempt? keys (fun _ key => answer key) rounds 0 keys.length []
      = some (search keys answer) := by
  refine ⟨fun i hi => search_found hi, Partitioned.search_isSome_iff, ?_, ?_, ?_⟩
  · intro cmp _ target hascending
    rw [(partitioned_of_ascending hascending target).search_isSome_iff]
    exact exists_congr fun key => and_congr_right fun _ => Verdict.ofOrdering_inj _ .eq
  · intro i hi
    exact ((questions_searchWith keys _).inside i hi).2
  · exact ⟨_, attempt?_eq_searchWith keys _⟩

/-- Three keys are sought in the first search and none in the second. The keys of the third are
in no order, but their answers are. -/
theorem search_exact_repeated :
    ([1, 3, 3, 3, 7].Pairwise (fun first second => (compare first second).isLE = true) ∧
      (search [1, 3, 3, 3, 7] fun key => .ofOrdering (compare key 3)).found.isSome = true ∧
      ¬ (search [1, 3, 3, 3, 7] fun key => .ofOrdering (compare key 4)).found.isSome = true) ∧
    Partitioned [Verdict.after, .after, .here, .here, .before] id ∧
    (search [Verdict.after, .after, .here, .here, .before] id).found.isSome = true := by
  have hascending :
      [1, 3, 3, 3, 7].Pairwise fun first second => (compare first second).isLE = true := by
    decide
  have hparts : Partitioned [Verdict.after, .after, .here, .here, .before] id :=
    ⟨by decide, by decide⟩
  obtain ⟨_, _, hcompared, _⟩ := search_exact [1, 3, 3, 3, 7] fun _ => .here
  obtain ⟨_, hfound, _⟩ := search_exact [Verdict.after, .after, .here, .here, .before] id
  refine ⟨⟨hascending, (hcompared compare 3 hascending).mpr (by decide), ?_⟩, hparts,
    (hfound hparts).mpr (by decide)⟩
  rw [hcompared compare 4 hascending]
  decide

end Bisection

end ClassDraft
