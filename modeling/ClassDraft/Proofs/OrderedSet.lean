import ClassDraft.OrderedSet

/-!
# Insertion is removal of later duplicates

A set that remembers the order of insertion is fixed by its list. Inserting the
elements of a list one by one leaves what removing every later duplicate leaves
(`toList_insertMany`): earlier members keep their places (`prefix_insertMany`), and each
newcomer stands where it was met first.
-/

namespace ClassDraft.OrderedSet

variable {α : Type}

/-- The list is all there is to a set; that it has no duplicates is a proof and tells no two
sets apart. -/
theorem eq_of_toList_eq {s t : OrderedSet α} (h : s.toList = t.toList) : s = t := by
  cases s
  cases t
  cases h
  rfl

variable [DecidableEq α]

/-- A list without duplicates has none to lose. -/
theorem eraseDups_eq_self : ∀ {l : List α}, l.Nodup → l.eraseDups = l := by
  intro l
  induction l with
  | nil => intro _; rfl
  | cons a rest ih =>
    intro h
    obtain ⟨hfresh, hrest⟩ := List.nodup_cons.mp h
    have hkeep : rest.filter (fun b => !b == a) = rest := by
      apply List.filter_eq_self.mpr
      intro b hb
      have hne : b ≠ a := fun he => hfresh (he ▸ hb)
      simpa using hne
    rw [List.eraseDups_cons, hkeep, ih hrest]

/-- What stands before already may be left out after. -/
theorem eraseDups_append_cons {before after : List α} {a : α} (h : a ∈ before) :
    (before ++ a :: after).eraseDups = (before ++ after).eraseDups := by
  have hgone : (a :: after).removeAll before = after.removeAll before := by
    simp [List.cons_removeAll, h]
  rw [List.eraseDups_append, List.eraseDups_append, hgone]

/-- What is new comes to stand at the end, and what was before it does not notice. -/
theorem eraseDups_concat_of_not_mem {before : List α} {a : α} (h : a ∉ before) :
    (before ++ [a]).eraseDups = before.eraseDups ++ [a] := by
  have hkept : [a].removeAll before = [a] := by simp [List.cons_removeAll, h]
  rw [List.eraseDups_append, hkept]
  rfl

/-- Inserting a list is appending it and keeping first occurrences. -/
theorem toList_insertMany (l : List α) :
    ∀ s : OrderedSet α, (s.insertMany l).toList = (s.toList ++ l).eraseDups := by
  induction l with
  | nil =>
    intro s
    rw [List.append_nil, eraseDups_eq_self s.nodup]
    rfl
  | cons a rest ih =>
    intro s
    show ((s.insert a).insertMany rest).toList = _
    rw [ih, insert]
    -- a member that is there already adds nothing, on either side
    split
    next hmem => rw [eraseDups_append_cons hmem]
    next => rw [List.append_assoc, List.singleton_append]

theorem mem_insertMany {s : OrderedSet α} {l : List α} {a : α} :
    a ∈ (s.insertMany l).toList ↔ a ∈ s.toList ∨ a ∈ l := by
  rw [toList_insertMany, List.mem_eraseDups, List.mem_append]

/-- Members keep their places when others come in. -/
theorem prefix_insertMany (s : OrderedSet α) (l : List α) :
    s.toList <+: (s.insertMany l).toList := by
  rw [toList_insertMany, List.eraseDups_append, eraseDups_eq_self s.nodup]
  exact List.prefix_append _ _

theorem insertMany_append (s : OrderedSet α) (l more : List α) :
    s.insertMany (l ++ more) = (s.insertMany l).insertMany more :=
  List.foldl_append

/-- A set grows by a member exactly if it is a new one. -/
theorem length_lt_insert {s : OrderedSet α} {a : α} :
    s.toList.length < (s.insert a).toList.length ↔ a ∉ s.toList := by
  unfold insert
  split
  next hmem => simp [hmem]
  next hfresh => simp [hfresh]

theorem mem_insert {s : OrderedSet α} {a b : α} :
    b ∈ (s.insert a).toList ↔ b ∈ s.toList ∨ b = a := by
  have h : b ∈ (s.insertMany [a]).toList ↔ _ := mem_insertMany
  rw [List.mem_singleton] at h
  exact h

/-- What comes into one set before the union comes in after it just as well. -/
theorem union_insert (s t : OrderedSet α) (a : α) : s.union (t.insert a) = (s.union t).insert a := by
  by_cases h : a ∈ t.toList
  · have hmem : a ∈ (s.union t).toList := mem_insertMany.mpr (.inr h)
    rw [insert, dif_pos h, insert, dif_pos hmem]
  · rw [insert, dif_neg h, union, insertMany_append, ← union]
    rfl

/-- Members that came into one set one after another may as well come into the union after
all the others. So a set can be filled on its own and united later. -/
theorem union_insertMany (s : OrderedSet α) (l : List α) :
    ∀ t : OrderedSet α, s.union (t.insertMany l) = (s.union t).insertMany l := by
  induction l with
  | nil => exact fun t => rfl
  | cons a rest ih =>
    intro t
    show s.union ((t.insert a).insertMany rest) = ((s.union t).insert a).insertMany rest
    rw [ih, union_insert]

theorem toList_ofList (l : List α) : (ofList l).toList = l.eraseDups :=
  toList_insertMany l empty

/-- A set is made again from its own list. -/
theorem ofList_toList (s : OrderedSet α) : ofList s.toList = s := by
  apply eq_of_toList_eq
  rw [toList_ofList, eraseDups_eq_self s.nodup]

end ClassDraft.OrderedSet
