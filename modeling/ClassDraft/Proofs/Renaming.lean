import ClassDraft.Proofs.Offers

/-!
# When the constructor is named does not matter

A method can become the constructor in two ways. If its name is that of the constructor when
it is added, it is put in front and loses `static` at once. If it is added first, it goes to
the end as any other method, and naming it the constructor later takes it out of its place,
puts it in front and takes `static` away.

**Both ways lead to the same draft** (`constructor_named_anytime`), so the name of the
constructor can be given before, between or after the methods. What has to be left out are
methods that bear the name of the earlier constructor: they are put in front when they come
before the new name is given, and at the end when they come after it.
-/

namespace ClassDraft

/-! ## Promotion and one more member -/

namespace Roster

variable {α : Type} [Named α] {r : Roster α} {name : String} {m : α}

theorem promote_of_not_mem (change : α → α) (habsent : name ∉ r.names) :
    r.promote name change = r := by
  rw [promote, get?_eq_none_iff.mpr habsent]

/-- The member that the walk finds goes to the front and is missing at its old place. -/
theorem promote_of_get? (change : α → α) (h : r.get? name = some m) :
    r.promote name change = ⟨change m :: r.members.eraseP (Named.name · == name)⟩ := by
  rw [promote, h]

/-- A member that is in front already is changed where it stands. -/
theorem promote_cons_self (members : List α) (change : α → α) (hname : Named.name m = name) :
    (Roster.mk (m :: members)).promote name change = ⟨change m :: members⟩ := by
  have hget : (Roster.mk (m :: members)).get? name = some m := by simp [get?, hname]
  rw [promote_of_get? change hget]
  simp [hname]

/-- A member of another name that comes last stays last. -/
theorem promote_concat_of_ne (change : α → α) (hne : Named.name m ≠ name) :
    (Roster.mk (r.members ++ [m])).promote name change
      = ⟨(r.promote name change).members ++ [m]⟩ := by
  have hget : (Roster.mk (r.members ++ [m])).get? name = r.get? name := by simp [get?, hne]
  cases h : r.get? name with
  | none =>
    have habsent := get?_eq_none_iff.mp h
    rw [promote_of_not_mem change habsent,
      promote_of_not_mem change (get?_eq_none_iff.mp (hget.trans h))]
  | some first =>
    obtain ⟨hfirst, hname⟩ := get?_eq_some h
    have hrest : (r.members ++ [m]).eraseP (Named.name · == name)
        = r.members.eraseP (Named.name · == name) ++ [m] :=
      List.eraseP_append_left (a := first) (by simpa using hname) [m] hfirst
    rw [promote_of_get? change h, promote_of_get? change (hget.trans h), hrest]
    rfl

/-- A member of the name that comes last goes all the way to the front. -/
theorem promote_concat_of_fresh (change : α → α) (hname : Named.name m = name)
    (hfresh : name ∉ r.names) :
    (Roster.mk (r.members ++ [m])).promote name change = ⟨change m :: r.members⟩ := by
  have hnone : r.members.find? (Named.name · == name) = none := get?_eq_none_iff.mpr hfresh
  have hget : (Roster.mk (r.members ++ [m])).get? name = some m := by
    rw [get?, List.find?_append, hnone]
    simp [hname]
  have hrest : (r.members ++ [m]).eraseP (Named.name · == name) = r.members := by
    rw [List.eraseP_append_right _ (List.find?_eq_none.mp hnone)]
    simp [hname]
  rw [promote_of_get? change hget, hrest]

end Roster

/-! ## One method -/

namespace Draft

variable {d : Draft} {c : String} {m : Method}

/-- Which names are taken does not depend on which of them is the name of the constructor. -/
theorem mem_names_setConstructor {name : String} :
    name ∈ (d.setConstructor c).methods.names ↔ name ∈ d.methods.names :=
  (d.perm_names_setConstructor c).mem_iff

/-- A draft that calls another method its constructor treats alike what neither name means. -/
theorem adapt_setConstructor (hold : m.name ≠ d.constructorName) (hnew : m.name ≠ c) :
    (d.setConstructor c).adapt m = d.adapt m := by
  have hnew : m.name ≠ (d.setConstructor c).constructorName := hnew
  rw [adapt_eq, adapt_eq, if_neg hold, if_neg hnew]
  rfl

/-- As the constructor a method is not static, whichever step saw to it. -/
theorem adapt_setConstructor_self (hname : m.name = c) :
    (d.setConstructor c).adapt m = { d.adapt m with isStatic := false } := by
  have hname : m.name = (d.setConstructor c).constructorName := hname
  rw [adapt_eq, adapt_eq, if_pos hname]
  rfl

/-- The methods are the same whether a new one comes after the constructor is named or before. -/
theorem methodsWith_setConstructor (hfresh : m.name ∉ d.methods.names)
    (h : m.name ≠ d.constructorName ∨ c = d.constructorName) :
    (d.setConstructor c).methodsWith m
      = (d.methodsWith m).promote c ({ · with isStatic := false }) := by
  by_cases hnew : m.name = c
  · -- `m` is the new constructor, so that no older method is brought to the front
    have hstay : (d.setConstructor c).methods = d.methods :=
      Roster.promote_of_not_mem _ (hnew ▸ hfresh)
    have hname : Named.name (d.adapt m) = c := hnew
    rw [methodsWith_of_eq hnew, hstay, adapt_setConstructor_self hnew]
    by_cases hold : m.name = d.constructorName
    · rw [methodsWith_of_eq hold, Roster.promote_cons_self _ _ hname]
    · rw [methodsWith_of_ne hold, Roster.promote_concat_of_fresh _ hname (hnew ▸ hfresh)]
  · have hold : m.name ≠ d.constructorName := by
      rcases h with h | h
      · exact h
      · exact h ▸ hnew
    have hname : Named.name (d.adapt m) ≠ c := hnew
    rw [methodsWith_of_ne hnew, adapt_setConstructor hold hnew, methodsWith_of_ne hold,
      Roster.promote_concat_of_ne _ hname]
    rfl

/-- **One step each.** Naming the constructor and adding a method can change places, with the
same draft or the same fault in the end. -/
theorem addMethod_setConstructor (h : m.name ≠ d.constructorName ∨ c = d.constructorName) :
    (d.setConstructor c).addMethod m = (d.addMethod m).map (·.setConstructor c) := by
  rw [addMethod_eq, addMethod_eq]
  by_cases hname : Name.isIdentifier m.name = false
  · rw [if_pos hname, if_pos hname]
    rfl
  · rw [if_neg hname, if_neg hname]
    by_cases htaken : m.name ∈ d.methods.names
    · rw [if_pos (mem_names_setConstructor.mpr htaken), if_pos htaken]
      rfl
    · rw [if_neg (mem_names_setConstructor.not.mpr htaken), if_neg htaken,
        methodsWith_setConstructor htaken h]
      rfl

theorem attempt_setConstructor (h : m.name ≠ d.constructorName ∨ c = d.constructorName) :
    (d.setConstructor c).attempt (.addMethod m)
      = (d.attempt (.addMethod m)).setConstructor c := by
  have hedit : (d.setConstructor c).edit (.addMethod m)
      = (d.edit (.addMethod m)).map (·.setConstructor c) := addMethod_setConstructor h
  cases hm : d.edit (.addMethod m) with
  | error fault =>
    rw [hm] at hedit
    rw [attempt_of_error hm, attempt_of_error hedit]
  | ok next =>
    rw [hm] at hedit
    rw [attempt_of_ok hm, attempt_of_ok hedit]

/-! ## A list of methods -/

theorem constructorName_addMethod {d' : Draft} (h : d.addMethod m = .ok d') :
    d'.constructorName = d.constructorName := by
  obtain ⟨_, _, rfl⟩ := addMethod_ok h
  rfl

/-- Offering a method, taken or not, leaves the name of the constructor alone. -/
theorem constructorName_attempt_addMethod (d : Draft) (m : Method) :
    (d.attempt (.addMethod m)).constructorName = d.constructorName := by
  cases hm : d.edit (.addMethod m) with
  | error fault => rw [attempt_of_error hm]
  | ok next =>
    rw [attempt_of_ok hm]
    exact constructorName_addMethod hm

/-- Naming the constructor moves from the front of a list of methods to its end. -/
theorem foldlM_edit_setConstructor (ms : List Method) :
    ∀ {d : Draft}, (∀ m ∈ ms, m.name ≠ d.constructorName) →
      (additions ms).foldlM edit (d.setConstructor c)
        = (additions ms ++ [Edit.setConstructor c]).foldlM edit d := by
  induction ms with
  | nil => intro d _; rfl
  | cons m rest ih =>
    intro d hothers
    obtain ⟨hm, hrest⟩ := List.forall_mem_cons.mp hothers
    rw [additions_cons, List.cons_append, List.foldlM_cons, List.foldlM_cons, edit, edit,
      addMethod_setConstructor (.inl hm)]
    cases hadd : d.addMethod m with
    | error fault => rfl
    | ok next =>
      -- the name that the others must not bear is still the same
      rw [← constructorName_addMethod hadd] at hrest
      exact ih hrest

/-- Naming the constructor moves from any place in a list of methods to its end. -/
theorem foldlM_edit_constructor_last (before after : List Method) :
    ∀ {d : Draft}, (∀ m ∈ before ++ after, m.name ≠ d.constructorName) →
      (additions before ++ Edit.setConstructor c :: additions after).foldlM edit d
        = (additions (before ++ after) ++ [Edit.setConstructor c]).foldlM edit d := by
  induction before with
  | nil => intro d hothers; exact foldlM_edit_setConstructor after hothers
  | cons m rest ih =>
    intro d hothers
    obtain ⟨_, hrest⟩ := List.forall_mem_cons.mp hothers
    rw [List.cons_append, additions_cons, additions_cons, List.cons_append, List.cons_append,
      List.foldlM_cons, List.foldlM_cons, edit]
    cases hadd : d.addMethod m with
    | error fault => rfl
    | ok next =>
      rw [← constructorName_addMethod hadd] at hrest
      exact ih hrest

/-- The same for a whole list: by induction, since no method in it changes what the
constructor is called. -/
theorem foldl_attempt_setConstructor (ms : List Method) :
    ∀ {d : Draft}, (∀ m ∈ ms, m.name ≠ d.constructorName) →
      (additions ms).foldl attempt (d.setConstructor c)
        = ((additions ms).foldl attempt d).setConstructor c := by
  induction ms with
  | nil => intro d _; rfl
  | cons m rest ih =>
    intro d hothers
    obtain ⟨hm, hrest⟩ := List.forall_mem_cons.mp hothers
    rw [additions_cons, List.foldl_cons, List.foldl_cons, attempt_setConstructor (.inl hm)]
    rw [← constructorName_attempt_addMethod d m] at hrest
    exact ih hrest

theorem constructorName_foldl_attempt (ms : List Method) (d : Draft) :
    ((additions ms).foldl attempt d).constructorName = d.constructorName := by
  induction ms generalizing d with
  | nil => rfl
  | cons m rest ih => exact (ih _).trans (d.constructorName_attempt_addMethod m)

/-- **The constructor can be named at any time.** Naming it and adding a method can change
places, unless the method bears the name of the constructor so far and another name is given.
So in a list of methods none of which bears the name of the constructor so far, the new name
can be given at every place with the same outcome: the same draft or the same fault, where the
first refused method is the end of it, and the same draft, where refused methods are passed
over. -/
theorem constructor_named_anytime (d : Draft) (c : String) :
    (∀ m : Method, m.name ≠ d.constructorName ∨ c = d.constructorName →
      (d.setConstructor c).addMethod m = (d.addMethod m).map (·.setConstructor c)) ∧
    ∀ before after : List Method, (∀ m ∈ before ++ after, m.name ≠ d.constructorName) →
      (additions before ++ Edit.setConstructor c :: additions after).foldlM edit d
        = (additions (before ++ after) ++ [Edit.setConstructor c]).foldlM edit d ∧
      (additions before ++ Edit.setConstructor c :: additions after).foldl attempt d
        = (additions (before ++ after) ++ [Edit.setConstructor c]).foldl attempt d := by
  refine ⟨fun m => addMethod_setConstructor, ?_⟩
  intro before after hothers
  refine ⟨foldlM_edit_constructor_last before after hothers, ?_⟩
  have hafter : ∀ m ∈ after, m.name ≠ ((additions before).foldl attempt d).constructorName := by
    rw [constructorName_foldl_attempt]
    exact (List.forall_mem_append.mp hothers).2
  rw [List.foldl_append, List.foldl_append, additions_append, List.foldl_append]
  exact foldl_attempt_setConstructor after hafter

/-- The static `Legacy` becomes the constructor though it was added between two others; a
second one is refused before the name is given and after it. -/
theorem constructor_named_anytime_legacy :
    let legacy : Method := { name := "Legacy", isStatic := true }
    let before : List Method := [.named "run", legacy]
    let after : List Method := [.named "stop", .named "Legacy"]
    (∀ m ∈ before ++ after, m.name ≠ "__construct") ∧
    (additions before ++ Edit.setConstructor "Legacy" :: additions after).foldlM edit
      { name := "Job" } = .error (.duplicateMember .method "Legacy") ∧
    ((additions before ++ Edit.setConstructor "Legacy" :: additions after).foldl attempt
      { name := "Job" }).methods.members
        = [{ legacy with isStatic := false }, .named "run", .named "stop"] := by
  intro legacy before after
  have hothers : ∀ m ∈ before ++ after, m.name ≠ "__construct" := by decide +kernel
  obtain ⟨_, hlists⟩ := constructor_named_anytime { name := "Job" } "Legacy"
  obtain ⟨houtcome, hrest⟩ := hlists before after hothers
  refine ⟨hothers, houtcome.trans (by decide +kernel), ?_⟩
  rw [hrest]
  decide +kernel

-- A method with the name of the constructor so far cannot change places with a new name.
example :
    let d : Draft := { name := "Job", methods := ⟨[.named "run"]⟩ }
    ((d.setConstructor "Job").attempt (.addMethod (.named "__construct"))).methods.names
      = ["run", "__construct"] ∧
    ((d.attempt (.addMethod (.named "__construct"))).setConstructor "Job").methods.names
      = ["__construct", "run"] := by
  decide +kernel

end Draft

end ClassDraft
