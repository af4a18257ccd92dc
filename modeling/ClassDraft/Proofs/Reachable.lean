import ClassDraft.Proofs.Admission
import ClassDraft.Proofs.Settling

/-!
# What holds of every draft

A draft begins empty and is changed step by step, by any changes in any order; a
change that is refused leaves it as it was (`attempt_of_error`). `Reachable` is what
such histories lead to. What holds of empty drafts and survives every accepted change
holds of all of them (`Reachable.invariant`), so each step is opened only once, by its
`_ok` lemma, which says when it is accepted and what it then does.

The first invariant is `Orderly`: **the methods have distinct identifiers for names,
and so have the properties, and the constructor, if there is one, comes first and is
not static.** Three steps move methods about. A new method goes to the front only
under the name of the constructor, a method named as the constructor afterwards is
brought to the front, and settling rewrites the methods where they stand.
-/

namespace ClassDraft

/-- What comes after a check that may be refused is reached only with the condition met. -/
theorem Checked.of_require {α : Type} {ok : Bool} {fault : Fault} {next : Unit → Checked α}
    {result : α} (h : (Checked.require ok fault >>= next) = .ok result) :
    ok = true ∧ next () = .ok result := by
  cases ok with
  | false => cases h
  | true => exact ⟨rfl, h⟩

/-- The same for a question that a step has been reduced to. -/
theorem Checked.of_ite {α : Type} {refused : Prop} [Decidable refused] {fault : Fault}
    {next : Checked α} {result : α}
    (h : (if refused then .error fault else next) = .ok result) :
    ¬ refused ∧ next = .ok result := by
  by_cases hrefused : refused
  · rw [if_pos hrefused] at h
    cases h
  · rw [if_neg hrefused] at h
    exact ⟨hrefused, h⟩

namespace Draft

/-! ## What each step does -/

/-- A draft begins with a checked name and everything else at its default. -/
theorem new_ok {kind : Kind} {name : String} {d : Draft} (h : new kind name = .ok d) :
    Name.isIdentifier name = true ∧ d = { name := name, kind := kind } := by
  obtain ⟨hname, hd⟩ := Checked.of_require h
  cases hd
  exact ⟨hname, rfl⟩

/-- An interface that is accepted is a class path and joins the others, whatever the draft
is. -/
theorem addInterface_ok {d d' : Draft} {path : String} (h : d.addInterface path = .ok d') :
    Name.isClassPath path = true ∧ d' = { d with interfaces := d.interfaces.insert path } := by
  obtain ⟨hpath, hd⟩ := Checked.of_require h
  cases hd
  exact ⟨hpath, rfl⟩

/-- What is inherited from becomes the base of a class, but joins the interfaces of an
interface. -/
theorem inheritFrom_ok {d d' : Draft} {path : String} (h : d.inheritFrom path = .ok d') :
    Name.isClassPath path = true ∧
      d' = if d.isInterface then { d with interfaces := d.interfaces.insert path }
        else { d with base := some path } := by
  obtain ⟨hpath, hd⟩ := Checked.of_require h
  refine ⟨hpath, ?_⟩
  split at hd
  next hkind =>
    cases hd
    rw [if_pos hkind]
  next hkind =>
    cases hd
    rw [if_neg hkind]

/-- A trait that is accepted is a class path, and the draft is a class. -/
theorem addTrait_ok {d d' : Draft} {path : String} (h : d.addTrait path = .ok d') :
    d.isInterface = false ∧ Name.isClassPath path = true ∧
      d' = { d with traits := d.traits.insert path } := by
  obtain ⟨hok, hd⟩ := Checked.of_require h
  rw [Bool.and_eq_true, Bool.not_eq_true'] at hok
  cases hd
  exact ⟨hok.1, hok.2, rfl⟩

/-- An accepted method has an identifier for a name, and one that was free, and stands at
its place, made to fit in. -/
theorem addMethod_ok {d d' : Draft} {m : Method} (h : d.addMethod m = .ok d') :
    Name.isIdentifier m.name = true ∧ m.name ∉ d.methods.names ∧
      d' = { d with methods := d.methodsWith m } := by
  rw [addMethod_eq] at h
  obtain ⟨hname, h⟩ := Checked.of_ite h
  obtain ⟨hfresh, h⟩ := Checked.of_ite h
  cases h
  exact ⟨Bool.of_not_eq_false hname, hfresh, rfl⟩

/-- An accepted property has an identifier for a name, and one that was free, and is a
constant if it stands on an interface. -/
theorem addProperty_ok {d d' : Draft} {p : Property} (h : d.addProperty p = .ok d') :
    Name.isIdentifier p.name = true ∧ (d.isInterface = true → p.isConstant = true) ∧
      p.name ∉ d.properties.names ∧
      d' = { d with properties := ⟨d.properties.members ++ [p]⟩ } := by
  rw [addProperty_eq] at h
  obtain ⟨hname, h⟩ := Checked.of_ite h
  obtain ⟨hconstant, h⟩ := Checked.of_ite h
  obtain ⟨hfresh, h⟩ := Checked.of_ite h
  cases h
  refine ⟨Bool.of_not_eq_false hname, ?_, hfresh, rfl⟩
  intro hkind
  exact Bool.of_not_eq_false fun hvaries => hconstant ⟨hkind, hvaries⟩

/-! ## Histories -/

/-- The drafts that histories of changes lead to, refused changes included. -/
inductive Reachable : Draft → Prop where
  | new {kind : Kind} {name : String} {d : Draft} : Draft.new kind name = .ok d → Reachable d
  | attempt {d : Draft} (change : Edit) : Reachable d → Reachable (d.attempt change)

/-- What empty drafts have and every accepted change keeps, all drafts have. -/
theorem Reachable.invariant {P : Draft → Prop}
    (hnew : ∀ kind name, Name.isIdentifier name = true → P { name := name, kind := kind })
    (hstep : ∀ d change d', P d → d.edit change = .ok d' → P d') :
    ∀ {d : Draft}, d.Reachable → P d := by
  intro d hd
  induction hd with
  | new h =>
    obtain ⟨hname, rfl⟩ := new_ok h
    exact hnew _ _ hname
  | @attempt d change _ ih =>
    cases hedit : d.edit change with
    | ok next =>
      rw [attempt_of_ok hedit]
      exact hstep _ change next ih hedit
    | error fault =>
      rw [attempt_of_error hedit]
      exact ih

/-- A list of changes, refused or not, leads from a reachable draft to a reachable one. -/
theorem Reachable.attempts (changes : List Edit) :
    ∀ {d : Draft}, d.Reachable → (changes.foldl Draft.attempt d).Reachable := by
  induction changes with
  | nil => exact fun h => h
  | cons change rest ih => exact fun h => ih (h.attempt change)

/-- A change leaves the members alone and records references at most, or it adds a member,
or names the constructor, or settles. -/
theorem edit_cases {d d' : Draft} {change : Edit} (h : d.edit change = .ok d') :
    (d'.methods = d.methods ∧ d'.properties = d.properties ∧
      d'.constructorName = d.constructorName ∧ ∃ refs, d'.uses = d.uses.addAll refs) ∨
    (∃ m, change = .addMethod m ∧ d.addMethod m = .ok d') ∨ (∃ p, d.addProperty p = .ok d') ∨
    (∃ name, d' = d.setConstructor name) ∨ ∃ o, d' = d.settled o := by
  cases change with
  | setNamespace path => cases h; exact .inl ⟨rfl, rfl, rfl, [], rfl⟩
  | setModifier modifier =>
    cases h
    unfold setModifier
    split <;> exact .inl ⟨rfl, rfl, rfl, [], rfl⟩
  | inheritFrom path =>
    obtain ⟨_, rfl⟩ := inheritFrom_ok h
    split <;> exact .inl ⟨rfl, rfl, rfl, [], rfl⟩
  | addInterface path =>
    obtain ⟨_, rfl⟩ := addInterface_ok h
    exact .inl ⟨rfl, rfl, rfl, [], rfl⟩
  | addTrait path =>
    obtain ⟨_, _, rfl⟩ := addTrait_ok h
    exact .inl ⟨rfl, rfl, rfl, [], rfl⟩
  | addMethod m => exact .inr (.inl ⟨m, rfl, h⟩)
  | addProperty p => exact .inr (.inr (.inl ⟨p, h⟩))
  | addConstant name value => exact .inr (.inr (.inl ⟨_, h⟩))
  | addUse path =>
    cases h
    unfold addUse
    refine .inl ⟨rfl, rfl, rfl, [path], ?_⟩
    rw [UseList.addAll_cons, UseList.addAll_nil]
  | importType type =>
    cases h
    unfold importType
    refine .inl ⟨rfl, rfl, rfl, Name.typeReferences type, ?_⟩
    rw [UseList.shorten_refers type d.uses]
  | describe text => cases h; exact .inl ⟨rfl, rfl, rfl, [], rfl⟩
  | setMargin text => cases h; exact .inl ⟨rfl, rfl, rfl, [], rfl⟩
  | setConstructor name => cases h; exact .inr (.inr (.inr (.inl ⟨name, rfl⟩)))
  | settle o => cases h; exact .inr (.inr (.inr (.inr ⟨o, rfl⟩)))

/-! ## Order among the members -/

/-- Distinct identifiers name the methods, and so the properties; the constructor comes
first and is not static. -/
structure Orderly (d : Draft) : Prop where
  methods : d.methods.Proper
  properties : d.properties.Proper
  constructorFirst : ∀ m ∈ d.methods.members, m.name = d.constructorName →
    d.methods.members.head? = some m ∧ m.isStatic = false

/-- A new method goes to the front only under the name of the constructor, and under that
name it is the only one. -/
theorem orderly_addMethod {d d' : Draft} {m : Method} (h : d.Orderly)
    (hok : d.addMethod m = .ok d') : d'.Orderly := by
  obtain ⟨hname, hfresh, rfl⟩ := addMethod_ok hok
  by_cases hctor : m.name = d.constructorName
  · rw [methodsWith_of_eq hctor]
    refine ⟨h.methods.insert hname hfresh (List.Perm.refl _), h.properties, ?_⟩
    intro m' hm' hc
    rcases List.mem_cons.mp hm' with rfl | hm'
    · exact ⟨rfl, by simp [adapt, hctor]⟩
    · -- an older method of this name would have kept the new one out
      exact absurd (Roster.mem_names.mpr ⟨m', hm', hc.trans hctor.symm⟩) hfresh
  · rw [methodsWith_of_ne hctor]
    refine ⟨h.methods.insert hname hfresh (d.methods.perm_names_concat (d.adapt m)),
      h.properties, ?_⟩
    intro m' hm' hc
    rcases List.mem_append.mp hm' with hm' | hm'
    · obtain ⟨hhead, hstatic⟩ := h.constructorFirst m' hm' hc
      refine ⟨?_, hstatic⟩
      rw [List.head?_append, hhead]
      rfl
    · rw [List.mem_singleton] at hm'
      subst hm'
      exact absurd hc hctor

/-- A new property has a free name among properties and touches no method. -/
theorem orderly_addProperty {d d' : Draft} {p : Property} (h : d.Orderly)
    (hok : d.addProperty p = .ok d') : d'.Orderly := by
  obtain ⟨hname, _, hfresh, rfl⟩ := addProperty_ok hok
  exact ⟨h.methods, h.properties.insert hname hfresh (d.properties.perm_names_concat p),
    h.constructorFirst⟩

/-- Naming the constructor moves a name among the methods and changes none. -/
theorem perm_names_setConstructor (d : Draft) (name : String) :
    (d.setConstructor name).methods.names.Perm d.methods.names :=
  d.methods.perm_names_promote name ({ · with isStatic := false }) fun _ => rfl

/-- The method that is named the constructor is brought to the front and made not static in
the same step, and no second one of that name is left behind. -/
theorem orderly_setConstructor {d : Draft} (h : d.Orderly) (name : String) :
    (d.setConstructor name).Orderly := by
  have hproper := h.methods.of_perm (d.perm_names_setConstructor name)
  refine ⟨hproper, h.properties, ?_⟩
  unfold setConstructor at hproper ⊢
  dsimp only at hproper ⊢
  rcases d.methods.promote_cases name ({ · with isStatic := false })
    with ⟨habsent, hsame⟩ | ⟨m, hm, hname, hmoved⟩
  · -- no method has that name, so that nothing is the constructor
    rw [hsame]
    intro m' hm' hc
    exact absurd (Roster.mem_names.mpr ⟨m', hm', hc⟩) habsent
  · rw [hmoved] at hproper ⊢
    intro m' hm' hc
    rcases List.mem_cons.mp hm' with rfl | hm'
    · exact ⟨rfl, rfl⟩
    · -- the name stands in front already and does not stand there twice
      have hfresh := (List.nodup_cons.mp hproper.nodup).1
      refine absurd (List.mem_map.mpr ⟨m', hm', ?_⟩) hfresh
      exact hc.trans hname.symm

/-- Settling rewrites members where they stand; names and `static` are not among what it
rewrites. -/
theorem orderly_settled {d : Draft} (h : d.Orderly) (o : Options) : (d.settled o).Orderly := by
  rw [settled_eq]
  have hmethods : (d.settledForm o).methods.names = d.methods.names := List.map_map
  have hproperties : (d.settledForm o).properties.names = d.properties.names := List.map_map
  refine ⟨h.methods.of_perm (.of_eq hmethods), h.properties.of_perm (.of_eq hproperties), ?_⟩
  intro m' hm' hc
  obtain ⟨m, hm, rfl⟩ := List.mem_map.mp hm'
  obtain ⟨hhead, hstatic⟩ := h.constructorFirst m hm hc
  refine ⟨?_, hstatic⟩
  show (d.methods.members.map _).head? = _
  rw [List.head?_map, hhead]
  rfl

/-- Each accepted change keeps the order, those that touch no member trivially so. -/
theorem orderly_edit {d d' : Draft} {change : Edit} (h : d.Orderly)
    (hok : d.edit change = .ok d') : d'.Orderly := by
  rcases edit_cases hok with ⟨hm, hp, hc, _⟩ | ⟨m, _, hadd⟩ | ⟨p, hadd⟩ | ⟨name, rfl⟩ | ⟨o, rfl⟩
  · -- nothing that the invariant speaks of has changed
    exact ⟨hm ▸ h.methods, hp ▸ h.properties, hm ▸ hc ▸ h.constructorFirst⟩
  · exact orderly_addMethod h hadd
  · exact orderly_addProperty h hadd
  · exact orderly_setConstructor h name
  · exact orderly_settled h o

/-- Every draft is orderly, from the empty one on. -/
theorem Reachable.orderly {d : Draft} (h : d.Reachable) : d.Orderly := by
  refine Reachable.invariant ?_ (fun _ _ _ => orderly_edit) h
  intro kind name _
  refine ⟨⟨List.nodup_nil, ?_⟩, ⟨List.nodup_nil, ?_⟩, ?_⟩
  · intro name hmem
    cases hmem
  · intro name hmem
    cases hmem
  · intro m hm
    cases hm

/-- **Order is kept** by every history of changes, refused ones included: names of
methods are distinct identifiers, and so are names of properties, and a method that is
named like the constructor is the first one and not static. -/
theorem members_orderly {d : Draft} (h : d.Reachable) :
    d.methods.names.Nodup ∧ (∀ name ∈ d.methods.names, Name.isIdentifier name = true) ∧
    d.properties.names.Nodup ∧ (∀ name ∈ d.properties.names, Name.isIdentifier name = true) ∧
    ∀ m ∈ d.methods.members, m.name = d.constructorName →
      d.methods.members.head? = some m ∧ m.isStatic = false := by
  obtain ⟨hmethods, hproperties, hctor⟩ := h.orderly
  exact ⟨hmethods.nodup, hmethods.identifiers, hproperties.nodup, hproperties.identifiers, hctor⟩

/-- The second `boot` is refused. The first is made the constructor only after it was
added, as a static method and behind another one. -/
theorem members_orderly_renamed :
    let d := [Edit.addMethod (.named "run"), .addMethod { name := "boot", isStatic := true },
      .addMethod (.named "boot"), .addConstant "LIMIT" "3", .setConstructor "boot",
      .settle {}].foldl attempt { name := "Job" }
    d.Reachable ∧ d.methods.names = ["boot", "run"] ∧ d.properties.names = ["LIMIT"] ∧
    d.constructorName = "boot" ∧ d.methods.names.Nodup ∧
    ∀ m ∈ d.methods.members, m.name = d.constructorName →
      d.methods.members.head? = some m ∧ m.isStatic = false := by
  intro d
  have hnew : Draft.new .classKind "Job" = .ok { name := "Job" } := rfl
  have hd : d.Reachable := (Reachable.new hnew).attempts _
  obtain ⟨hnodup, _, _, _, hctor⟩ := members_orderly hd
  exact ⟨hd, by decide +kernel, by decide +kernel, rfl, hnodup, hctor⟩

end Draft

end ClassDraft
