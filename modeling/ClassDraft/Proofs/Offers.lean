import ClassDraft.Proofs.WellFormed
import Mathlib.Data.List.Basic

/-!
# Newcomers one after another

Each newcomer is judged by what is there when it comes, and what is there depends on the
newcomers before it. So a whole list of newcomers can be spoken of in terms of that list
alone.

A class to which methods are offered, where a refused one is passed over, keeps **the first
method of each name**, in the order in which the names occur first, except that the
constructor comes before all others (`first_definition_wins`). A method to which parameters
are added, where a refused one is the end of it, takes **all of them or reports the first
that cannot stand where it does** (`addParams_exact`).
-/

namespace ClassDraft

/-! ## Methods offered to a draft -/

namespace Draft

/-- The steps that add methods one after another. -/
def additions (methods : List Method) : List Edit := methods.map .addMethod

theorem additions_cons (m : Method) (methods : List Method) :
    additions (m :: methods) = .addMethod m :: additions methods :=
  rfl

theorem additions_append (methods more : List Method) :
    additions (methods ++ more) = additions methods ++ additions more :=
  List.map_append

/-- A method with a free identifier for a name is taken in. -/
theorem attempt_addMethod_of_fit {d : Draft} {m : Method}
    (hid : Name.isIdentifier m.name = true) (hfresh : m.name ∉ d.methods.names) :
    d.attempt (.addMethod m) = { d with methods := d.methodsWith m } := by
  have hok : d.edit (.addMethod m) = .ok { d with methods := d.methodsWith m } := by
    rw [edit, addMethod_eq, hid, if_neg Bool.true_eq_false.mp, if_neg hfresh]
  exact attempt_of_ok hok

/-- Any other method is passed over, and the draft goes on as it was. -/
theorem attempt_addMethod_of_unfit {d : Draft} {m : Method}
    (h : Name.isIdentifier m.name = true → m.name ∈ d.methods.names) :
    d.attempt (.addMethod m) = d := by
  cases hid : Name.isIdentifier m.name with
  | false =>
    have hfault : d.edit (.addMethod m) = .error (.unexpected .methodName m.name) := by
      rw [edit, addMethod_eq, if_pos hid]
    exact attempt_of_error hfault
  | true =>
    have hfault : d.edit (.addMethod m) = .error (.duplicateMember .method m.name) := by
      rw [edit, addMethod_eq, hid, if_neg Bool.true_eq_false.mp, if_pos (h hid)]
    exact attempt_of_error hfault

/-- The first method of a name. -/
def firstNamed (methods : List Method) (name : String) : Option Method :=
  methods.find? (·.name == name)

/-- Whether a name is fit for a method that is not the constructor. -/
def namesOther (ctor name : String) : Bool :=
  Name.isIdentifier name && name != ctor

/-- The names of a list of methods that are fit for others than the constructor, each where it
occurs first. -/
def otherNames (ctor : String) (methods : List Method) : List String :=
  ((methods.map Method.name).filter (namesOther ctor)).eraseDups

/-- The first method of each name: the constructor, and then the others in the order in which
their names occur first. -/
def firstDefinitions (ctor : String) (methods : List Method) : List Method :=
  (firstNamed methods ctor).toList
    ++ (otherNames ctor methods).filterMap (firstNamed methods)

section

variable {methods : List Method} {m : Method} {name ctor : String}

theorem name_of_firstNamed (h : firstNamed methods name = some m) : m.name = name :=
  (Roster.get?_eq_some (r := ⟨methods⟩) h).2

theorem firstNamed_eq_none : firstNamed methods name = none ↔ name ∉ methods.map Method.name :=
  Roster.get?_eq_none_iff (r := ⟨methods⟩)

theorem mem_names_of_firstNamed (h : firstNamed methods name = some m) :
    name ∈ methods.map Method.name :=
  List.mem_map.mpr ⟨m, Roster.get?_eq_some (r := ⟨methods⟩) h⟩

theorem exists_firstNamed (h : name ∈ methods.map Method.name) :
    ∃ first, firstNamed methods name = some first := by
  cases hfirst : firstNamed methods name with
  | none => exact absurd h (firstNamed_eq_none.mp hfirst)
  | some first => exact ⟨first, rfl⟩

theorem namesOther_iff : namesOther ctor name = true ↔
    Name.isIdentifier name = true ∧ name ≠ ctor := by
  rw [namesOther, Bool.and_eq_true, bne_iff_ne]

/-- The other names are the identifiers among the offered names that are not the name of the
constructor. -/
theorem mem_otherNames : name ∈ otherNames ctor methods ↔
    name ∈ methods.map Method.name ∧ Name.isIdentifier name = true ∧ name ≠ ctor := by
  rw [otherNames, List.mem_eraseDups, List.mem_filter, namesOther_iff]

/-- A method of another name, or of a name that occurred before, is not the first. -/
theorem firstNamed_concat (h : m.name = name → name ∈ methods.map Method.name) :
    firstNamed (methods ++ [m]) name = firstNamed methods name := by
  rw [firstNamed, List.find?_append]
  by_cases hname : m.name = name
  · obtain ⟨first, hfirst⟩ := exists_firstNamed (h hname)
    rw [firstNamed] at hfirst ⊢
    rw [hfirst, Option.some_or]
  · rw [List.find?_singleton, if_neg (by simpa using hname), Option.or_none]
    rfl

theorem firstNamed_concat_self (hnew : m.name ∉ methods.map Method.name) :
    firstNamed (methods ++ [m]) m.name = some m := by
  have hnone : methods.find? (·.name == m.name) = none := firstNamed_eq_none.mpr hnew
  rw [firstNamed, List.find?_append, hnone, Option.none_or, List.find?_singleton,
    if_pos (by simp)]

/-- One more method adds no name if its own is unfit, the constructor's or not new. -/
theorem otherNames_concat (h : Name.isIdentifier m.name = true → m.name ≠ ctor →
    m.name ∈ methods.map Method.name) :
    otherNames ctor (methods ++ [m]) = otherNames ctor methods := by
  rw [otherNames, otherNames, List.map_append, List.filter_append, List.map_singleton]
  by_cases hfit : namesOther ctor m.name = true
  · obtain ⟨hid, hne⟩ := namesOther_iff.mp hfit
    have hold : m.name ∈ (methods.map Method.name).filter (namesOther ctor) :=
      List.mem_filter.mpr ⟨h hid hne, hfit⟩
    rw [List.filter_cons_of_pos hfit, List.filter_nil, OrderedSet.eraseDups_append_cons hold,
      List.append_nil]
  · rw [List.filter_cons_of_neg hfit, List.filter_nil, List.append_nil]

theorem otherNames_concat_of_new (hid : Name.isIdentifier m.name = true)
    (hne : m.name ≠ ctor) (hnew : m.name ∉ methods.map Method.name) :
    otherNames ctor (methods ++ [m]) = otherNames ctor methods ++ [m.name] := by
  have hfit : namesOther ctor m.name = true := namesOther_iff.mpr ⟨hid, hne⟩
  rw [otherNames, otherNames, List.map_append, List.filter_append, List.map_singleton,
    List.filter_cons_of_pos hfit, List.filter_nil, OrderedSet.eraseDups_concat_of_not_mem]
  intro hmem
  exact hnew (List.mem_filter.mp hmem).1

/-- The methods that stand for the names so far stay the same. -/
theorem filterMap_firstNamed_concat (ctor : String) (methods : List Method) (m : Method) :
    (otherNames ctor methods).filterMap (firstNamed (methods ++ [m]))
      = (otherNames ctor methods).filterMap (firstNamed methods) := by
  apply List.filterMap_congr
  intro name hname
  exact firstNamed_concat fun _ => (mem_otherNames.mp hname).1

/-- A method that is unfit or comes too late changes nothing about the first definitions. -/
theorem firstDefinitions_concat (hctor : Name.isIdentifier ctor = true)
    (h : Name.isIdentifier m.name = true → m.name ∈ methods.map Method.name) :
    firstDefinitions ctor (methods ++ [m]) = firstDefinitions ctor methods := by
  rw [firstDefinitions, otherNames_concat fun hid _ => h hid, filterMap_firstNamed_concat,
    firstNamed_concat, firstDefinitions]
  rintro rfl
  exact h hctor

/-- The constructor comes to the front, however late it is offered. -/
theorem firstDefinitions_concat_constructor (hnew : m.name ∉ methods.map Method.name)
    (hname : m.name = ctor) :
    firstDefinitions ctor (methods ++ [m]) = m :: firstDefinitions ctor methods := by
  subst hname
  rw [firstDefinitions, firstNamed_concat_self hnew, otherNames_concat fun _ hne => absurd rfl hne,
    filterMap_firstNamed_concat, firstDefinitions, firstNamed_eq_none.mpr hnew]
  rfl

/-- Any other method of a new name comes last. -/
theorem firstDefinitions_concat_other (hid : Name.isIdentifier m.name = true)
    (hnew : m.name ∉ methods.map Method.name) (hne : m.name ≠ ctor) :
    firstDefinitions ctor (methods ++ [m]) = firstDefinitions ctor methods ++ [m] := by
  rw [firstDefinitions, firstNamed_concat fun heq => absurd heq hne,
    otherNames_concat_of_new hid hne hnew, List.filterMap_append, filterMap_firstNamed_concat,
    firstDefinitions, List.append_assoc]
  simp [firstNamed_concat_self hnew]

/-- A method is kept exactly if it is the first of its name and the name is an identifier. -/
theorem mem_firstDefinitions (hctor : Name.isIdentifier ctor = true) :
    m ∈ firstDefinitions ctor methods ↔
      firstNamed methods m.name = some m ∧ Name.isIdentifier m.name = true := by
  rw [firstDefinitions, List.mem_append, Option.mem_toList, List.mem_filterMap]
  constructor
  · rintro (hfirst | ⟨other, hother, hfirst⟩)
    · have hname := name_of_firstNamed hfirst
      exact ⟨hname ▸ hfirst, hname ▸ hctor⟩
    · have hname := name_of_firstNamed hfirst
      exact ⟨hname ▸ hfirst, hname ▸ (mem_otherNames.mp hother).2.1⟩
  · rintro ⟨hfirst, hid⟩
    by_cases hname : m.name = ctor
    · exact .inl (hname ▸ hfirst)
    · have hmem := mem_names_of_firstNamed hfirst
      exact .inr ⟨m.name, mem_otherNames.mpr ⟨hmem, hid, hname⟩, hfirst⟩

/-- The names of the first definitions are the identifiers that occur as names. -/
theorem mem_names_firstDefinitions (hctor : Name.isIdentifier ctor = true) :
    name ∈ (firstDefinitions ctor methods).map Method.name ↔
      name ∈ methods.map Method.name ∧ Name.isIdentifier name = true := by
  rw [List.mem_map]
  constructor
  · rintro ⟨first, hfirst, rfl⟩
    obtain ⟨hfirst, hid⟩ := (mem_firstDefinitions hctor).mp hfirst
    exact ⟨mem_names_of_firstNamed hfirst, hid⟩
  · rintro ⟨hmem, hid⟩
    obtain ⟨first, hfirst⟩ := exists_firstNamed hmem
    have hname := name_of_firstNamed hfirst
    exact ⟨first, (mem_firstDefinitions hctor).mpr ⟨hname ▸ hfirst, hname ▸ hid⟩, hname⟩

end

/-! ### What a run of offers leaves -/

/-- A draft with the first definitions among the methods offered to it. What else was
offered has left nothing behind. -/
def keepingFirst (d : Draft) (offered : List Method) : Draft :=
  { d with methods := ⟨(firstDefinitions d.constructorName offered).map d.adapt⟩ }

/-- The names that are taken are the identifiers that were offered. -/
theorem mem_names_keepingFirst {d : Draft} (hctor : Name.isIdentifier d.constructorName = true)
    {offered : List Method} {name : String} :
    name ∈ (d.keepingFirst offered).methods.names ↔
      name ∈ offered.map Method.name ∧ Name.isIdentifier name = true := by
  -- fitting a method in does not change its name
  have hnames : (d.keepingFirst offered).methods.names
      = (firstDefinitions d.constructorName offered).map Method.name := List.map_map
  rw [hnames, mem_names_firstDefinitions hctor]

/-- **One more offer** is one more method in the list of those that were offered. -/
theorem attempt_keepingFirst {d : Draft} (hctor : Name.isIdentifier d.constructorName = true)
    (offered : List Method) (m : Method) :
    (d.keepingFirst offered).attempt (.addMethod m) = d.keepingFirst (offered ++ [m]) := by
  by_cases hfit : Name.isIdentifier m.name = true ∧ m.name ∉ offered.map Method.name
  · obtain ⟨hid, hnew⟩ := hfit
    have hfresh : m.name ∉ (d.keepingFirst offered).methods.names := by
      rw [mem_names_keepingFirst hctor]
      exact fun htaken => hnew htaken.1
    have hmethods : (d.keepingFirst offered).methodsWith m
        = ⟨(firstDefinitions d.constructorName (offered ++ [m])).map d.adapt⟩ := by
      by_cases hname : m.name = d.constructorName
      · rw [methodsWith_of_eq (d := d.keepingFirst offered) hname,
          firstDefinitions_concat_constructor hnew hname]
        rfl
      · rw [methodsWith_of_ne (d := d.keepingFirst offered) hname,
          firstDefinitions_concat_other hid hnew hname, List.map_append]
        rfl
    rw [attempt_addMethod_of_fit hid hfresh, hmethods]
    rfl
  · have hold : Name.isIdentifier m.name = true → m.name ∈ offered.map Method.name := by
      intro hid
      exact Decidable.not_not.mp fun hnew => hfit ⟨hid, hnew⟩
    have htaken : Name.isIdentifier m.name = true →
        m.name ∈ (d.keepingFirst offered).methods.names := by
      intro hid
      exact (mem_names_keepingFirst hctor).mpr ⟨hold hid, hid⟩
    rw [attempt_addMethod_of_unfit htaken, keepingFirst, keepingFirst,
      firstDefinitions_concat hctor hold]

/-- By induction on the methods still to come: what has been offered so far is all that the
draft needs to have kept. -/
theorem attempts_keepingFirst {d : Draft} (hctor : Name.isIdentifier d.constructorName = true)
    (ms : List Method) : ∀ offered : List Method,
      (additions ms).foldl attempt (d.keepingFirst offered) = d.keepingFirst (offered ++ ms) := by
  induction ms with
  | nil =>
    intro offered
    rw [List.append_nil]
    rfl
  | cons m rest ih =>
    intro offered
    rw [additions_cons, List.foldl_cons, attempt_keepingFirst hctor, ih, List.append_assoc,
      List.singleton_append]

/-- On a class a method other than the constructor is taken in as it comes. -/
theorem adapt_eq_self {d : Draft} {m : Method} (hkind : d.kind = .classKind)
    (hname : m.name ≠ d.constructorName) : d.adapt m = m := by
  rw [adapt_eq, hkind, if_neg hname]
  rfl

/-- On a class the constructor loses `static` and nothing else. -/
theorem adapt_eq_notStatic {d : Draft} {m : Method} (hkind : d.kind = .classKind)
    (hname : m.name = d.constructorName) : d.adapt m = { m with isStatic := false } := by
  rw [adapt_eq, hkind, if_pos hname]
  rfl

/-- A class changes the constructor at most. -/
theorem map_adapt_firstDefinitions {d : Draft} (hkind : d.kind = .classKind) (ms : List Method) :
    (firstDefinitions d.constructorName ms).map d.adapt
      = ((firstNamed ms d.constructorName).map ({ · with isStatic := false })).toList
        ++ (otherNames d.constructorName ms).filterMap (firstNamed ms) := by
  rw [firstDefinitions, List.map_append]
  congr 1
  · cases hfirst : firstNamed ms d.constructorName with
    | none => rfl
    | some m =>
      show [d.adapt m] = _
      rw [adapt_eq_notStatic hkind (name_of_firstNamed hfirst)]
      rfl
  · have hself : ∀ m ∈ (otherNames d.constructorName ms).filterMap (firstNamed ms),
        d.adapt m = m := by
      intro m hm
      obtain ⟨name, hname, hfirst⟩ := List.mem_filterMap.mp hm
      apply adapt_eq_self hkind
      rw [name_of_firstNamed hfirst]
      exact (mem_otherNames.mp hname).2.2
    exact (List.map_congr_left hself).trans (List.map_id' _)

/-- **The first definition of a name wins.** A new class to which methods are offered one by
one, refused ones passed over, has in the end the first of them that is named as the
constructor, if there is one, not static; then for each other identifier among the names, in
the order in which these occur first, the first method of that name as it was offered.
Nothing else about the class has changed. -/
theorem first_definition_wins {name : String} {d : Draft} (h : Draft.new .classKind name = .ok d)
    (ms : List Method) :
    (additions ms).foldl attempt d = { d with
      methods :=
        ⟨((firstNamed ms Name.defaultConstructor).map ({ · with isStatic := false })).toList
          ++ (otherNames Name.defaultConstructor ms).filterMap (firstNamed ms)⟩ } := by
  obtain ⟨_, rfl⟩ := new_ok h
  have hctor : Name.isIdentifier Name.defaultConstructor = true := by decide
  have hrun := attempts_keepingFirst (d := { name, kind := .classKind }) hctor ms []
  have hstart : keepingFirst { name, kind := .classKind } [] = { name, kind := .classKind } := rfl
  rw [hstart, List.nil_append] at hrun
  rw [hrun, keepingFirst, map_adapt_firstDefinitions rfl]

/-- The text `not a name` is no identifier. The constructor comes third, static; a second one
is refused, and so is a second `run`. -/
theorem first_definition_wins_service :
    let run : Method := { name := "run", isStatic := true }
    let start : Method := { name := "__construct", isStatic := true, description := ["Starts."] }
    let offered := [.named "not a name", run, start, .named "stop", .named "run",
      .named "__construct"]
    Draft.new .classKind "Service" = .ok { name := "Service" } ∧
    ((additions offered).foldl attempt { name := "Service" }).methods.members
      = [{ start with isStatic := false }, run, .named "stop"] := by
  intro run start offered
  have hnew : Draft.new .classKind "Service" = .ok { name := "Service" } := rfl
  refine ⟨hnew, ?_⟩
  rw [first_definition_wins hnew offered]
  decide +kernel

end Draft

/-! ## Parameters added to a method -/

namespace Method

/-- Whether the parameter at a place of a list cannot come after the names `taken` and the
parameters before it: its name is no identifier or occurs there. -/
def Blocked (taken : List String) (params : List Param) (i : Fin params.length) : Prop :=
  Name.isIdentifier (params.get i).name = false ∨ (params.get i).name ∈ taken ∨
    (params.get i).name ∈ (params.take i).map Param.name

instance (taken : List String) (params : List Param) (i : Fin params.length) :
    Decidable (Blocked taken params i) :=
  inferInstanceAs (Decidable (_ ∨ _ ∨ _))

section

variable {m : Method} {p : Param} {rest : List Param} {taken : List String}

/-- For the first parameter only those that the method has already count. -/
theorem blocked_zero : Blocked taken (p :: rest) 0 ↔
    Name.isIdentifier p.name = false ∨ p.name ∈ taken := by
  simp [Blocked]

/-- Behind the first parameter its name is taken as well. -/
theorem blocked_succ (i : Fin rest.length) :
    Blocked taken (p :: rest) i.succ ↔ Blocked (taken ++ [p.name]) rest i := by
  simp [Blocked, or_assoc]

theorem names_addParam (m : Method) (p : Param) :
    (Roster.mk (m.params.members ++ [p])).names = m.params.names ++ [p.name] :=
  List.map_append

/-- The fault that a refused parameter causes. -/
def refusal (method : String) (p : Param) : Fault :=
  if Name.isIdentifier p.name = false then .unexpected .paramName p.name
  else .duplicateParam method p.name

/-- A list whose first parameter is blocked is refused for it, whatever follows. -/
theorem addParams_cons_of_blocked (h : Blocked m.params.names (p :: rest) 0) :
    m.addParams (p :: rest) = .error (refusal m.name p) := by
  have hfault : m.addParam p = .error (refusal m.name p) := by
    rw [addParam_eq, refusal]
    by_cases hid : Name.isIdentifier p.name = false
    · rw [if_pos hid, if_pos hid]
    · rw [if_neg hid, if_neg hid, if_pos ((blocked_zero.mp h).resolve_left hid)]
  rw [addParams_cons, hfault]
  rfl

/-- Otherwise the first parameter is added and the rest of the list is up to the method with
it. -/
theorem addParams_cons_of_not_blocked (h : ¬ Blocked m.params.names (p :: rest) 0) :
    m.addParams (p :: rest)
      = addParams { m with params := ⟨m.params.members ++ [p]⟩ } rest := by
  obtain ⟨hid, hfresh⟩ := not_or.mp (blocked_zero.not.mp h)
  have hok : m.addParam p = .ok { m with params := ⟨m.params.members ++ [p]⟩ } := by
    rw [addParam_eq, if_neg hid, if_neg hfresh]
  rw [addParams_cons, hok]
  rfl

end

/-- By induction on the list, for every method: where none is blocked, all of them follow
those that are there. -/
theorem addParams_of_not_blocked (params : List Param) : ∀ {m : Method},
    (∀ i, ¬ Blocked m.params.names params i) →
      m.addParams params = .ok { m with params := ⟨m.params.members ++ params⟩ } := by
  induction params with
  | nil =>
    intro m _
    rw [List.append_nil]
    rfl
  | cons p rest ih =>
    intro m hfree
    rw [addParams_cons_of_not_blocked (hfree 0), ih, List.append_assoc, List.singleton_append]
    intro i
    rw [names_addParam, ← blocked_succ]
    exact hfree i.succ

/-- By induction on the list, for every method: the parameters before the first blocked one
are added on the way to it and count when it is refused. -/
theorem addParams_of_blocked (params : List Param) : ∀ {m : Method} {i : Fin params.length},
    Blocked m.params.names params i → (∀ j < i, ¬ Blocked m.params.names params j) →
      m.addParams params = .error (refusal m.name (params.get i)) := by
  induction params with
  | nil => intro m i; exact i.elim0
  | cons p rest ih =>
    intro m i hblocked hleast
    cases i using Fin.cases with
    | zero => exact addParams_cons_of_blocked hblocked
    | succ i =>
      rw [addParams_cons_of_not_blocked (hleast 0 i.succ_pos)]
      refine ih ?_ ?_
      · rw [names_addParam, ← blocked_succ]
        exact hblocked
      · intro j hj
        rw [names_addParam, ← blocked_succ]
        exact hleast j.succ (Fin.succ_lt_succ_iff.mpr hj)

/-- **A list of parameters is taken whole or refused for its first bad member.** If none is
blocked, all of them follow those that the method has, and nothing else changes. Otherwise the
first that is blocked decides: if its name is no identifier, a parameter name was wanted, and
if it is, that name is there twice. -/
theorem addParams_exact (m : Method) (params : List Param) :
    ((∀ i, ¬ Blocked m.params.names params i) →
      m.addParams params = .ok { m with params := ⟨m.params.members ++ params⟩ }) ∧
    ∀ i, Blocked m.params.names params i → (∀ j < i, ¬ Blocked m.params.names params j) →
      (Name.isIdentifier (params.get i).name = false →
        m.addParams params = .error (.unexpected .paramName (params.get i).name) ∧
        Wanted.paramName.text = "a parameter name") ∧
      (Name.isIdentifier (params.get i).name = true →
        m.addParams params = .error (.duplicateParam m.name (params.get i).name)) := by
  refine ⟨addParams_of_not_blocked params, ?_⟩
  intro i hblocked hleast
  rw [addParams_of_blocked params hblocked hleast, refusal]
  refine ⟨fun hid => ⟨?_, rfl⟩, fun hid => ?_⟩
  · rw [if_pos hid]
  · rw [hid, if_neg Bool.true_eq_false.mp]

/-- The first list is taken. In the second, `limit` is there twice before a name comes that is
none; in the third it is the other way round. -/
theorem addParams_exact_save :
    let save : Method := { name := "save", params := ⟨[.named "id"]⟩ }
    let fits : List Param := [.named "limit", { name := "offset", type := some "int" }]
    let repeats : List Param := [.named "limit", .named "limit", .named "1st", .named "id"]
    let breaks : List Param := [.named "limit", .named "1st", .named "id", .named "limit"]
    (∀ i, ¬ Blocked save.params.names fits i) ∧
    save.addParams fits = .ok { save with params := ⟨.named "id" :: fits⟩ } ∧
    Blocked save.params.names repeats 1 ∧
    save.addParams repeats = .error (.duplicateParam "save" "limit") ∧
    Blocked save.params.names breaks 1 ∧
    save.addParams breaks = .error (.unexpected .paramName "1st") := by
  intro save fits repeats breaks
  have hfits : ∀ i, ¬ Blocked save.params.names fits i := by decide +kernel
  have hrepeats : Blocked save.params.names repeats 1 := by decide +kernel
  have hbreaks : Blocked save.params.names breaks 1 := by decide +kernel
  obtain ⟨htaken, _⟩ := addParams_exact save fits
  obtain ⟨_, hrefused⟩ := addParams_exact save repeats
  obtain ⟨_, hunfit⟩ := addParams_exact save breaks
  refine ⟨hfits, htaken hfits, hrepeats, ?_, hbreaks, ?_⟩
  · exact (hrefused 1 hrepeats (by decide +kernel)).2 (by decide)
  · exact ((hunfit 1 hbreaks (by decide +kernel)).1 (by decide)).1

end Method

end ClassDraft
