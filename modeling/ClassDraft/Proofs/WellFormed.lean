import ClassDraft.Proofs.ClassPath
import ClassDraft.Proofs.Reachable

/-!
# Well-formed drafts

Every step checks what it brings in and nothing else, so that what a draft is made of
stays well-formed only if no step spoils what an earlier one has checked. Settling is the
step to watch: it rewrites the header, the exceptions and the parameters without another
look. It leaves identifiers where class paths were, and names of parameters as they were.

`Regular` is what every history keeps of the header and of the rules for interfaces. What
holds of a single method comes from the steps that built it: whatever a draft does to its
methods, making them bare, taking away `static`, setting a margin, settling, a method
could have done on its own. So **the methods of a draft are methods that their own steps
lead to** (`Built.method_reachable`), with distinct identifiers as parameters and class paths
as exceptions.
-/

namespace ClassDraft

/-! ## Methods by their own steps -/

namespace Method

/-- The methods that steps of their own lead to. A refused step leaves a method as it was
and needs no rule. -/
inductive Reachable : Method → Prop where
  | named (name : String) : Reachable (named name)
  | edit {m m' : Method} (change : Edit) : Reachable m → m.edit change = .ok m' → Reachable m'
  | settle {m : Method} (o : Options) (uses : UseList) :
    Reachable m → Reachable ((m.settle o).run uses).1

/-- Distinct identifiers name the parameters, and the exceptions are class paths. -/
structure Sound (m : Method) : Prop where
  params : m.params.Proper
  exceptions : ∀ path ∈ m.exceptions, Name.isClassPath path = true

/-- An accepted parameter has an identifier for a name, and one that was free among the
parameters of its method. -/
theorem addParam_ok {m m' : Method} {p : Param} (h : m.addParam p = .ok m') :
    Name.isIdentifier p.name = true ∧ p.name ∉ m.params.names ∧
      m' = { m with params := ⟨m.params.members ++ [p]⟩ } := by
  rw [addParam_eq] at h
  obtain ⟨hname, h⟩ := Checked.of_ite h
  obtain ⟨hfresh, h⟩ := Checked.of_ite h
  cases h
  exact ⟨Bool.of_not_eq_false hname, hfresh, rfl⟩

/-- A list of parameters is added one by one, each to what the one before has given back. -/
theorem addParams_cons (m : Method) (p : Param) (rest : List Param) :
    m.addParams (p :: rest) = m.addParam p >>= (·.addParams rest) :=
  InPlace.result_bind (tryAddParam p) (fun _ => rest.forM tryAddParam) m

/-- Exceptions are accepted all together, and only if each of them is a class path. -/
theorem addExceptions_ok {m m' : Method} {paths : List String}
    (h : m.addExceptions paths = .ok m') :
    (∀ path ∈ paths, Name.isClassPath path = true) ∧
      m' = { m with exceptions := m.exceptions ++ paths } := by
  unfold addExceptions at h
  split at h
  next => cases h
  next hnone =>
    cases h
    refine ⟨?_, rfl⟩
    intro path hpath
    simpa using List.find?_eq_none.mp hnone path hpath

/-- One more parameter with a free identifier for a name keeps the names distinct
identifiers. -/
theorem sound_addParam {m m' : Method} {p : Param} (h : m.Sound) (hok : m.addParam p = .ok m') :
    m'.Sound := by
  obtain ⟨hname, hfresh, rfl⟩ := addParam_ok hok
  exact ⟨h.params.insert hname hfresh (m.params.perm_names_concat p), h.exceptions⟩

/-- By induction along the list. If one parameter is refused there is no method to speak of. -/
theorem sound_addParams (params : List Param) :
    ∀ {m m' : Method}, m.Sound → m.addParams params = .ok m' → m'.Sound := by
  induction params with
  | nil =>
    intro m m' h hok
    cases hok
    exact h
  | cons p rest ih =>
    intro m m' h hok
    rw [addParams_cons] at hok
    cases hp : m.addParam p with
    | error fault =>
      rw [hp] at hok
      cases hok
    | ok next =>
      rw [hp] at hok
      exact ih (sound_addParam h hp) hok

theorem sound_addExceptions {m m' : Method} {paths : List String} (h : m.Sound)
    (hok : m.addExceptions paths = .ok m') : m'.Sound := by
  obtain ⟨hpaths, rfl⟩ := addExceptions_ok hok
  refine ⟨h.params, ?_⟩
  intro path hpath
  rcases List.mem_append.mp hpath with hold | hnew
  · exact h.exceptions path hold
  · exact hpaths path hnew

/-- Each step that is accepted keeps a method sound. Only three of them touch parameters or
exceptions. -/
theorem sound_edit {m m' : Method} {change : Edit} (h : m.Sound) (hok : m.edit change = .ok m') :
    m'.Sound := by
  cases change with
  | access keyword =>
    cases hkeyword : Access.parse keyword with
    | error fault =>
      rw [edit, hkeyword] at hok
      cases hok
    | ok access =>
      rw [edit, hkeyword] at hok
      cases hok
      exact ⟨h.params, h.exceptions⟩
  | addParam p => exact sound_addParam h hok
  | addParams params => exact sound_addParams params h hok
  | raising paths => exact sound_addExceptions h hok
  | describe _ | returning _ | setStatic _ | bare | addStatements _ | addVerbatim _
    | addSource _ | setMargin _ =>
    cases hok
    exact ⟨h.params, h.exceptions⟩

/-- Parameters keep their names, and short exceptions are identifiers. -/
theorem sound_settledForm {m : Method} (h : m.Sound) (o : Options) : (m.settledForm o).Sound := by
  have hnames : (m.settledForm o).params.names = m.params.names := List.map_map
  refine ⟨h.params.of_perm (.of_eq hnames), ?_⟩
  intro path hpath
  obtain ⟨full, hfull, rfl⟩ := List.mem_map.mp hpath
  exact Name.isClassPath_of_isIdentifier (Name.isIdentifier_short (h.exceptions full hfull))

/-- Every method that its own steps lead to is sound, also after it was settled. -/
theorem Reachable.sound {m : Method} (h : m.Reachable) : m.Sound := by
  induction h with
  | named name =>
    refine ⟨⟨List.nodup_nil, ?_⟩, ?_⟩
    · intro name hmem
      cases hmem
    · intro path hmem
      cases hmem
  | edit change _ hok ih => exact sound_edit ih hok
  | settle o uses _ ih =>
    rw [settle_refers _ o uses]
    exact sound_settledForm ih o

/-- The settled form is one that settling leads to, from whichever list of used paths. -/
theorem Reachable.settledForm {m : Method} (h : m.Reachable) (o : Options) :
    (m.settledForm o).Reachable := by
  have hsettle := h.settle o .empty
  rw [settle_refers m o .empty] at hsettle
  exact hsettle

/-- Making a method not static is a step of its own, so that a draft does nothing special to
its constructor. -/
theorem Reachable.notStatic {m : Method} (h : m.Reachable) :
    Reachable { m with isStatic := false } :=
  h.edit (.setStatic false) rfl

/-- A draft takes a method in by at most two steps of the method's own. -/
theorem Reachable.adapt {m : Method} (h : m.Reachable) (d : Draft) : (d.adapt m).Reachable := by
  have hbare : Reachable { m with isBare := m.isBare || d.isInterface } := by
    cases d.isInterface with
    | false =>
      rw [Bool.or_false]
      exact h
    | true =>
      rw [Bool.or_true]
      exact h.edit .bare rfl
  unfold Draft.adapt
  cases m.name != d.constructorName with
  | false =>
    rw [Bool.and_false]
    exact hbare.notStatic
  | true =>
    rw [Bool.and_true]
    exact hbare

/-- A bare signature is public, whatever access the method has. -/
theorem signature_public (m : Method) (h : m.isBare = true) :
    Statement.startsWith m.signature "public " = true := by
  rw [Statement.startsWith, List.isPrefixOf_iff_prefix, signature, if_pos h]
  cases m.isStatic with
  | false => simp [Access.keyword]
  | true => simp [Access.keyword]

end Method

namespace Draft

/-! ## Where the methods of a draft come from -/

/-- Whatever end a method is added at, the draft then has that method and those it had
before. -/
theorem mem_methods_addMethod {d d' : Draft} {m m' : Method} (hok : d.addMethod m = .ok d')
    (h : m' ∈ d'.methods.members) : m' = d.adapt m ∨ m' ∈ d.methods.members := by
  obtain ⟨_, _, rfl⟩ := addMethod_ok hok
  dsimp only [methodsWith] at h
  split at h
  next => exact List.mem_cons.mp h
  next =>
    rcases List.mem_append.mp h with hold | hlast
    · exact .inr hold
    · exact .inl (List.mem_singleton.mp hlast)

/-- Naming the constructor changes one method at most, and that only by making it not
static. -/
theorem mem_methods_setConstructor {d : Draft} {name : String} {m' : Method}
    (h : m' ∈ (d.setConstructor name).methods.members) :
    m' ∈ d.methods.members ∨ ∃ m ∈ d.methods.members, m' = { m with isStatic := false } := by
  unfold setConstructor at h
  dsimp only at h
  rcases d.methods.promote_cases name ({ · with isStatic := false })
    with ⟨_, hsame⟩ | ⟨m, hm, _, hmoved⟩
  · rw [hsame] at h
    exact .inl h
  · rw [hmoved] at h
    rcases List.mem_cons.mp h with rfl | hrest
    · exact .inr ⟨m, hm, rfl⟩
    · exact .inl (List.mem_of_mem_eraseP hrest)

/-- The methods of a settled draft are its methods, each with a margin and settled. -/
theorem mem_methods_settled {d : Draft} {o : Options} {m' : Method}
    (h : m' ∈ (d.settled o).methods.members) :
    ∃ m ∈ d.methods.members, m' = (m.withMargin (d.memberMargin o)).settledForm o := by
  rw [settled_eq] at h
  obtain ⟨m, hm, rfl⟩ := List.mem_map.mp h
  exact ⟨m, hm, rfl⟩

/-- The drafts that histories lead to whose methods were built by steps of their own.
Nothing is asked of the properties. -/
inductive Built : Draft → Prop where
  | new {kind : Kind} {name : String} {d : Draft} : Draft.new kind name = .ok d → Built d
  | attempt {d : Draft} (change : Edit) (hmethod : ∀ m, change = .addMethod m → m.Reachable) :
    Built d → Built (d.attempt change)

theorem Built.reachable {d : Draft} (h : d.Built) : d.Reachable := by
  induction h with
  | new h => exact .new h
  | attempt change _ _ ih => exact ih.attempt change

/-- A method that a change leaves in a draft is one that its own steps lead to. -/
theorem method_reachable_edit {d d' : Draft} {change : Edit}
    (hmethod : ∀ m, change = .addMethod m → m.Reachable)
    (hall : ∀ m ∈ d.methods.members, m.Reachable) (hok : d.edit change = .ok d') :
    ∀ m ∈ d'.methods.members, m.Reachable := by
  intro m' hm'
  rcases edit_cases hok with ⟨hsame, _⟩ | ⟨m, hchange, hadd⟩ | ⟨p, hadd⟩ | ⟨name, rfl⟩ | ⟨o, rfl⟩
  · exact hall m' (hsame ▸ hm')
  · rcases mem_methods_addMethod hadd hm' with rfl | hold
    · exact (hmethod m hchange).adapt d
    · exact hall m' hold
  · obtain ⟨_, _, _, rfl⟩ := addProperty_ok hadd
    exact hall m' hm'
  · rcases mem_methods_setConstructor hm' with hold | ⟨m, hm, rfl⟩
    · exact hall m' hold
    · exact (hall m hm).notStatic
  · obtain ⟨m, hm, rfl⟩ := mem_methods_settled hm'
    exact ((hall m hm).edit (.setMargin _) rfl).settledForm o

/-- **The methods of a draft are methods that their own steps lead to**, whatever the draft
has done to them since they came in. -/
theorem Built.method_reachable {d : Draft} (h : d.Built) :
    ∀ m ∈ d.methods.members, m.Reachable := by
  induction h with
  | new h =>
    obtain ⟨_, rfl⟩ := new_ok h
    intro m hm
    cases hm
  | @attempt d change hmethod _ ih =>
    cases hedit : d.edit change with
    | ok next =>
      rw [attempt_of_ok hedit]
      exact method_reachable_edit hmethod ih hedit
    | error fault =>
      rw [attempt_of_error hedit]
      exact ih

/-! ## The header and the rules for interfaces -/

/-- What every history keeps: the name is an identifier, the header refers to class paths,
and an interface is made of constants and bare signatures. -/
structure Regular (d : Draft) : Prop where
  name : Name.isIdentifier d.name = true
  base : ∀ path ∈ d.base.toList, Name.isClassPath path = true
  interfaces : ∀ path ∈ d.interfaces.toList, Name.isClassPath path = true
  traits : ∀ path ∈ d.traits.toList, Name.isClassPath path = true
  noModifier : d.isInterface = true → d.modifier = none
  noBase : d.isInterface = true → d.base = none
  noTraits : d.isInterface = true → d.traits.toList = []
  constants : d.isInterface = true → ∀ p ∈ d.properties.members, p.isConstant = true
  signatures : d.isInterface = true → ∀ m ∈ d.methods.members, m.isBare = true

theorem isClassPath_of_mem_insert {s : OrderedSet String} {path : String}
    (hs : ∀ other ∈ s.toList, Name.isClassPath other = true)
    (hpath : Name.isClassPath path = true) :
    ∀ other ∈ (s.insert path).toList, Name.isClassPath other = true := by
  intro other hother
  rcases OrderedSet.mem_insert.mp hother with hold | rfl
  · exact hs other hold
  · exact hpath

theorem regular_withUses {d : Draft} (h : d.Regular) (uses : UseList) :
    Regular { d with uses := uses } :=
  { h with }

/-- A base is set on a class alone, and on an interface the path joins the interfaces: so no
interface gets a base. -/
theorem regular_inheritFrom {d d' : Draft} {path : String} (h : d.Regular)
    (hok : d.inheritFrom path = .ok d') : d'.Regular := by
  obtain ⟨hpath, rfl⟩ := inheritFrom_ok hok
  split
  next => exact { h with interfaces := isClassPath_of_mem_insert h.interfaces hpath }
  next hkind =>
    refine { h with base := ?_, noBase := fun hi => absurd hi hkind }
    intro other hother
    rw [Option.toList_some, List.mem_singleton] at hother
    exact hother ▸ hpath

/-- Only a class gets a trait. -/
theorem regular_addTrait {d d' : Draft} {path : String} (h : d.Regular)
    (hok : d.addTrait path = .ok d') : d'.Regular := by
  obtain ⟨hkind, hpath, rfl⟩ := addTrait_ok hok
  have hclass : ¬ d.isInterface = true := by rw [hkind]; exact Bool.false_ne_true
  exact { h with
    traits := isClassPath_of_mem_insert h.traits hpath
    noTraits := fun hi => absurd hi hclass }

/-- A method that comes into an interface is made bare on its way in. -/
theorem regular_addMethod {d d' : Draft} {m : Method} (h : d.Regular)
    (hok : d.addMethod m = .ok d') : d'.Regular := by
  have hsignatures : d.isInterface = true → ∀ m' ∈ d'.methods.members, m'.isBare = true := by
    intro hkind m' hm'
    rcases mem_methods_addMethod hok hm' with rfl | hold
    · rw [adapt, hkind, Bool.or_true]
    · exact h.signatures hkind m' hold
  obtain ⟨_, _, rfl⟩ := addMethod_ok hok
  exact { h with signatures := hsignatures }

/-- A property that comes into an interface is a constant, since any other is refused. -/
theorem regular_addProperty {d d' : Draft} {p : Property} (h : d.Regular)
    (hok : d.addProperty p = .ok d') : d'.Regular := by
  obtain ⟨_, hconstant, _, rfl⟩ := addProperty_ok hok
  refine { h with constants := ?_ }
  intro hkind p' hp'
  rcases List.mem_append.mp hp' with hold | hlast
  · exact h.constants hkind p' hold
  · rw [List.mem_singleton.mp hlast]
    exact hconstant hkind

/-- The method that comes to the front is as bare as it was. -/
theorem regular_setConstructor {d : Draft} (h : d.Regular) (name : String) :
    (d.setConstructor name).Regular := by
  refine { h with signatures := ?_ }
  intro hkind m' hm'
  rcases mem_methods_setConstructor hm' with hold | ⟨m, hm, rfl⟩
  · exact h.signatures hkind m' hold
  · exact h.signatures hkind m hm

/-- Shortening the names of a header leaves class paths. -/
theorem isClassPath_of_mem_map_short {paths : List String} {path : String}
    (hall : ∀ full ∈ paths, Name.isClassPath full = true) (h : path ∈ paths.map Name.short) :
    Name.isClassPath path = true := by
  obtain ⟨full, hfull, rfl⟩ := List.mem_map.mp h
  exact Name.isClassPath_of_isIdentifier (Name.isIdentifier_short (hall full hfull))

/-- Settling leaves short names in the header. They are class paths too, and where there was
none there is none now. -/
theorem regular_settled {d : Draft} (h : d.Regular) (o : Options) : (d.settled o).Regular := by
  have hsignatures : d.isInterface = true →
      ∀ m' ∈ (d.settled o).methods.members, m'.isBare = true := by
    intro hkind m' hm'
    obtain ⟨m, hm, rfl⟩ := mem_methods_settled hm'
    exact h.signatures hkind m hm
  rw [settled_eq] at hsignatures ⊢
  refine ⟨h.name, ?_, ?_, ?_, h.noModifier, ?_, ?_, ?_, hsignatures⟩
  · intro path hpath
    rw [settledForm, Option.toList_map] at hpath
    exact isClassPath_of_mem_map_short h.base hpath
  · intro path hpath
    rw [settledForm, OrderedSet.toList_ofList, List.mem_eraseDups] at hpath
    exact isClassPath_of_mem_map_short h.interfaces hpath
  · intro path hpath
    rw [settledForm, OrderedSet.toList_ofList, List.mem_eraseDups] at hpath
    exact isClassPath_of_mem_map_short h.traits hpath
  · intro hkind
    rw [settledForm, h.noBase hkind]
    rfl
  · intro hkind
    rw [settledForm, h.noTraits hkind]
    rfl
  · intro hkind p' hp'
    obtain ⟨p, hp, rfl⟩ := List.mem_map.mp hp'
    exact h.constants hkind p hp

/-- Each accepted change keeps a draft regular. Most of them do not touch what is spoken of. -/
theorem regular_edit {d d' : Draft} {change : Edit} (h : d.Regular)
    (hok : d.edit change = .ok d') : d'.Regular := by
  cases change with
  | setModifier modifier =>
    cases hok
    unfold setModifier
    split
    next => exact h
    next hkind => exact { h with noModifier := fun hi => absurd hi hkind }
  | inheritFrom path => exact regular_inheritFrom h hok
  | addInterface path =>
    obtain ⟨hpath, rfl⟩ := addInterface_ok hok
    exact { h with interfaces := isClassPath_of_mem_insert h.interfaces hpath }
  | addTrait path => exact regular_addTrait h hok
  | addMethod m => exact regular_addMethod h hok
  | addProperty p => exact regular_addProperty h hok
  | addConstant name value => exact regular_addProperty h hok
  | setConstructor name =>
    cases hok
    exact regular_setConstructor h name
  | settle o =>
    cases hok
    exact regular_settled h o
  | addUse path =>
    cases hok
    exact regular_withUses h _
  | importType type =>
    cases hok
    exact regular_withUses h _
  | setNamespace _ | describe _ | setMargin _ =>
    cases hok
    exact { h with }

/-- Every draft is regular, from the empty one on. -/
theorem Reachable.regular {d : Draft} (h : d.Reachable) : d.Regular := by
  refine Reachable.invariant ?_ (fun _ _ _ => regular_edit) h
  intro kind name hname
  refine ⟨hname, ?_, ?_, ?_, fun _ => rfl, fun _ => rfl, fun _ => rfl, ?_, ?_⟩
  · intro path hpath
    cases hpath
  · intro path hpath
    cases hpath
  · intro path hpath
    cases hpath
  · intro _ p hp
    cases hp
  · intro _ m hm
    cases hm

/-- **Drafts are well-formed**, after every history whose methods were built by steps of their
own: the name is an identifier; the base, the interfaces, the traits and the exceptions are
class paths, no interface and no trait twice; distinct identifiers name the parameters of
each method. An interface has no modifier, no base and no traits, its properties are
constants, and each of its methods is declared by one line: a public signature and a
semicolon. -/
theorem wellFormed_by_kind {d : Draft} (h : d.Built) :
    Name.isIdentifier d.name = true ∧
    (∀ path ∈ d.base.toList, Name.isClassPath path = true) ∧
    (∀ path ∈ d.interfaces.toList, Name.isClassPath path = true) ∧
    (∀ path ∈ d.traits.toList, Name.isClassPath path = true) ∧
    d.interfaces.toList.Nodup ∧ d.traits.toList.Nodup ∧
    (∀ m ∈ d.methods.members,
      (∀ path ∈ m.exceptions, Name.isClassPath path = true) ∧
      m.params.names.Nodup ∧ ∀ name ∈ m.params.names, Name.isIdentifier name = true) ∧
    (d.kind = .interfaceKind →
      d.modifier = none ∧ d.base = none ∧ d.traits.toList = [] ∧
      (∀ p ∈ d.properties.members, p.isConstant = true) ∧
      ∀ m ∈ d.methods.members, m.isBare = true ∧
        Statement.startsWith m.signature "public " = true ∧
        m.declaration = [.line (m.signature ++ ";")]) := by
  have hregular := h.reachable.regular
  refine ⟨hregular.name, hregular.base, hregular.interfaces, hregular.traits,
    d.interfaces.nodup, d.traits.nodup, ?_, ?_⟩
  · intro m hm
    have hsound := (h.method_reachable m hm).sound
    exact ⟨hsound.exceptions, hsound.params.nodup, hsound.params.identifiers⟩
  · intro hkind
    have hi : d.isInterface = true := beq_iff_eq.mpr hkind
    refine ⟨hregular.noModifier hi, hregular.noBase hi, hregular.noTraits hi,
      hregular.constants hi, ?_⟩
    intro m hm
    have hbare := hregular.signatures hi m hm
    exact ⟨hbare, m.signature_public hbare, if_pos hbare⟩

/-- A list of changes keeps a draft built from methods of that kind, if all methods that it
brings in are. -/
theorem Built.attempts (changes : List Edit)
    (hmethods : ∀ m, Edit.addMethod m ∈ changes → m.Reachable) :
    ∀ {d : Draft}, d.Built → (changes.foldl Draft.attempt d).Built := by
  induction changes with
  | nil => exact fun h => h
  | cons change rest ih =>
    intro d h
    refine ih (fun m hm => hmethods m (List.mem_cons_of_mem _ hm)) (h.attempt change ?_)
    rintro m rfl
    exact hmethods m (List.mem_cons_self ..)

/-- The trait is refused; the method is made bare and its exception is shortened. -/
theorem wellFormed_by_kind_store :
    let find : Method :=
      { name := "find", params := ⟨[.named "id"]⟩, access := .owner,
        exceptions := ["\\App\\Missing"] }
    let d := [Edit.inheritFrom "\\App\\Store", .addTrait "App\\Logs", .addMethod find,
      .settle {}].foldl attempt { name := "Users", kind := .interfaceKind }
    d.Built ∧ d.kind = .interfaceKind ∧ d.methods.names = ["find"] ∧
    d.interfaces.toList = ["Store"] ∧ d.traits.toList = [] ∧
    ∀ m ∈ d.methods.members, m.declaration = [.line (m.signature ++ ";")] := by
  intro find d
  have hparam : (Method.named "find").edit (.addParam (.named "id"))
      = .ok { name := "find", params := ⟨[.named "id"]⟩ } := by decide +kernel
  have hfind : find.Reachable :=
    (((Method.Reachable.named "find").edit _ hparam).edit (.access "private") rfl).edit
      (.raising ["\\App\\Missing"]) rfl
  have hnew : Draft.new .interfaceKind "Users" = .ok { name := "Users", kind := .interfaceKind } :=
    rfl
  have hd : d.Built := by
    refine Built.attempts _ ?_ (.new hnew)
    intro m hm
    have hm : m = find := by simpa using hm
    exact hm ▸ hfind
  have hkind : d.kind = .interfaceKind := by decide +kernel
  obtain ⟨_, _, _, _, _, _, _, hrules⟩ := wellFormed_by_kind hd
  obtain ⟨_, _, htraits, _, hmethods⟩ := hrules hkind
  exact ⟨hd, hkind, by decide +kernel, by decide +kernel, htraits,
    fun m hm => (hmethods m hm).2.2⟩

end Draft

end ClassDraft
