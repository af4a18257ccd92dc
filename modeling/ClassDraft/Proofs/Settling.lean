import ClassDraft.FairCopy
import ClassDraft.Proofs.UseList

/-!
# What settling leaves of a draft

Settling walks through a draft once: the header, the properties, then the methods,
and in each method the parameters, the return type and the exceptions. On the way
it shortens every reference and records its full path. This file gives the outcome
without the walk.

`references` lists what a draft refers to, in the order of the walk, and
`settledForm` is the draft with every reference shortened and every comment drawn
up. `Draft.settle_refers` says that settling gives the one and records the other
from whatever list it starts; each member has such a lemma of its own. The
exceptions of a method are recorded a second time when its comment is drawn up, but
by then they are short, so that nothing depends on whether comments are wanted.

Read field by field, **the used paths are those known before and then the full paths of
the references, each at its first place**, and no text that could hold a separator
still does.
-/

namespace ClassDraft

open UseList (Refers)

/-- The types that are stated, in their order; none if nothing is stated. -/
def Returns.types : Returns → List String
  | unstated => []
  | single type => [type]
  | union types => types

/-- The same statement about other types: a union stays a union and nothing stays nothing. -/
def Returns.mapTypes (f : String → String) : Returns → Returns
  | unstated => unstated
  | single type => single (f type)
  | union types => union (types.map f)

/-- Shortening what is returned goes along the stated types, whichever form they are stated
in. -/
theorem Returns.shorten_refers (r : Returns) :
    Refers r.shorten (r.mapTypes Name.shortType) (r.types.flatMap Name.typeReferences) := by
  cases r with
  | unstated => exact Refers.pure unstated
  | single type =>
    have h := (UseList.shorten_refers type).map single
    rw [← List.flatMap_singleton Name.typeReferences type] at h
    exact h
  | union types => exact (Refers.mapM UseList.shorten_refers types).map union

theorem Returns.types_mapTypes (f : String → String) (r : Returns) :
    (r.mapTypes f).types = r.types.map f := by
  cases r <;> rfl

/-- No short type is qualified, if there is one at all. -/
theorem isQualified_of_mem_shortType {type : Option String} {text : String}
    (h : text ∈ (type.map Name.shortType).toList) : Name.isQualified text = false := by
  cases type with
  | none => cases h
  | some full =>
    rw [Option.map_some, Option.toList_some, List.mem_singleton] at h
    exact h ▸ Name.isQualified_shortType full

theorem isQualified_of_mem_map_short {paths : List String} {text : String}
    (h : text ∈ paths.map Name.short) : Name.isQualified text = false := by
  obtain ⟨path, _, rfl⟩ := List.mem_map.mp h
  exact Name.isQualified_short path

namespace Param

/-- What a parameter refers to: the parts of its type, if it has one. -/
def references (p : Param) : List String := p.type.toList.flatMap Name.typeReferences

/-- The parameter as shortening leaves it, without the list that is filled meanwhile. -/
def short (p : Param) : Param := { p with type := p.type.map Name.shortType }

/-- Shortening a parameter gives its short form and records what its type refers to. -/
theorem shorten_refers (p : Param) : Refers p.shorten p.short p.references := by
  have h := Refers.optionMapM UseList.shorten_refers p.type
  exact h.map fun type : Option String => { p with type := type }

end Param

namespace Property

/-- What a property refers to: the parts of its type, if it has one. -/
def references (p : Property) : List String := p.type.toList.flatMap Name.typeReferences

/-- The draft with every reference in short and every comment drawn up. It has no part in
which paths are used, and so it can be had without the walk. -/
def settledForm (p : Property) (o : Options) : Property :=
  let type := p.type.map Name.shortType
  { p with type := type, comment := (p.commentFor o type).nonempty? }

/-- Settling a property gives its settled form and records what its type refers to. The
comment is drawn up from the short type, so that it records nothing. -/
theorem settle_refers (p : Property) (o : Options) :
    Refers (p.settle o) (p.settledForm o) p.references := by
  have h := Refers.optionMapM UseList.shorten_refers p.type
  exact h.map fun type : Option String =>
    { p with type := type, comment := (p.commentFor o type).nonempty? }

end Property

namespace Method

/-- What a method refers to, in the order in which it is met: the parameters, what is
returned, the exceptions. -/
def references (m : Method) : List String :=
  m.params.members.flatMap Param.references ++ m.returns.types.flatMap Name.typeReferences
    ++ m.exceptions

/-- The method with a shortened signature. Its comment is still the one before. -/
def short (m : Method) : Method :=
  { m with
    params := ⟨m.params.members.map Param.short⟩
    returns := m.returns.mapTypes Name.shortType
    exceptions := m.exceptions.map Name.short }

/-- The comment of a method whose signature is short already. -/
def signatureComment (m : Method) (o : Options) : Comment where
  lines :=
    if o.annotate then
      Comment.descriptionLines m.description ++ m.params.members.map Comment.paramLine
        ++ m.exceptions.map ("@throws " ++ ·) ++ (m.returns.render.map ("@return " ++ ·)).toList
    else m.description
  style := o.commentStyle
  margin := m.margin

/-- The method with its signature in short and the comment that goes with it. -/
def settledForm (m : Method) (o : Options) : Method :=
  { m.short with comment := (m.short.signatureComment o).nonempty? }

/-- The texts of a method that name classes. Types are among them as a whole, not part by
part. -/
def mentions (m : Method) : List String :=
  m.params.members.flatMap (·.type.toList) ++ m.returns.types ++ m.exceptions

/-- What a method has to say about its types: those of its parameters, what it returns
and what it throws. -/
def signatureTypes (m : Method) : List (Option String) × Returns × List String :=
  (m.params.members.map Param.type, m.returns, m.exceptions)

/-- The exceptions of a comment are references, but short ones leave nothing. -/
theorem throwsLines_refers {exceptions : List String}
    (hshort : ∀ e ∈ exceptions, Name.isQualified e = false) :
    Refers (exceptions.mapM Comment.throwsLine) (exceptions.map ("@throws " ++ ·)) [] := by
  have h := Refers.mapM (fun e => (UseList.refer_refers e).map ("@throws " ++ ·)) exceptions
  have hlines : exceptions.map (fun e => "@throws " ++ Name.short e)
      = exceptions.map ("@throws " ++ ·) :=
    List.map_congr_left fun e he => congrArg ("@throws " ++ ·) (Name.short_eq_self (hshort e he))
  rw [hlines] at h
  -- each line refers to its exception, which leaves nothing in the list
  refine h.congr (Name.fullPaths_eq_nil ?_)
  intro ref href
  obtain ⟨e, he, hin⟩ := List.mem_flatMap.mp href
  exact List.mem_singleton.mp hin ▸ hshort e he

theorem isQualified_mention_short {m : Method} {text : String} (h : text ∈ m.short.mentions) :
    Name.isQualified text = false := by
  simp only [mentions, short, List.mem_append, List.mem_flatMap, Returns.types_mapTypes] at h
  rcases h with (⟨p, hp, htext⟩ | hreturns) | hexceptions
  · obtain ⟨q, _, rfl⟩ := List.mem_map.mp hp
    exact isQualified_of_mem_shortType htext
  · obtain ⟨type, _, rfl⟩ := List.mem_map.mp hreturns
    exact Name.isQualified_shortType type
  · exact isQualified_of_mem_map_short hexceptions

/-- Annotations shorten what is short already. So drawing up the comment of a method records
nothing more, whether or not there are annotations. -/
theorem commentFor_refers (m : Method) (o : Options) :
    Refers (m.commentFor o m.short.params.members m.short.returns m.short.exceptions)
      (m.short.signatureComment o) [] := by
  have hshort : ∀ e ∈ m.short.exceptions, Name.isQualified e = false :=
    fun _ he => isQualified_of_mem_map_short he
  unfold commentFor signatureComment
  split
  next =>
    have h := throwsLines_refers hshort
    exact (h.map _).map _
  next => exact Refers.pure _

/-- Settling a method gives its settled form and records its references, with or without
annotations in its comment. -/
theorem settle_refers (m : Method) (o : Options) :
    Refers (m.settle o) (m.settledForm o) m.references := by
  have hparams := Refers.mapM Param.shorten_refers m.params.members
  have hexceptions := UseList.mapM_refer_refers m.exceptions
  have hrefs : m.references = m.params.members.flatMap Param.references
      ++ (m.returns.types.flatMap Name.typeReferences ++ (m.exceptions ++ [])) := by
    rw [List.append_nil, ← List.append_assoc]
    rfl
  rw [hrefs]
  -- the comment comes last, when the exceptions are short
  refine hparams.bind (m.returns.shorten_refers.bind (hexceptions.bind ?_))
  exact (m.commentFor_refers o).map fun comment : Comment =>
    { m.short with comment := comment.nonempty? }

end Method

namespace Draft

/-- What a draft refers to: the header, the properties and the methods, in order. -/
def references (d : Draft) : List String :=
  d.base.toList ++ d.interfaces.toList ++ d.traits.toList
    ++ d.properties.members.flatMap Property.references
    ++ d.methods.members.flatMap Method.references

/-- The draft with every reference in short and every comment drawn up. -/
def settledForm (d : Draft) (o : Options) : Draft :=
  { d with
    base := d.base.map Name.short
    interfaces := .ofList (d.interfaces.toList.map Name.short)
    traits := .ofList (d.traits.toList.map Name.short)
    properties := ⟨d.properties.members.map fun p =>
      (p.withMargin (d.memberMargin o)).settledForm o⟩
    methods := ⟨d.methods.members.map fun m =>
      (m.withMargin (d.memberMargin o)).settledForm o⟩ }

/-- Settling a draft gives its settled form and records its references: the header first,
then the properties, then the methods. -/
theorem settle_refers (d : Draft) (o : Options) :
    Refers (d.settle o) (d.settledForm o) d.references := by
  have hbase : Refers (d.base.mapM UseList.refer) (d.base.map Name.short) d.base.toList := by
    have h := Refers.optionMapM UseList.refer_refers d.base
    rw [List.flatMap_singleton'] at h
    exact h
  have hinterfaces := UseList.mapM_refer_refers d.interfaces.toList
  have htraits := UseList.mapM_refer_refers d.traits.toList
  -- the margin is no reference, so that setting it changes nothing of what is recorded
  have hproperties := Refers.mapM
    (fun p : Property => (p.withMargin (d.memberMargin o)).settle_refers o) d.properties.members
  have hmethods := Refers.mapM
    (fun m : Method => (m.withMargin (d.memberMargin o)).settle_refers o) d.methods.members
  have hrefs : d.references = d.base.toList ++ (d.interfaces.toList ++ (d.traits.toList
      ++ (d.properties.members.flatMap Property.references
        ++ d.methods.members.flatMap Method.references))) := by
    simp only [references, List.append_assoc]
  rw [hrefs]
  exact hbase.bind (hinterfaces.bind (htraits.bind (hproperties.bind (hmethods.map _))))

/-- The settled draft without the walk. The list that is filled on the walk and merged at its
end leaves what recording the references in the list of the draft would leave. -/
theorem settled_eq (d : Draft) (o : Options) :
    d.settled o = { d.settledForm o with uses := d.uses.addAll d.references } := by
  unfold settled
  rw [d.settle_refers o .empty]
  dsimp only
  rw [UseList.merge_addAll]
  rfl

/-- The texts of a draft that name classes: its base, its interfaces, its traits, and
every type and exception of its members. -/
def mentions (d : Draft) : List String :=
  d.base.toList ++ d.interfaces.toList ++ d.traits.toList
    ++ d.properties.members.flatMap (·.type.toList)
    ++ d.methods.members.flatMap Method.mentions

/-- Where a mentioned text may stand, for proofs that go through these places one by one. -/
theorem mem_mentions {d : Draft} {text : String} :
    text ∈ d.mentions ↔ text ∈ d.base.toList ∨ text ∈ d.interfaces.toList ∨
      text ∈ d.traits.toList ∨ (∃ p ∈ d.properties.members, text ∈ p.type.toList) ∨
      ∃ m ∈ d.methods.members, text ∈ m.mentions := by
  simp only [mentions, List.mem_append, List.mem_flatMap, or_assoc]

/-- No separator is left anywhere in a settled draft where a class is named. -/
theorem isQualified_mention_settledForm {d : Draft} {o : Options} {text : String}
    (h : text ∈ (d.settledForm o).mentions) : Name.isQualified text = false := by
  rcases mem_mentions.mp h with hbase | hinterfaces | htraits | ⟨p, hp, htext⟩ | ⟨m, hm, htext⟩
  · rw [settledForm, Option.toList_map] at hbase
    exact isQualified_of_mem_map_short hbase
  · rw [settledForm, OrderedSet.toList_ofList, List.mem_eraseDups] at hinterfaces
    exact isQualified_of_mem_map_short hinterfaces
  · rw [settledForm, OrderedSet.toList_ofList, List.mem_eraseDups] at htraits
    exact isQualified_of_mem_map_short htraits
  · obtain ⟨q, _, rfl⟩ := List.mem_map.mp hp
    exact isQualified_of_mem_shortType htext
  · obtain ⟨q, _, rfl⟩ := List.mem_map.mp hm
    exact Method.isQualified_mention_short htext

/-- **What settling leaves.** The used paths are the known ones and then the full paths
of the references, each at its first place, whatever the options. Every reference is
replaced by the last of its parts, a type part by part; names that become equal fall
together among the interfaces and among the traits. No text that names a class holds
a separator any more. -/
theorem settled_exact (d : Draft) (o : Options) :
    (d.settled o).uses.toList = (d.uses.toList ++ Name.fullPaths d.references).eraseDups ∧
    (d.settled o).base = d.base.map Name.lastPart ∧
    (d.settled o).interfaces.toList = (d.interfaces.toList.map Name.lastPart).eraseDups ∧
    (d.settled o).traits.toList = (d.traits.toList.map Name.lastPart).eraseDups ∧
    (d.settled o).properties.members.map Property.type
      = d.properties.members.map (fun p => p.type.map Name.shortType) ∧
    (d.settled o).methods.members.map Method.signatureTypes
      = d.methods.members.map (fun m =>
          (m.params.members.map (fun p => p.type.map Name.shortType),
            m.returns.mapTypes Name.shortType, m.exceptions.map Name.lastPart)) ∧
    ∀ text ∈ (d.settled o).mentions, '\\' ∉ text.toList := by
  have hshort : Name.short = Name.lastPart := funext Name.short_eq_lastPart
  rw [settled_eq]
  refine ⟨UseList.toList_addAll _ _, ?_, ?_, ?_, ?_, ?_, ?_⟩
  · rw [← hshort]
    rfl
  · rw [← hshort]
    exact OrderedSet.toList_ofList _
  · rw [← hshort]
    exact OrderedSet.toList_ofList _
  · exact List.map_map
  · rw [← hshort]
    show (d.methods.members.map _).map Method.signatureTypes = _
    rw [List.map_map]
    apply List.map_congr_left
    intro m _
    show ((m.params.members.map Param.short).map Param.type, _, _) = _
    rw [List.map_map]
    rfl
  · intro text htext
    exact Name.isQualified_eq_false.mp (isQualified_mention_settledForm htext)

end Draft

end ClassDraft
