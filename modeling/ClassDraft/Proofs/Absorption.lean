import ClassDraft.Proofs.Settling
import ClassDraft.SourceFile

/-!
# Settling twice is settling once

A settled draft can be edited and settled again, with other options. The second
settling finds nothing left to shorten: every text that names a class is short, and
short texts are fixed points of all the short forms and leave nothing in the list of
used paths. What the first settling wrote beyond that, comments and margins, is
written anew. So the second settling alone counts (`settled_settled`), and with the
same options twice nothing changes at all.
-/

namespace ClassDraft

theorem map_shortType_map_shortType (type : Option String) :
    (type.map Name.shortType).map Name.shortType = type.map Name.shortType := by
  cases type with
  | none => rfl
  | some full =>
    show some (Name.shortType (Name.shortType full)) = some (Name.shortType full)
    rw [Name.shortType_shortType]

/-- What is returned is shortened once, in whichever form it is stated. -/
theorem Returns.mapTypes_shortType_mapTypes (r : Returns) :
    (r.mapTypes Name.shortType).mapTypes Name.shortType = r.mapTypes Name.shortType := by
  cases r with
  | unstated => rfl
  | single type =>
    show single (Name.shortType (Name.shortType type)) = single (Name.shortType type)
    rw [Name.shortType_shortType]
  | union types =>
    have htypes : types.map (Name.shortType ∘ Name.shortType) = types.map Name.shortType := by
      apply List.map_congr_left
      intro type _
      rw [Function.comp_apply, Name.shortType_shortType]
    show union ((types.map Name.shortType).map Name.shortType) = union (types.map Name.shortType)
    rw [List.map_map, htypes]

theorem map_short_eq_self {paths : List String}
    (h : ∀ path ∈ paths, Name.isQualified path = false) : paths.map Name.short = paths := by
  rw [List.map_congr_left fun path hpath => Name.short_eq_self (h path hpath)]
  exact List.map_id' paths

theorem map_short_map_short (paths : List String) :
    (paths.map Name.short).map Name.short = paths.map Name.short :=
  map_short_eq_self fun _ hpath => isQualified_of_mem_map_short hpath

theorem Param.map_short_map_short (params : List Param) :
    (params.map short).map short = params.map short := by
  rw [List.map_map]
  apply List.map_congr_left
  intro p _
  show { p with type := (p.type.map Name.shortType).map Name.shortType } = p.short
  rw [map_shortType_map_shortType]
  rfl

/-- Of a property that was settled before, the margin and the comment are drawn up anew. -/
theorem Property.settledForm_settledForm (p : Property) (t₁ t₂ : String) (o₁ o₂ : Options) :
    (((p.withMargin t₁).settledForm o₁).withMargin t₂).settledForm o₂
      = (p.withMargin t₂).settledForm o₂ := by
  unfold settledForm withMargin commentFor
  simp only [map_shortType_map_shortType]

/-- Of a method that was settled before, the margin and the comment are drawn up anew. -/
theorem Method.settledForm_settledForm (m : Method) (t₁ t₂ : String) (o₁ o₂ : Options) :
    (((m.withMargin t₁).settledForm o₁).withMargin t₂).settledForm o₂
      = (m.withMargin t₂).settledForm o₂ := by
  unfold settledForm signatureComment short withMargin
  simp only [Param.map_short_map_short, Returns.mapTypes_shortType_mapTypes, map_short_map_short]

/-- A reference of a method is a text that names a class, or a part of a type. -/
theorem Method.mention_of_reference {m : Method} {ref : String} (h : ref ∈ m.references) :
    ref ∈ m.mentions ∨ ∃ text ∈ m.mentions, ref ∈ Name.typeReferences text := by
  simp only [references, mentions, Param.references, List.mem_append, List.mem_flatMap] at h ⊢
  rcases h with (⟨p, hp, type, htype, href⟩ | ⟨type, htype, href⟩) | hexception
  · exact .inr ⟨type, .inl (.inl ⟨p, hp, htype⟩), href⟩
  · exact .inr ⟨type, .inl (.inr htype), href⟩
  · exact .inl (.inr hexception)

namespace Draft

/-- Whatever a draft refers to, it also mentions, as a path or as part of a type. -/
theorem mention_of_reference {d : Draft} {ref : String} (h : ref ∈ d.references) :
    ref ∈ d.mentions ∨ ∃ text ∈ d.mentions, ref ∈ Name.typeReferences text := by
  simp only [references, Property.references, List.mem_append, List.mem_flatMap] at h
  simp only [mem_mentions]
  rcases h with (((hbase | hinterface) | htrait) | ⟨p, hp, type, htype, href⟩) | ⟨m, hm, href⟩
  · exact .inl (.inl hbase)
  · exact .inl (.inr (.inl hinterface))
  · exact .inl (.inr (.inr (.inl htrait)))
  · exact .inr ⟨type, .inr (.inr (.inr (.inl ⟨p, hp, htype⟩))), href⟩
  · rcases Method.mention_of_reference href with hname | ⟨type, htype, hpart⟩
    · exact .inl (.inr (.inr (.inr (.inr ⟨m, hm, hname⟩))))
    · exact .inr ⟨type, .inr (.inr (.inr (.inr ⟨m, hm, htype⟩))), hpart⟩

/-- A settled draft has nothing left to record. -/
theorem isQualified_reference_settledForm {d : Draft} {o : Options} {ref : String}
    (h : ref ∈ (d.settledForm o).references) : Name.isQualified ref = false := by
  rcases mention_of_reference h with hname | ⟨type, htype, hpart⟩
  · exact isQualified_mention_settledForm hname
  · exact Name.isQualified_typeReference (isQualified_mention_settledForm htype) hpart

/-- Two paths may have one short name, of which a set then keeps the first. Shortening again
makes no further names fall together. -/
theorem ofList_short_ofList_short (paths : List String) :
    OrderedSet.ofList ((OrderedSet.ofList (paths.map Name.short)).toList.map Name.short)
      = OrderedSet.ofList (paths.map Name.short) := by
  have hshort : ∀ path ∈ (OrderedSet.ofList (paths.map Name.short)).toList,
      Name.isQualified path = false := by
    intro path hpath
    rw [OrderedSet.toList_ofList, List.mem_eraseDups] at hpath
    exact isQualified_of_mem_map_short hpath
  rw [map_short_eq_self hshort, OrderedSet.ofList_toList]

/-- The settled form of a settled form does not depend on the options that came first: all
they could leave is in comments and margins, and these are made anew. -/
theorem settledForm_settledForm (d : Draft) (o₁ o₂ : Options) :
    (d.settledForm o₁).settledForm o₂ = d.settledForm o₂ := by
  have hbase : (d.base.map Name.short).map Name.short = d.base.map Name.short := by
    cases d.base with
    | none => rfl
    | some path =>
      show some (Name.short (Name.short path)) = some (Name.short path)
      rw [Name.short_short]
  have hproperties : ((d.settledForm o₁).settledForm o₂).properties
      = (d.settledForm o₂).properties := by
    show Roster.mk ((d.properties.members.map _).map _) = Roster.mk _
    rw [List.map_map]
    congr 1
    exact List.map_congr_left fun p _ => p.settledForm_settledForm _ _ o₁ o₂
  have hmethods : ((d.settledForm o₁).settledForm o₂).methods
      = (d.settledForm o₂).methods := by
    show Roster.mk ((d.methods.members.map _).map _) = Roster.mk _
    rw [List.map_map]
    congr 1
    exact List.map_congr_left fun m _ => m.settledForm_settledForm _ _ o₁ o₂
  -- all other fields are neither read nor written
  calc (d.settledForm o₁).settledForm o₂
      = { d with
          base := (d.base.map Name.short).map Name.short
          interfaces := .ofList
            ((OrderedSet.ofList (d.interfaces.toList.map Name.short)).toList.map Name.short)
          traits := .ofList
            ((OrderedSet.ofList (d.traits.toList.map Name.short)).toList.map Name.short)
          properties := ((d.settledForm o₁).settledForm o₂).properties
          methods := ((d.settledForm o₁).settledForm o₂).methods } := rfl
    _ = d.settledForm o₂ := by
        rw [hbase, hproperties, hmethods, ofList_short_ofList_short, ofList_short_ofList_short]
        rfl

/-- Settling absorbs settling: the second time nothing is qualified any more, so that
nothing is recorded either. -/
theorem settled_settled (d : Draft) (o₁ o₂ : Options) :
    (d.settled o₁).settled o₂ = d.settled o₂ := by
  -- the second walk meets no reference that would be recorded
  have hnone : ∀ ref ∈ (d.settledForm o₁).references, Name.isQualified ref = false :=
    fun _ href => isQualified_reference_settledForm href
  rw [settled_eq d o₁, settled_eq, settled_eq d o₂]
  show { (d.settledForm o₁).settledForm o₂ with
    uses := (d.uses.addAll d.references).addAll (d.settledForm o₁).references } = _
  rw [UseList.addAll_eq_self hnone, settledForm_settledForm]

/-- **Settling absorbs.** A fair copy of an already settled draft is the fair copy of the
draft itself, whatever options the draft was settled with before; so are the used
paths, the text of the class and the text of the file. -/
theorem fairCopy_absorbs (d : Draft) (o₁ o₂ : Options) :
    (d.fairCopy o₁).draft.fairCopy o₂ = d.fairCopy o₂ ∧
    ((d.fairCopy o₁).draft.fairCopy o₂).draft.uses.toList = (d.fairCopy o₂).draft.uses.toList ∧
    ((d.fairCopy o₁).draft.fairCopy o₂).render = (d.fairCopy o₂).render ∧
    (SourceFile.of ((d.fairCopy o₁).draft.fairCopy o₂)).render
      = (SourceFile.of (d.fairCopy o₂)).render := by
  have h : (d.fairCopy o₁).draft.fairCopy o₂ = d.fairCopy o₂ :=
    congrArg (FairCopy.mk · o₂) (d.settled_settled o₁ o₂)
  rw [h]
  exact ⟨rfl, rfl, rfl, rfl⟩

end Draft

end ClassDraft
