import ClassDraft.Proofs.Layout

/-!
# The lines of the comments of a class

The comment on a class is its description. The comments on its members are drawn up when
the class is settled, from the description of the member and, where annotations are wanted,
from its types, its parameters and its exceptions. On the way gaps are put in and empty
lines are left out.

For a property of lines that the empty line has, gaps do not count. Such a property **holds
of all lines of a comment exactly if it holds of the description and of each annotation**
(`Property.forall_commentFor`, `Method.forall_signatureComment`), and the comments that a
class is printed with are known one by one (`Draft.mem_comments_fairCopy`).
-/

namespace ClassDraft

/-- A description that is followed by annotations keeps its lines but for the empty ones,
and ends in an empty one, unless it says nothing at all. -/
theorem Comment.mem_descriptionLines {description : List String} {line : String} :
    line ∈ descriptionLines description ↔
      line ∈ description ∧ line ≠ "" ∨ line = "" ∧ ∃ other ∈ description, other ≠ "" := by
  have hkept : ∀ other, other ∈ description.filter (· != "") ↔
      other ∈ description ∧ other ≠ "" := by
    intro other
    rw [List.mem_filter, bne_iff_ne]
  unfold descriptionLines
  split
  next hnone =>
    -- nothing is left of the description, so that there is no gap either
    rw [hnone] at hkept
    simp only [List.not_mem_nil, false_iff] at hkept ⊢
    rintro (hline | ⟨_, other, hother⟩)
    · exact hkept line hline
    · exact hkept other hother
  next hsome =>
    rw [List.mem_append, List.mem_singleton, hkept]
    obtain ⟨other, hother⟩ := List.exists_mem_of_ne_nil _ hsome
    have hgap : ∃ other ∈ description, other ≠ "" := ⟨other, (hkept other).mp hother⟩
    simp [hgap]

/-- The one line that may be added is empty, so that it adds nothing to what is asked of all
lines. -/
theorem Comment.forall_descriptionLines {P : String → Prop} (hempty : P "")
    (description : List String) :
    (∀ line ∈ descriptionLines description, P line) ↔ ∀ line ∈ description, P line := by
  simp only [mem_descriptionLines]
  constructor
  · intro h line hline
    by_cases hne : line = ""
    · exact hne ▸ hempty
    · exact h line (.inl ⟨hline, hne⟩)
  · rintro h line (⟨hline, _⟩ | ⟨rfl, _⟩)
    · exact h line hline
    · exact hempty

/-- The type that the comment on a property annotates, in short. -/
def Property.annotatedTypes (p : Property) (annotate : Bool) : List String :=
  if annotate && !p.isConstant then (p.type.map Name.shortType).toList else []

/-- What holds of all lines of the comment on a property holds of its description and of its
annotation, if it has one. -/
theorem Property.forall_commentFor {P : String → Prop} (hempty : P "") (p : Property)
    (o : Options) :
    (∀ line ∈ (p.commentFor o (p.type.map Name.shortType)).lines, P line) ↔
      (∀ line ∈ p.description, P line) ∧
      ∀ t ∈ p.annotatedTypes o.annotate, P ("@var " ++ t) := by
  unfold commentFor annotatedTypes
  rw [List.forall_mem_append]
  refine and_congr_right fun _ => ?_
  cases p.type.map Name.shortType with
  | none => simp
  | some t =>
    by_cases hwanted : (o.annotate && !p.isConstant) = true
    · by_cases hdescribed : p.description.isEmpty = true
      · simp [annotationLines, hwanted, hdescribed]
      · simp [annotationLines, hwanted, hdescribed, hempty]
    · simp [hwanted]

/-- What holds of all lines of the comment on a method holds of its description and of its
annotations: one for each parameter, one for each exception, and one for what is returned. -/
theorem Method.forall_signatureComment {P : String → Prop} (hempty : P "") (m : Method)
    (o : Options) :
    (∀ line ∈ (m.signatureComment o).lines, P line) ↔
      (∀ line ∈ m.description, P line) ∧
      (o.annotate = true →
        (∀ p ∈ m.params.members, P (Comment.paramLine p)) ∧
        (∀ path ∈ m.exceptions, P ("@throws " ++ path)) ∧
        ∀ t ∈ m.returns.render, P ("@return " ++ t)) := by
  unfold signatureComment
  by_cases hwanted : o.annotate = true
  · simp only [hwanted, if_true, List.forall_mem_append, Comment.forall_descriptionLines hempty,
      List.forall_mem_map, forall_const, and_assoc]
    simp
  · simp [hwanted]

/-! ## The comments of a class -/

/-- The comments that a fair copy is printed with: that on the class, then those on the
properties, then those on the methods, as far as there are any. -/
def FairCopy.comments (c : FairCopy) : List Comment :=
  (c.draft.comment c.options).toList
    ++ c.draft.properties.members.flatMap (·.comment.toList)
    ++ c.draft.methods.members.flatMap (·.comment.toList)

theorem Comment.mem_nonempty? {c d : Comment} :
    d ∈ c.nonempty?.toList ↔ d = c ∧ d.lines ≠ [] := by
  unfold nonempty?
  by_cases h : c.isEmpty = true
  · have hnil : c.lines = [] := List.isEmpty_iff.mp h
    rw [if_pos h]
    simp only [Option.toList_none, List.not_mem_nil, false_iff]
    rintro ⟨rfl, hne⟩
    exact hne hnil
  · have hne : c.lines ≠ [] := fun hnil => h (List.isEmpty_iff.mpr hnil)
    rw [if_neg h, Option.toList_some, List.mem_singleton]
    exact ⟨fun hd => ⟨hd, hd ▸ hne⟩, And.left⟩

/-- The comment on a property in the margin of the members of a class. -/
def Property.docComment (p : Property) (margin : String) (o : Options) : Comment :=
  (p.withMargin margin).commentFor o (p.type.map Name.shortType)

/-- The comment on a method in the margin of the members of a class. -/
def Method.docComment (m : Method) (margin : String) (o : Options) : Comment :=
  (m.withMargin margin).short.signatureComment o

/-- The comments of a class: its own, and those of its members, as far as they have lines. -/
theorem Draft.mem_comments_fairCopy {d : Draft} {o : Options} {c : Comment} :
    c ∈ (d.fairCopy o).comments ↔
      (c = d.classComment o ∨
        (∃ p ∈ d.properties.members, c = p.docComment (d.memberMargin o) o) ∨
        ∃ m ∈ d.methods.members, c = m.docComment (d.memberMargin o) o) ∧ c.lines ≠ [] := by
  have hclass : (d.fairCopy o).draft.comment o = (d.classComment o).nonempty? := by
    rw [fairCopy, settled_eq]
    rfl
  have hproperties : ∀ c, c ∈ (d.settled o).properties.members.flatMap (·.comment.toList) ↔
      ∃ p ∈ d.properties.members, c ∈ (p.docComment (d.memberMargin o) o).nonempty?.toList := by
    intro c
    rw [settled_eq]
    show c ∈ (d.properties.members.map _).flatMap _ ↔ _
    rw [List.flatMap_map, List.mem_flatMap]
    rfl
  have hmethods : ∀ c, c ∈ (d.settled o).methods.members.flatMap (·.comment.toList) ↔
      ∃ m ∈ d.methods.members, c ∈ (m.docComment (d.memberMargin o) o).nonempty?.toList := by
    intro c
    rw [settled_eq]
    show c ∈ (d.methods.members.map _).flatMap _ ↔ _
    rw [List.flatMap_map, List.mem_flatMap]
    rfl
  show c ∈ ((d.fairCopy o).draft.comment o).toList ++ (d.settled o).properties.members.flatMap _
    ++ (d.settled o).methods.members.flatMap _ ↔ _
  rw [List.mem_append, List.mem_append, hclass, hproperties, hmethods]
  simp only [Comment.mem_nonempty?]
  constructor
  · rintro ((⟨hc, hne⟩ | ⟨p, hp, hc, hne⟩) | ⟨m, hm, hc, hne⟩)
    · exact ⟨.inl hc, hne⟩
    · exact ⟨.inr (.inl ⟨p, hp, hc⟩), hne⟩
    · exact ⟨.inr (.inr ⟨m, hm, hc⟩), hne⟩
  · rintro ⟨hc | ⟨p, hp, hc⟩ | ⟨m, hm, hc⟩, hne⟩
    · exact .inl (.inl ⟨hc, hne⟩)
    · exact .inl (.inr ⟨p, hp, hc, hne⟩)
    · exact .inr ⟨m, hm, hc, hne⟩

/-- The lines of all comments are those of the description and of the comments on the members;
a comment that is not printed has none. -/
theorem Draft.forall_comments_fairCopy {P : String → Prop} {d : Draft} {o : Options} :
    (∀ c ∈ (d.fairCopy o).comments, ∀ line ∈ c.lines, P line) ↔
      (∀ line ∈ d.description, P line) ∧
      (∀ p ∈ d.properties.members, ∀ line ∈ (p.docComment (d.memberMargin o) o).lines, P line) ∧
      ∀ m ∈ d.methods.members, ∀ line ∈ (m.docComment (d.memberMargin o) o).lines, P line := by
  constructor
  · intro h
    refine ⟨?_, ?_, ?_⟩
    · intro line hline
      have hc : d.classComment o ∈ (d.fairCopy o).comments :=
        mem_comments_fairCopy.mpr ⟨.inl rfl, List.ne_nil_of_mem hline⟩
      exact h _ hc line hline
    · intro p hp line hline
      exact h _ (mem_comments_fairCopy.mpr
        ⟨.inr (.inl ⟨p, hp, rfl⟩), List.ne_nil_of_mem hline⟩) line hline
    · intro m hm line hline
      exact h _ (mem_comments_fairCopy.mpr
        ⟨.inr (.inr ⟨m, hm, rfl⟩), List.ne_nil_of_mem hline⟩) line hline
  · rintro ⟨hclass, hproperties, hmethods⟩ c hc
    obtain ⟨rfl | ⟨p, hp, rfl⟩ | ⟨m, hm, rfl⟩, _⟩ := mem_comments_fairCopy.mp hc
    · exact hclass
    · exact hproperties p hp
    · exact hmethods m hm

end ClassDraft
