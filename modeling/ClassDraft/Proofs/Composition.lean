import ClassDraft.Proofs.Layout
import ClassDraft.Proofs.WellFormed

/-!
# The text of a class from the texts of its members

A class is settled and printed in one pass: one list of used paths goes through all its
members, and one writer prints them. Nevertheless **each member contributes the text that
it has when it is settled and printed on its own**, from whatever list of used paths and by
a writer of its own (`render_composed`). No member has a part in the text of another.

The lines around the members are printed as they are: they hold no line ends, since the
names in a header are identifiers once the class is settled.
-/

namespace ClassDraft

open Code (rowsAll)

/-! ## Lines in a margin -/

namespace Code

/-- A line without line ends is printed behind its margin. -/
theorem print_within_line {text : String} (hne : text ≠ "") (hfree : '\n' ∉ text.toList)
    (margin : String) (indent : Indent) :
    ((rowsAll [.line text]).map (.within margin)).map (Row.print indent) = [margin ++ text] := by
  rw [rowsAll_singleton, rows, textRows, Text.pieces_eq_singleton hfree]
  simp [flushRows, Row.within, Row.print, Indent.levels, hne]

theorem text_wrap_line {text : String} (hne : text ≠ "") (hfree : '\n' ∉ text.toList)
    (m : Margin) (indent : Indent) :
    Code.text indent (m.wrap [.line text]) = m.textD ++ text ++ "\n" := by
  rw [text_eq, lines, rowsAll_wrap, print_within_line hne hfree]
  simp [String.join_cons, String.join_nil]

theorem render_margin_line {text : String} (hne : text ≠ "") (hfree : '\n' ∉ text.toList)
    (margin : String) (indent : Indent) :
    render indent [.margin margin [.line text]] = margin ++ text := by
  rw [render_eq, lines, rowsAll_singleton, rows, print_within_line hne hfree,
    String.intercalate_singleton]

end Code

theorem Comment.rowsAll_flushCode_ne_nil {c : Comment} (h : c.isEmpty = false) :
    rowsAll c.flushCode ≠ [] := by
  unfold flushCode
  rw [h]
  cases c.style with
  | multi => simp [Code.rowsAll_singleton, Code.rows, Code.flushRows]
  | single =>
    cases hl : c.lines with
    | nil =>
      rw [isEmpty, hl] at h
      cases h
    | cons line rest =>
      simp [Code.rowsAll_singleton, Code.rows, Code.flushRows, Code.Writer.markedLines,
        Text.pieces_ne_nil]

/-- A comment with something in it takes up a line at least. -/
theorem Comment.lines_toCode_ne_nil {c : Comment} (h : c.isEmpty = false) (indent : Indent) :
    Code.lines indent c.toCode ≠ [] := by
  simp [Code.lines, toCode_eq_wrap, Code.rowsAll_wrap, rowsAll_flushCode_ne_nil h]

/-- The lines of a comment, for which there is nothing to indent. -/
theorem Comment.lines_toCode (c : Comment) (indent : Indent) :
    Code.lines indent c.toCode = (rowsAll c.flushCode).map fun r =>
      if r.text = "" then "" else c.margin.textD ++ r.text := by
  rw [Code.lines, toCode_eq_wrap, Code.rowsAll_wrap, List.map_map]
  apply List.map_congr_left
  intro r hr
  have hflush := flush_flushCode hr
  have hdepth : r.depth = 0 := Nat.le_zero.mp hflush.depth
  simp [Code.Row.print, Code.Row.within, Indent.levels, hflush.margin, hdepth]

/-- A comment prints alike with every unit of indentation. -/
theorem Comment.render_toCode (c : Comment) (indent : Indent) :
    Code.render indent c.toCode = c.render := by
  rw [Comment.render, Code.render_eq, Code.render_eq, lines_toCode, lines_toCode]

/-! ## Members on their own -/

/-- The text of a property that is settled and printed on its own, in a margin and from
some list of used paths. -/
def Property.textAlone (p : Property) (margin : String) (o : Options) (uses : UseList) : String :=
  Code.render o.indent (((p.withMargin margin).settle o).run uses).1.toCode

/-- A property printed alone does not depend on what was used before. -/
theorem Property.textAlone_eq (p : Property) (margin : String) (o : Options) (uses : UseList) :
    p.textAlone margin o uses
      = Code.render o.indent ((p.withMargin margin).settledForm o).toCode := by
  rw [textAlone, settle_refers _ o uses]

theorem Property.rowsAll_outline_ne_nil (p : Property) (o : Options) :
    rowsAll (p.outline o) ≠ [] := by
  simp [outline, Code.rowsAll_append, Code.rowsAll_singleton, Code.rows, Code.textRows_ne_nil]

/-- The text of a method that is settled and printed on its own, in a margin and from some
list of used paths. -/
def Method.textAlone (m : Method) (margin : String) (o : Options) (uses : UseList) : String :=
  Code.render o.indent (((m.withMargin margin).settle o).run uses).1.toCode

/-- A method printed alone does not depend on what was used before. -/
theorem Method.textAlone_eq (m : Method) (margin : String) (o : Options) (uses : UseList) :
    m.textAlone margin o uses
      = Code.render o.indent ((m.withMargin margin).settledForm o).toCode := by
  rw [textAlone, settle_refers _ o uses]

theorem Method.rowsAll_outline_ne_nil (m : Method) (o : Options) :
    rowsAll (m.outline o) ≠ [] := by
  have hdeclaration : rowsAll m.short.declaration ≠ [] := by
    unfold declaration
    split
    next => simp [Code.rowsAll_singleton, Code.rows, Code.textRows_ne_nil]
    next => simp [Code.rowsAll, Code.rows, Code.textRows_ne_nil]
  simp [outline, Code.rowsAll_append, hdeclaration]

namespace Draft

/-! ## The lines around the members -/

theorem newline_not_mem_clause {keyword : String} {names : List String}
    (hkeyword : '\n' ∉ keyword.toList) (hnames : ∀ name ∈ names, '\n' ∉ name.toList) :
    '\n' ∉ (clause keyword names).toList := by
  have hjoined : '\n' ∉ (", ".intercalate names).toList :=
    Text.not_mem_intercalate (by decide) hnames
  unfold clause
  split
  next => decide
  next =>
    simp only [String.toList_append, List.mem_append, not_or]
    exact ⟨⟨⟨by decide, hkeyword⟩, by decide⟩, hjoined⟩

/-- The opening line of a class is one line, since all that it names are class paths. -/
theorem Regular.newline_not_mem_declaration {d : Draft} (h : d.Regular) :
    '\n' ∉ d.declaration.toList := by
  have hname : '\n' ∉ d.name.toList := Name.newline_not_mem_identifier h.name
  have hbase : '\n' ∉ (clause "extends" d.base.toList).toList :=
    newline_not_mem_clause (by decide) fun path hpath =>
      Name.newline_not_mem_classPath (h.base path hpath)
  have hinterfaces : ∀ {keyword : String}, '\n' ∉ keyword.toList →
      '\n' ∉ (clause keyword d.interfaces.toList).toList := fun hkeyword =>
    newline_not_mem_clause hkeyword fun path hpath =>
      Name.newline_not_mem_classPath (h.interfaces path hpath)
  unfold declaration
  cases d.kind with
  | interfaceKind => simp [hname, hinterfaces]
  | classKind =>
    cases d.modifier with
    | none => simp [hname, hbase, hinterfaces]
    | some modifier => cases modifier <;> simp [Modifier.keyword, hname, hbase, hinterfaces]

/-- So is the line that takes traits in. -/
theorem Regular.newline_not_mem_traitLine {d : Draft} (h : d.Regular) :
    '\n' ∉ d.traitLine.toList := by
  have hjoined : '\n' ∉ (", ".intercalate d.traits.toList).toList :=
    Text.not_mem_intercalate (by decide) fun path hpath =>
      Name.newline_not_mem_classPath (h.traits path hpath)
  simp only [traitLine, String.toList_append, List.mem_append, not_or]
  exact ⟨⟨by decide, hjoined⟩, by decide⟩

/-- No section is empty. So the blank lines of a class are exactly those between its
sections. -/
theorem lines_section_ne_nil {d : Draft} {o : Options} {code : List Code}
    (h : code ∈ (d.fairCopy o).sections) : Code.lines o.indent code ≠ [] := by
  have hrows : rowsAll code ≠ [] := by
    rw [sections_fairCopy] at h
    simp only [List.mem_append] at h
    rcases h with (htraits | hproperty) | hmethod
    · split at htraits
      next => cases htraits
      next =>
        rw [List.mem_singleton.mp htraits]
        simp [Code.rowsAll_singleton, Code.rows, Code.textRows_ne_nil]
    · obtain ⟨p, _, rfl⟩ := List.mem_map.mp hproperty
      simp [Property.rowsAll_settledForm, Property.rowsAll_outline_ne_nil]
    · obtain ⟨m, _, rfl⟩ := List.mem_map.mp hmethod
      simp [Method.rowsAll_settledForm, Method.rowsAll_outline_ne_nil]
  exact fun hnil => hrows (List.map_eq_nil_iff.mp hnil)

/-! ## All sections -/

/-- The texts of the sections of a settled class: the line of the traits, then the members,
each settled and printed on its own. -/
def sectionTexts (d : Draft) (o : Options) (propertyUses : Property → UseList)
    (methodUses : Method → UseList) : List String :=
  (if (d.settled o).traits.toList.isEmpty then []
    else [d.memberMargin o ++ (d.settled o).traitLine])
  ++ d.properties.members.map (fun p => p.textAlone (d.memberMargin o) o (propertyUses p))
  ++ d.methods.members.map (fun m => m.textAlone (d.memberMargin o) o (methodUses m))

/-- **Sections are printed as they would be alone**, each from a list of used paths of its
own, in the margin of the members. -/
theorem render_sections {d : Draft} (h : d.Regular) (o : Options)
    (propertyUses : Property → UseList) (methodUses : Method → UseList) :
    (d.fairCopy o).sections.map (Code.render o.indent)
      = d.sectionTexts o propertyUses methodUses := by
  have htraits : (d.settled o).traits = d.shortHeader.traits := by rw [settled_eq]; rfl
  have hline : (d.settled o).traitLine = d.shortHeader.traitLine := by rw [settled_eq]; rfl
  have hfree := (regular_settled h o).newline_not_mem_traitLine
  rw [sections_fairCopy, sectionTexts]
  simp only [List.map_append, List.map_map, Property.textAlone_eq, Method.textAlone_eq, htraits,
    hline, Function.comp_def]
  congr 2
  split
  next => rfl
  next =>
    rw [List.map_singleton, Code.render_margin_line]
    · simp [traitLine]
    · exact hline ▸ hfree

/-- A class that is not described has no comment, not even a line end in its place. -/
theorem text_classComment (d : Draft) (o : Options) :
    Code.text o.indent (d.classComment o).toCode
      = String.join ((if d.description.isEmpty then [] else [(d.classComment o).render]).map
          (· ++ "\n")) := by
  by_cases h : d.description.isEmpty = true
  · have hempty : (d.classComment o).toCode = [] := if_pos h
    rw [hempty, if_pos h]
    rfl
  · have hdescribed : (d.classComment o).isEmpty = false := Bool.eq_false_iff.mpr h
    have hne := Comment.lines_toCode_ne_nil hdescribed o.indent
    rw [if_neg h, ← Code.render_append_newline hne, Comment.render_toCode]
    simp [String.join_cons, String.join_nil]

/-- **The text of a class is composed of the texts of its members.** It is the comment on
the class if it is described, the opening line, the sections with one empty line between
two of them, and the closing line. Each member has the text it has when it is settled and
printed on its own, from whatever list of used paths. -/
theorem render_composed {d : Draft} (h : d.Reachable) (o : Options)
    (propertyUses : Property → UseList) (methodUses : Method → UseList) :
    (d.fairCopy o).render = "\n".intercalate
      ((if d.description.isEmpty then [] else [(d.classComment o).render])
      ++ [d.margin.textD ++ (d.settled o).declaration]
      ++ (d.sectionTexts o propertyUses methodUses).intersperse ""
      ++ [d.margin.textD ++ "\x7d"]) := by
  have hregular := h.regular
  have hdeclaration : d.shortHeader.declaration = (d.settled o).declaration := by
    rw [settled_eq]
    rfl
  have hfree := (regular_settled hregular o).newline_not_mem_declaration
  have hne : (d.settled o).declaration ≠ "" := by
    simp [declaration]
  have hsections : Code.text o.indent ([Code.blank].intercalate (d.fairCopy o).sections) = _ :=
    Code.text_intercalate_blank fun _ hcode => lines_section_ne_nil hcode
  rw [render_sections hregular o propertyUses methodUses] at hsections
  refine Code.render_eq_of_text_eq (by simp) ?_
  show Code.text o.indent (d.fairCopy o).toCode = _
  rw [toCode_fairCopy, hdeclaration, Code.text_append, Code.text_append, Code.text_append,
    text_classComment, Code.text_wrap_line hne hfree, hsections,
    Code.text_wrap_line (by decide) (by decide)]
  simp only [List.map_append, List.map_cons, List.map_nil, String.join_append, String.join_cons,
    String.join_nil, String.append_empty]

/-- The property is settled from a list that knows another path of the same short name. -/
theorem render_composed_user :
    let d := [Edit.setMargin "> ", .addTrait "App\\Logs",
      .addProperty { name := "id", type := some "App\\Id" },
      .addMethod { name := "run", isBare := true }].foldl attempt { name := "User" }
    let o : Options := { indent := .compact, annotate := false }
    d.Reachable ∧ (d.fairCopy o).render
      = "\n".intercalate ["> class User \x7b", ">   use Logs;", "", ">   public Id $id;", "",
          ">   public function run();", "> \x7d"] := by
  intro d o
  have hnew : Draft.new .classKind "User" = .ok { name := "User" } := rfl
  have hd : d.Reachable := (Reachable.new hnew).attempts _
  refine ⟨hd, ?_⟩
  rw [render_composed hd o (fun _ => .ofPaths ["Other\\Id"]) fun _ => .empty]
  decide +kernel

end Draft

end ClassDraft
