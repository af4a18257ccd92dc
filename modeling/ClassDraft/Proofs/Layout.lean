import ClassDraft.Proofs.Rows
import ClassDraft.Proofs.Settling

/-!
# The layout of a class

A margin reaches the lines of a class in many ways. The comment on the class carries it,
the opening and the closing line are set in it, and every member has a margin of its own
that was made from it and one unit of indentation when the class was settled, which is
then handed on to the comment of the member.

All of that comes to one margin around one block. The *outline* of a draft is the class
without any margin: its comment and one block with the members in its body. Line by line,
a fair copy is its outline inside the margin of the draft (`lines_fairCopy`). The outline
knows neither margin nor unit, no row of it stands deeper than in two bodies, and none has
a line end in its text. So **one list of depths and texts gives the text of the class for
every margin and every unit of indentation**.
-/

namespace ClassDraft

open Code (Row rowsAll)

namespace Code

/-- A row without margin that stands in at most `bound` bodies. -/
structure Row.Flush (bound : Nat) (r : Row) : Prop where
  margin : r.margin = ""
  depth : r.depth ≤ bound

theorem Row.Flush.mono {m n : Nat} {r : Row} (h : r.Flush m) (hle : m ≤ n) : r.Flush n :=
  ⟨h.margin, Nat.le_trans h.depth hle⟩

theorem Row.Flush.deeper {n : Nat} {r : Row} (h : r.Flush n) : r.deeper.Flush (n + 1) :=
  ⟨h.margin, Nat.succ_le_succ h.depth⟩

/-- Rows made of bare texts stand at no depth and have no margin. -/
theorem flush_flushRows {texts : List String} {r : Row} (h : r ∈ flushRows texts) :
    r.Flush 0 := by
  obtain ⟨text, _, rfl⟩ := mem_flushRows.mp h
  exact ⟨rfl, Nat.le_refl 0⟩

/-- A margin that ends in one unit of indentation is a body of a block. -/
theorem Row.print_within_unit {r : Row} (h : r.margin = "") (margin : String) (indent : Indent) :
    (r.within (margin ++ indent.unit)).print indent = (r.deeper.within margin).print indent := by
  simp [Row.print, Row.within, Row.deeper, Indent.levels, h, String.append_assoc]

end Code

/-- Neither spaces nor tabs are line ends. -/
theorem Indent.newline_not_mem_unit (indent : Indent) : '\n' ∉ indent.unit.toList := by
  cases indent with
  | spaces width => simp [Indent.unit]
  | tab => decide

theorem Indent.newline_not_mem_levels (indent : Indent) :
    ∀ depth : Nat, '\n' ∉ (indent.levels depth).toList
  | 0 => by simp [Indent.levels]
  | depth + 1 => by
    simp [Indent.levels, indent.newline_not_mem_unit, indent.newline_not_mem_levels depth]

/-! ## Members without their margins -/

namespace Comment

/-- The comment without its margin. -/
def flushCode (c : Comment) : List Code :=
  if c.isEmpty then []
  else match c.style with
    | .multi => [.docBlock c.lines]
    | .single => [.remarks c.lines]

/-- A comment is its marked lines inside its margin, and an empty comment has neither. -/
theorem toCode_eq_wrap (c : Comment) : c.toCode = c.margin.wrap c.flushCode := by
  unfold toCode flushCode
  split
  next => simp [Margin.wrap]
  next => cases c.style <;> rfl

/-- To keep a comment only if there is something in it changes nothing about the code. -/
theorem toCode_nonempty? (c : Comment) :
    (match c.nonempty? with
      | some comment => comment.toCode
      | none => []) = c.toCode := by
  unfold nonempty?
  cases h : c.isEmpty with
  | true => simp [toCode, h]
  | false => simp

/-- A comment and code that have one margin stand in it together. -/
theorem rowsAll_toCode_append_wrap (c : Comment) (code : List Code) :
    rowsAll (c.toCode ++ c.margin.wrap code)
      = (rowsAll (c.flushCode ++ code)).map (.within c.margin.textD) := by
  rw [toCode_eq_wrap, Code.rowsAll_append, Code.rowsAll_append, List.map_append,
    Code.rowsAll_wrap, Code.rowsAll_wrap]

theorem flush_flushCode {c : Comment} {r : Row} (h : r ∈ rowsAll c.flushCode) : r.Flush 0 := by
  unfold flushCode at h
  split at h
  next => cases h
  next =>
    cases hs : c.style with
    | multi =>
      rw [hs, Code.rowsAll_singleton, Code.rows] at h
      exact Code.flush_flushRows h
    | single =>
      rw [hs, Code.rowsAll_singleton, Code.rows] at h
      exact Code.flush_flushRows h

end Comment

namespace Property

/-- A settled property without margin. -/
def outline (p : Property) (o : Options) : List Code :=
  (p.commentFor o (p.type.map Name.shortType)).flushCode ++ [.line (p.settledForm o).declaration]

/-- A settled property as code: its comment, drawn up from the short type, and its
declaration, both inside its margin. -/
theorem toCode_settledForm (p : Property) (o : Options) :
    (p.settledForm o).toCode = (p.commentFor o (p.type.map Name.shortType)).toCode
      ++ p.margin.wrap [.line (p.settledForm o).declaration] :=
  congrArg (· ++ p.margin.wrap [.line (p.settledForm o).declaration])
    (Comment.toCode_nonempty? _)

/-- The margin is all that stands between a property in a draft and the same property by
itself. -/
theorem rowsAll_settledForm (p : Property) (o : Options) (margin : String) :
    rowsAll ((p.withMargin margin).settledForm o).toCode
      = (rowsAll (p.outline o)).map (.within margin) := by
  rw [toCode_settledForm]
  exact Comment.rowsAll_toCode_append_wrap _ _

/-- A property by itself has neither depth nor margin. -/
theorem flush_outline {p : Property} {o : Options} {r : Row} (h : r ∈ rowsAll (p.outline o)) :
    r.Flush 0 := by
  rw [outline, Code.rowsAll_append, List.mem_append, Code.rowsAll_singleton, Code.rows] at h
  rcases h with hcomment | hdeclaration
  · exact Comment.flush_flushCode hcomment
  · exact Code.flush_flushRows hdeclaration

end Property

namespace Method

/-- The method as it is printed with no margin: its comment and its declaration. -/
def outline (m : Method) (o : Options) : List Code :=
  (m.short.signatureComment o).flushCode ++ m.short.declaration

/-- A settled method as code: its comment, drawn up from the short signature, and its
declaration, both inside its margin. -/
theorem toCode_settledForm (m : Method) (o : Options) :
    (m.settledForm o).toCode = (m.short.signatureComment o).toCode
      ++ m.margin.wrap m.short.declaration :=
  congrArg (· ++ m.margin.wrap m.short.declaration) (Comment.toCode_nonempty? _)

/-- The margin is all that stands between a method in a draft and the same method by itself. -/
theorem rowsAll_settledForm (m : Method) (o : Options) (margin : String) :
    rowsAll ((m.withMargin margin).settledForm o).toCode
      = (rowsAll (m.outline o)).map (.within margin) := by
  rw [toCode_settledForm]
  exact Comment.rowsAll_toCode_append_wrap _ _

/-- Within a method only the lines of its body stand one level in. -/
theorem flush_declaration {m : Method} {r : Row} (h : r ∈ rowsAll m.declaration) : r.Flush 1 := by
  have hline : ∀ {text : String}, r ∈ Code.textRows text → r.Flush 1 := fun hr =>
    (Code.flush_flushRows hr).mono (Nat.zero_le 1)
  unfold declaration at h
  split at h
  next =>
    rw [Code.rowsAll_singleton, Code.rows] at h
    exact hline h
  next =>
    rw [Code.rowsAll, Code.rowsAll_singleton, Code.rows, Code.rows] at h
    simp only [List.mem_append, Option.toList_some, List.flatMap_singleton] at h
    rcases h with hsignature | (hopening | hbody) | hclosing
    · exact hline hsignature
    · exact hline hopening
    · -- a line of the body stands in one block
      obtain ⟨inner, hinner, rfl⟩ := List.mem_map.mp hbody
      obtain ⟨piece, hpiece, hrow⟩ := Code.mem_rowsAll.mp hinner
      obtain ⟨line, _, rfl⟩ := List.mem_map.mp hpiece
      rw [Code.rows] at hrow
      exact (Code.flush_flushRows hrow).deeper
    · exact hline hclosing

/-- With its comment, which stands as far out as its signature, a method is one level deep. -/
theorem flush_outline {m : Method} {o : Options} {r : Row} (h : r ∈ rowsAll (m.outline o)) :
    r.Flush 1 := by
  rw [outline, Code.rowsAll_append, List.mem_append] at h
  rcases h with hcomment | hdeclaration
  · exact (Comment.flush_flushCode hcomment).mono (Nat.zero_le 1)
  · exact flush_declaration hdeclaration

end Method

/-! ## The class as one block -/

namespace Draft

/-- The draft with the names in its header in short. -/
def shortHeader (d : Draft) : Draft :=
  { d with
    base := d.base.map Name.short
    interfaces := .ofList (d.interfaces.toList.map Name.short)
    traits := .ofList (d.traits.toList.map Name.short) }

/-- The line that lists the traits. -/
def traitLine (d : Draft) : String := "use " ++ ", ".intercalate d.traits.toList ++ ";"

/-- The sections of the settled class without their margins, in the order in which they are
printed. -/
def outlineSections (d : Draft) (o : Options) : List (List Code) :=
  (if d.shortHeader.traits.toList.isEmpty then []
    else [[.line d.shortHeader.traitLine]])
  ++ d.properties.members.map (·.outline o) ++ d.methods.members.map (·.outline o)

/-- The settled class without margin: its comment and one block. -/
def outline (d : Draft) (o : Options) : List Code :=
  Comment.flushCode { lines := d.description, style := o.commentStyle }
  ++ [.block d.shortHeader.declaration ([Code.blank].intercalate (d.outlineSections o))
    (some "\x7d")]

/-- Sections are one level deep at most, be it traits, a property or a method. -/
theorem flush_outlineSection {d : Draft} {o : Options} {code : List Code} {r : Row}
    (hcode : code ∈ d.outlineSections o) (hr : r ∈ rowsAll code) : r.Flush 1 := by
  simp only [outlineSections, List.mem_append] at hcode
  rcases hcode with (htraits | hproperty) | hmethod
  · split at htraits
    next => cases htraits
    next =>
      rw [List.mem_singleton.mp htraits, Code.rowsAll_singleton, Code.rows] at hr
      exact (Code.flush_flushRows hr).mono (Nat.zero_le 1)
  · obtain ⟨p, _, rfl⟩ := List.mem_map.mp hproperty
    exact (Property.flush_outline hr).mono (Nat.zero_le 1)
  · obtain ⟨m, _, rfl⟩ := List.mem_map.mp hmethod
    exact Method.flush_outline hr

/-- The sections of a fair copy: each member settled, in the margin of the members. -/
theorem sections_fairCopy (d : Draft) (o : Options) :
    (d.fairCopy o).sections =
      (if d.shortHeader.traits.toList.isEmpty then []
        else [[.margin (d.memberMargin o) [.line d.shortHeader.traitLine]]])
      ++ d.properties.members.map (fun p =>
        ((p.withMargin (d.memberMargin o)).settledForm o).toCode)
      ++ d.methods.members.map (fun m =>
        ((m.withMargin (d.memberMargin o)).settledForm o).toCode) := by
  unfold FairCopy.sections FairCopy.traitSections fairCopy
  rw [settled_eq]
  show _ ++ (d.properties.members.map _).map Property.toCode
    ++ (d.methods.members.map _).map Method.toCode = _
  rw [List.map_map, List.map_map]
  rfl

/-- A section in the margin of the members stands in the body of a block that has the
margin of the draft. -/
theorem lines_section {d : Draft} {o : Options} {code : List Code} {r : Row}
    (hcode : code ∈ d.outlineSections o) (hr : r ∈ rowsAll code) :
    (r.within (d.memberMargin o)).print o.indent
      = (r.deeper.within d.margin.textD).print o.indent :=
  Row.print_within_unit (flush_outlineSection hcode hr).margin _ _

/-- All sections are set alike: one level in, inside the margin of the draft. -/
theorem lines_sections (d : Draft) (o : Options) :
    (d.fairCopy o).sections.map (Code.lines o.indent)
      = (d.outlineSections o).map fun code =>
          (rowsAll code).map fun r => (r.deeper.within d.margin.textD).print o.indent := by
  have hwithin : (d.fairCopy o).sections.map (Code.lines o.indent)
      = (d.outlineSections o).map fun code =>
          (rowsAll code).map fun r => (r.within (d.memberMargin o)).print o.indent := by
    rw [sections_fairCopy, outlineSections]
    simp only [List.map_append, List.map_map]
    congr 1
    · congr 1
      · split
        next => rfl
        next => simp [Code.lines, Code.rowsAll_singleton, Code.rows, Function.comp_def]
      · apply List.map_congr_left
        intro p _
        simp [Code.lines, Property.rowsAll_settledForm, Function.comp_def]
    · apply List.map_congr_left
      intro m _
      simp [Code.lines, Method.rowsAll_settledForm, Function.comp_def]
  rw [hwithin]
  apply List.map_congr_left
  intro code hcode
  exact List.map_congr_left fun r hr => lines_section hcode hr

/-- The comment on the class, empty or not. -/
def classComment (d : Draft) (o : Options) : Comment :=
  { lines := d.description, style := o.commentStyle, margin := d.margin }

/-- A fair copy as code, with its parts by their own names. Nothing of the settled draft is
left but the short header and the sections. -/
theorem toCode_fairCopy (d : Draft) (o : Options) :
    (d.fairCopy o).toCode = (d.classComment o).toCode
      ++ d.margin.wrap [.line d.shortHeader.declaration]
      ++ [Code.blank].intercalate (d.fairCopy o).sections
      ++ d.margin.wrap [.line "\x7d"] := by
  have hdraft : (d.fairCopy o).draft = _ := d.settled_eq o
  unfold FairCopy.toCode
  rw [hdraft, ← Comment.toCode_nonempty? (d.classComment o)]
  rfl

/-- **A fair copy is its outline inside the margin of the draft**, line by line. -/
theorem lines_fairCopy (d : Draft) (o : Options) :
    Code.lines o.indent (d.fairCopy o).toCode
      = (rowsAll (d.outline o)).map fun r => (r.within d.margin.textD).print o.indent := by
  have hhead : rowsAll ((d.classComment o).toCode
      ++ d.margin.wrap [.line d.shortHeader.declaration])
      = (rowsAll ((d.classComment o).flushCode ++ [.line d.shortHeader.declaration])).map
          (.within d.margin.textD) := Comment.rowsAll_toCode_append_wrap _ _
  have hsections : Code.lines o.indent ([Code.blank].intercalate (d.fairCopy o).sections)
      = (rowsAll ([Code.blank].intercalate (d.outlineSections o))).map fun r =>
          (r.deeper.within d.margin.textD).print o.indent := by
    rw [Code.lines, Code.map_rowsAll_intercalate_blank, Code.map_rowsAll_intercalate_blank]
    exact congrArg ([""].intercalate ·) (d.lines_sections o)
  rw [toCode_fairCopy, Code.lines_append, Code.lines_append, hsections, Code.lines, Code.lines,
    hhead, Code.rowsAll_wrap]
  simp only [outline, Code.rowsAll_append, Code.rowsAll_singleton, Code.rows, List.map_append,
    List.map_map, Function.comp_def, Option.toList_some, List.flatMap_singleton, List.append_assoc]
  rfl

/-- A class is two levels deep: its members one level in, and their bodies one more. -/
theorem flush_outline {d : Draft} {o : Options} {r : Row} (h : r ∈ rowsAll (d.outline o)) :
    r.Flush 2 := by
  have hline : ∀ {text : String}, r ∈ Code.textRows text → r.Flush 2 := fun hr =>
    (Code.flush_flushRows hr).mono (Nat.zero_le 2)
  simp only [outline, Code.rowsAll_append, Code.rowsAll_singleton, Code.rows, List.mem_append,
    Option.toList_some, List.flatMap_singleton] at h
  rcases h with hcomment | (hopening | hbody) | hclosing
  · exact (Comment.flush_flushCode hcomment).mono (Nat.zero_le 2)
  · exact hline hopening
  · obtain ⟨inner, hinner, rfl⟩ := List.mem_map.mp hbody
    refine Row.Flush.deeper ?_
    rw [Code.rowsAll_intercalate_blank] at hinner
    rcases Text.mem_of_mem_listIntercalate hinner with hblank | ⟨part, hpart, hrow⟩
    · rw [List.mem_singleton.mp hblank]
      exact ⟨rfl, Nat.zero_le 1⟩
    · obtain ⟨code, hcode, rfl⟩ := List.mem_map.mp hpart
      exact flush_outlineSection hcode hrow
  · exact hline hclosing

/-! ## Depths and texts -/

/-- The lines of the class by their depths and texts. Neither the unit of indentation nor
the margin of the draft has a part in them. -/
def layout (d : Draft) (style : CommentStyle) (annotate : Bool) : List (Nat × String) :=
  (rowsAll (d.outline { commentStyle := style, annotate := annotate })).map fun r =>
    (r.depth, r.text)

/-- A line of a layout as it is printed: the margin, as many units of indentation as the
depth says, and the text; or nothing where there is no text. -/
def setLine (margin : String) (indent : Indent) (line : Nat × String) : String :=
  if line.2 = "" then "" else margin ++ indent.levels line.1 ++ line.2

/-- The margin of the draft stands in front of every line that is not empty, and the rest of
the line does not depend on it. -/
theorem setLine_eq_margin_append (margin : String) (indent : Indent) (line : Nat × String) :
    setLine margin indent line
      = if setLine "" indent line = "" then "" else margin ++ setLine "" indent line := by
  by_cases h : line.2 = ""
  · simp [setLine, h]
  · simp [setLine, h, String.append_assoc]

theorem newline_not_mem_setLine {line : Nat × String} (h : '\n' ∉ line.2.toList)
    (indent : Indent) : '\n' ∉ (setLine "" indent line).toList := by
  unfold setLine
  split
  next => decide
  next =>
    have hlevels := indent.newline_not_mem_levels line.1
    simp [h, hlevels]

theorem newline_not_mem_layout {d : Draft} {style : CommentStyle} {annotate : Bool}
    {line : Nat × String} (h : line ∈ d.layout style annotate) : '\n' ∉ line.2.toList := by
  obtain ⟨r, hr, rfl⟩ := List.mem_map.mp h
  exact Code.newline_not_mem_rowsAll _ r hr

/-- A class has an opening line at least, so that there always is a text. -/
theorem layout_ne_nil (d : Draft) (style : CommentStyle) (annotate : Bool) :
    d.layout style annotate ≠ [] := by
  simp [layout, outline, Code.rowsAll_append, Code.rowsAll_singleton, Code.rows, Code.textRows,
    Code.flushRows, Text.pieces_ne_nil]

/-- **The text is the layout, set.** The layout depends on the draft and on what comments
are like; the margin and the indentation come in line by line. -/
theorem render_fairCopy (d : Draft) (o : Options) :
    (d.fairCopy o).render
      = "\n".intercalate ((d.layout o.commentStyle o.annotate).map
          (setLine d.margin.textD o.indent)) := by
  have hlines : Code.lines o.indent (d.fairCopy o).toCode
      = (d.layout o.commentStyle o.annotate).map (setLine d.margin.textD o.indent) := by
    -- the outline does not know the unit, and its rows have no margin of their own
    have houtline : d.outline o
        = d.outline { commentStyle := o.commentStyle, annotate := o.annotate } := rfl
    rw [lines_fairCopy, layout, ← houtline, List.map_map]
    apply List.map_congr_left
    intro r hr
    have hmargin : r.margin = "" := (flush_outline hr).margin
    simp [Row.print, Row.within, setLine, hmargin]
  rw [← hlines]
  exact Code.render_eq _ _

/-- Cutting the text without margin at its line ends gives back the lines it was joined
from. -/
theorem pieces_render_unset (d : Draft) (o : Options) :
    Text.pieces '\n' ({ d with margin := .unset }.fairCopy o).render
      = (d.layout o.commentStyle o.annotate).map (setLine "" o.indent) := by
  have hne : (d.layout o.commentStyle o.annotate).map (setLine "" o.indent) ≠ [] := fun h =>
    d.layout_ne_nil o.commentStyle o.annotate (List.map_eq_nil_iff.mp h)
  have hfree : ∀ line ∈ (d.layout o.commentStyle o.annotate).map (setLine "" o.indent),
      '\n' ∉ line.toList := by
    intro line hline
    obtain ⟨pair, hpair, rfl⟩ := List.mem_map.mp hline
    exact newline_not_mem_setLine (newline_not_mem_layout hpair) o.indent
  rw [render_fairCopy]
  exact Text.pieces_intercalate rfl hne hfree

/-- **The layout of a class factors.** One list of depths and texts, none deeper than two
and none with a line end, gives the text of the class in every margin and for every unit
of indentation. So a margin is put in front of exactly the lines that are not empty. -/
theorem layout_factors (d : Draft) (style : CommentStyle) (annotate : Bool) :
    ∃ layout : List (Nat × String),
      (∀ line ∈ layout, line.1 ≤ 2 ∧ '\n' ∉ line.2.toList) ∧
      (∀ (m : Margin) (indent : Indent) (openTag : Bool),
        ({ d with margin := m }.fairCopy ⟨indent, style, annotate, openTag⟩).render
          = "\n".intercalate (layout.map (setLine m.textD indent))) ∧
      ∀ (text : String) (indent : Indent) (openTag : Bool),
        ((d.withMargin text).fairCopy ⟨indent, style, annotate, openTag⟩).render
          = "\n".intercalate ((Text.pieces '\n'
              ({ d with margin := .unset }.fairCopy ⟨indent, style, annotate, openTag⟩).render).map
                fun line => if line = "" then "" else text ++ line) := by
  refine ⟨d.layout style annotate, ?_, ?_, ?_⟩
  · intro line hline
    refine ⟨?_, newline_not_mem_layout hline⟩
    obtain ⟨r, hr, rfl⟩ := List.mem_map.mp hline
    exact (flush_outline hr).depth
  · intro m indent openTag
    exact render_fairCopy _ _
  · intro text indent openTag
    have hlines : ((d.layout style annotate).map (setLine "" indent)).map
        (fun line => if line = "" then "" else text ++ line)
        = (d.layout style annotate).map (setLine text indent) := by
      rw [List.map_map]
      apply List.map_congr_left
      intro line _
      exact (setLine_eq_margin_append text indent line).symm
    rw [pieces_render_unset, hlines]
    exact render_fairCopy _ _

end Draft

end ClassDraft
