import ClassDraft.Proofs.Layout

/-!
# Comments never touch the code

Whether a class is annotated and in which style its comments are set changes the comments
and nothing else. Two runs of settling that differ in those options record the same paths
and leave drafts that are equal up to the comments of their members. In the printed class
the comments stand between lines of code, inside the same margins. Erasing them from the
code of a fair copy, wherever they stand, leaves the code of the draft without description
and comments (`rowsAll_eraseAll_toCode`), so **both runs print the same text once their
comments are erased**.
-/

namespace ClassDraft

open Code (rowsAll)

namespace Code

mutual

/-- A piece of code without the comments in it. -/
def eraseComments : Code → List Code
  | .line text => [.line text]
  | .blank => [.blank]
  | .block opening body closing => [.block opening (eraseAll body) closing]
  | .margin text body => [.margin text (eraseAll body)]
  | .docBlock _ => []
  | .remarks _ => []

def eraseAll : List Code → List Code
  | [] => []
  | code :: more => code.eraseComments ++ eraseAll more

end

theorem eraseAll_eq_flatMap (code : List Code) : eraseAll code = code.flatMap eraseComments := by
  induction code with
  | nil => rfl
  | cons first rest ih => rw [eraseAll, ih, List.flatMap_cons]

theorem eraseAll_append (code more : List Code) :
    eraseAll (code ++ more) = eraseAll code ++ eraseAll more := by
  simp only [eraseAll_eq_flatMap, List.flatMap_append]

theorem eraseAll_singleton (code : Code) : eraseAll [code] = code.eraseComments := by
  rw [eraseAll_eq_flatMap, List.flatMap_singleton]

theorem eraseAll_map_line {α : Type} (text : α → String) (l : List α) :
    eraseAll (l.map fun a => .line (text a)) = l.map fun a => .line (text a) := by
  induction l with
  | nil => rfl
  | cons a rest ih => rw [List.map_cons, eraseAll, ih, eraseComments, List.singleton_append]

/-- The blank lines between sections are no comments. A section that is a comment and
nothing else would leave two of them side by side. -/
theorem eraseAll_intercalate_blank (sections : List (List Code)) :
    eraseAll ([Code.blank].intercalate sections)
      = [Code.blank].intercalate (sections.map eraseAll) := by
  have herase : eraseAll = fun code => code.flatMap eraseComments := funext eraseAll_eq_flatMap
  rw [herase]
  exact Text.flatMap_intercalate eraseComments [Code.blank] sections

/-- A margin around comments is a margin around nothing, which leaves no row. -/
theorem rowsAll_eraseAll_wrap (m : Margin) (code : List Code) :
    rowsAll (eraseAll (m.wrap code)) = (rowsAll (eraseAll code)).map (.within m.textD) := by
  have hmargin : ∀ (text : String) (code : List Code), rowsAll (eraseAll [.margin text code])
      = (rowsAll (eraseAll code)).map (.within text) := by
    intro text code
    rw [eraseAll_singleton, eraseComments, rowsAll_singleton, rows]
  exact reading_wrap (fun code => rowsAll (eraseAll code)) rfl hmargin m code

end Code

/-! ## Members without their comments -/

/-- Nothing is left of a comment, in whichever style it was set. -/
theorem Comment.rowsAll_eraseAll_toCode (c : Comment) : rowsAll (Code.eraseAll c.toCode) = [] := by
  have hflush : Code.eraseAll c.flushCode = [] := by
    unfold flushCode
    split
    next => rfl
    next => cases c.style <;> rfl
  rw [toCode_eq_wrap, Code.rowsAll_eraseAll_wrap, hflush]
  rfl

/-- Erasing leaves nothing of a comment in front of code, if there is one. -/
theorem Comment.rowsAll_eraseAll_append (comment : Option Comment) (code : List Code) :
    rowsAll (Code.eraseAll
      ((match comment with
        | some c => c.toCode
        | none => []) ++ code)) = rowsAll (Code.eraseAll code) := by
  cases comment with
  | none => rfl
  | some c =>
    dsimp only
    rw [Code.eraseAll_append, Code.rowsAll_append, c.rowsAll_eraseAll_toCode, List.nil_append]

namespace Property

/-- The property as if it had never been described. -/
def withoutComment (p : Property) : Property := { p with comment := none }

/-- Erasing comments from the code of a property leaves the code of the property without its
comment. -/
theorem rowsAll_eraseAll_toCode (p : Property) :
    rowsAll (Code.eraseAll p.toCode) = rowsAll p.withoutComment.toCode := by
  have hline : rowsAll (Code.eraseAll (p.margin.wrap [.line p.declaration]))
      = rowsAll p.withoutComment.toCode := by
    rw [Code.rowsAll_eraseAll_wrap, Code.eraseAll_singleton, Code.eraseComments,
      ← Code.rowsAll_wrap]
    rfl
  exact (Comment.rowsAll_eraseAll_append p.comment _).trans hline

end Property

namespace Method

/-- The method as if it had never been described. -/
def withoutComment (m : Method) : Method := { m with comment := none }

/-- What looks like a comment in the body of a method is a line and is kept. -/
theorem eraseAll_declaration (m : Method) : Code.eraseAll m.declaration = m.declaration := by
  unfold declaration
  split
  next => rfl
  next =>
    rw [Code.eraseAll, Code.eraseAll_singleton, Code.eraseComments, Code.eraseComments,
      Code.eraseAll_map_line]
    rfl

/-- Erasing comments from the code of a method leaves the code of the method without its
comment. -/
theorem rowsAll_eraseAll_toCode (m : Method) :
    rowsAll (Code.eraseAll m.toCode) = rowsAll m.withoutComment.toCode := by
  have hdeclaration : rowsAll (Code.eraseAll (m.margin.wrap m.declaration))
      = rowsAll m.withoutComment.toCode := by
    rw [Code.rowsAll_eraseAll_wrap, eraseAll_declaration, ← Code.rowsAll_wrap]
    rfl
  exact (Comment.rowsAll_eraseAll_append m.comment _).trans hdeclaration

end Method

namespace Draft

/-- The draft with the comments of its members taken away. -/
def withoutComments (d : Draft) : Draft :=
  { d with
    properties := ⟨d.properties.members.map .withoutComment⟩
    methods := ⟨d.methods.members.map .withoutComment⟩ }

/-- The draft without a description either. Nothing is left of which a comment could be
made. -/
def silent (d : Draft) : Draft := { d.withoutComments with description := [] }

/-- Settling with other comments leaves the same draft, up to the comments. -/
theorem withoutComments_settled (d : Draft) {o₁ o₂ : Options} (h : o₁.indent = o₂.indent) :
    (d.settled o₁).withoutComments = (d.settled o₂).withoutComments := by
  have hmargin : d.memberMargin o₁ = d.memberMargin o₂ := by rw [memberMargin, memberMargin, h]
  have hproperties : (d.settledForm o₁).properties.members.map Property.withoutComment
      = (d.settledForm o₂).properties.members.map Property.withoutComment := by
    simp only [settledForm, List.map_map, hmargin]
    rfl
  have hmethods : (d.settledForm o₁).methods.members.map Method.withoutComment
      = (d.settledForm o₂).methods.members.map Method.withoutComment := by
    simp only [settledForm, List.map_map, hmargin]
    rfl
  rw [settled_eq, settled_eq]
  unfold withoutComments
  dsimp only
  rw [hproperties, hmethods]
  rfl

end Draft

namespace FairCopy

/-- The sections of a class without comments are its sections with the comments erased, one
by one. -/
theorem rowsAll_eraseAll_sections (c : FairCopy) :
    c.sections.map (fun code => rowsAll (Code.eraseAll code))
      = { c with draft := c.draft.silent }.sections.map rowsAll := by
  have htraits : c.traitSections.map (fun code => rowsAll (Code.eraseAll code))
      = { c with draft := c.draft.silent }.traitSections.map rowsAll := by
    show List.map _ (if c.draft.traits.toList.isEmpty then _ else _)
      = List.map rowsAll (if c.draft.traits.toList.isEmpty then _ else _)
    split
    next => rfl
    next => rfl
  unfold sections
  rw [List.map_append, List.map_append, List.map_append, List.map_append, htraits]
  congr 1
  · congr 1
    show _ = ((c.draft.properties.members.map _).map Property.toCode).map rowsAll
    rw [List.map_map, List.map_map, List.map_map]
    exact List.map_congr_left fun p _ => p.rowsAll_eraseAll_toCode
  · show _ = ((c.draft.methods.members.map _).map Method.toCode).map rowsAll
    rw [List.map_map, List.map_map, List.map_map]
    exact List.map_congr_left fun m _ => m.rowsAll_eraseAll_toCode

/-- Erasing the comments of a fair copy leaves the code of the silent draft. -/
theorem rowsAll_eraseAll_toCode (c : FairCopy) :
    rowsAll (Code.eraseAll c.toCode) = rowsAll { c with draft := c.draft.silent }.toCode := by
  have hline : ∀ text : String, rowsAll (Code.eraseAll (c.draft.margin.wrap [.line text]))
      = rowsAll (c.draft.margin.wrap [.line text]) := by
    intro text
    rw [Code.rowsAll_eraseAll_wrap, Code.rowsAll_wrap]
    rfl
  have hsections : rowsAll (Code.eraseAll ([Code.blank].intercalate c.sections))
      = rowsAll ([Code.blank].intercalate { c with draft := c.draft.silent }.sections) := by
    rw [Code.eraseAll_intercalate_blank, Code.rowsAll_intercalate_blank,
      Code.rowsAll_intercalate_blank, List.map_map]
    exact congrArg ([{ text := "" }].intercalate ·) c.rowsAll_eraseAll_sections
  have hsilent : { c with draft := c.draft.silent }.toCode
      = c.draft.margin.wrap [.line c.draft.declaration]
        ++ [Code.blank].intercalate { c with draft := c.draft.silent }.sections
        ++ c.draft.margin.wrap [.line "\x7d"] := rfl
  rw [hsilent, toCode, List.append_assoc, List.append_assoc]
  refine (Comment.rowsAll_eraseAll_append (c.draft.comment c.options) _).trans ?_
  simp only [Code.eraseAll_append, Code.rowsAll_append, hline, hsections, List.append_assoc]

/-- The options have no part in the code of a silent draft, the unit apart. -/
theorem toCode_silent (d : Draft) {o₁ o₂ : Options} (h : o₁.indent = o₂.indent) :
    toCode ⟨d.silent, o₁⟩ = toCode ⟨d.silent, o₂⟩ := by
  have hmargin : d.silent.memberMargin o₁ = d.silent.memberMargin o₂ := by
    rw [Draft.memberMargin, Draft.memberMargin, h]
  unfold toCode sections traitSections
  dsimp only
  rw [hmargin]
  rfl

end FairCopy

namespace Draft

/-- **Options on comments never touch the code.** With the same unit of indentation, two
runs of settling record the same paths in the same order and leave the same draft up to
the comments of its members; and without comments both classes have the same text. -/
theorem comment_options_invisible (d : Draft) {o₁ o₂ : Options} (h : o₁.indent = o₂.indent) :
    (d.settled o₁).uses.toList = (d.settled o₂).uses.toList ∧
    (d.settled o₁).withoutComments = (d.settled o₂).withoutComments ∧
    Code.render o₁.indent (Code.eraseAll (d.fairCopy o₁).toCode)
      = Code.render o₂.indent (Code.eraseAll (d.fairCopy o₂).toCode) := by
  have hsettled := d.withoutComments_settled h
  refine ⟨?_, hsettled, ?_⟩
  · rw [settled_eq, settled_eq]
  · have hsilent : (d.settled o₁).silent = (d.settled o₂).silent := by
      rw [silent, silent, hsettled]
    have hrows : rowsAll (Code.eraseAll (d.fairCopy o₁).toCode)
        = rowsAll (Code.eraseAll (d.fairCopy o₂).toCode) := by
      rw [FairCopy.rowsAll_eraseAll_toCode, FairCopy.rowsAll_eraseAll_toCode]
      show rowsAll (FairCopy.toCode ⟨(d.settled o₁).silent, o₁⟩)
        = rowsAll (FairCopy.toCode ⟨(d.settled o₂).silent, o₂⟩)
      rw [hsilent, FairCopy.toCode_silent _ h]
    rw [Code.render_eq, Code.render_eq, Code.lines, Code.lines, hrows, h]

/-- Here the annotation of the method names an exception, whose path is recorded whether
the annotation is drawn up or not. -/
theorem comment_options_invisible_user :
    let d : Draft :=
      { name := "User", description := ["A user."], margin := .of "> "
        properties := ⟨[{ name := "id", type := some "App\\Id", description := ["The key."] }]⟩
        methods := ⟨[{ name := "load", exceptions := ["App\\Missing"] }]⟩ }
    let plain : Options := { commentStyle := .single, annotate := false, openTag := false }
    (d.settled {}).methods.members.map Method.comment
      ≠ (d.settled plain).methods.members.map Method.comment ∧
    (d.settled {}).uses.toList = ["App\\Id", "App\\Missing"] ∧
    (d.settled plain).uses.toList = ["App\\Id", "App\\Missing"] ∧
    Code.render plain.indent (Code.eraseAll (d.fairCopy plain).toCode)
      = "\n".intercalate ["> class User \x7b", ">     public Id $id;", "",
          ">     public function load()", ">     \x7b", ">     \x7d", "> \x7d"] := by
  intro d plain
  have hindent : ({} : Options).indent = plain.indent := rfl
  obtain ⟨huses, -, htext⟩ := comment_options_invisible d hindent
  have hpaths : (d.settled {}).uses.toList = ["App\\Id", "App\\Missing"] := by decide +kernel
  refine ⟨by decide +kernel, hpaths, huses ▸ hpaths, ?_⟩
  rw [← htext]
  decide +kernel

end Draft

end ClassDraft
