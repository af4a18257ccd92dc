import ClassDraft.Proofs.CommentLines
import ClassDraft.Proofs.Composition
import Mathlib.Data.List.Infix

/-!
# Where a doc block ends

The texts of a doc block are set behind marks, line by line, but they are not changed. A text
that holds the closing mark ends the comment there, and what follows is read as code.

The closing mark has two characters, so it can only arise inside a piece or at a seam. Line
ends and the marks in front of lines make no seam of that kind; the margin of the opening line
does, where it ends in a star. Hence **a doc block is closed at its end and nowhere before
exactly if its margin is safe and no line holds the mark** (`Comment.closesAtEnd_render_iff`).
For a whole class the lines are traced back to the texts they were drawn up from
(`Draft.closes_comments_iff`): descriptions and types are taken over as they are, while names
of parameters and exceptions were checked when they came in.
-/

namespace ClassDraft

/-! ## The closing mark in a text -/

namespace Text

/-- The mark that closes a block comment stands somewhere in the text. A comment with such a
text in it ends there. -/
def Closes (s : String) : Prop := ['*', '/'] <:+: s.toList

instance (s : String) : Decidable (Closes s) := inferInstanceAs (Decidable (_ <:+: _))

/-- The closing mark stands at the end of the text and nowhere else. This is what a block
comment has to be like. -/
def ClosesAtEnd (s : String) : Prop :=
  (∃ before, s = before ++ "*/") ∧ ∀ before after, s = before ++ "*/" ++ after → after = ""

/-- A margin that neither closes a comment nor makes a closing mark of the slash that opens
the next one. -/
def OpensSafely (margin : String) : Prop :=
  ¬ Closes margin ∧ margin.toList.getLast? ≠ some '*'

instance (margin : String) : Decidable (OpensSafely margin) :=
  inferInstanceAs (Decidable (_ ∧ _))

/-- Two characters in a row stand in one of two joined lists or across the seam. -/
theorem pair_infix_append {x y : Char} {l m : List Char} :
    [x, y] <:+: l ++ m ↔
      [x, y] <:+: l ∨ [x, y] <:+: m ∨ l.getLast? = some x ∧ m.head? = some y := by
  induction l with
  | nil => simp
  | cons c rest ih =>
    rw [List.cons_append, List.infix_cons_iff, List.infix_cons_iff, ih]
    cases rest with
    | nil =>
      -- the pair begins with `c` exactly if it stands across the seam
      have hseam : [x, y] <+: c :: m ↔ c = x ∧ m.head? = some y := by
        cases m with
        | nil => simp
        | cons d more => simp [eq_comm]
      simp [hseam, or_comm]
    | cons d more =>
      have hfirst : [x, y] <+: c :: (d :: more ++ m) ↔ [x, y] <+: c :: d :: more := by simp
      rw [hfirst, List.getLast?_cons_cons]
      exact or_assoc.symm

/-- The two characters that close a comment are in the one text or in the other, or the one
ends with the first of them and the other begins with the second. -/
theorem closes_append {s t : String} :
    Closes (s ++ t) ↔
      Closes s ∨ Closes t ∨ s.toList.getLast? = some '*' ∧ t.toList.head? = some '/' := by
  rw [Closes, String.toList_append]
  exact pair_infix_append

/-- Behind a text that does not end in a star, only what is added can close. -/
theorem closes_append_of_getLast? {s t : String} (hs : s.toList.getLast? ≠ some '*') :
    Closes (s ++ t) ↔ Closes s ∨ Closes t := by
  rw [closes_append]
  simp [hs]

theorem not_closes_of_not_mem {s : String} (h : '*' ∉ s.toList) : ¬ Closes s :=
  fun hcloses => h (hcloses.subset (List.mem_cons_self ..))

theorem closes_append_of_head? {s t : String} (ht : t.toList.head? ≠ some '/') :
    Closes (s ++ t) ↔ Closes s ∨ Closes t := by
  rw [closes_append]
  simp [ht]

/-- The closing mark does not reach over a line end. -/
theorem closes_intercalate :
    ∀ {parts : List String}, Closes ("\n".intercalate parts) ↔ ∃ part ∈ parts, Closes part
  | [] => by simp [Closes]
  | [part] => by simp
  | part :: next :: more => by
    have hrest : Closes ("\n".intercalate (next :: more)) ↔ ∃ part ∈ next :: more, Closes part :=
      closes_intercalate
    rw [String.intercalate_cons_of_ne_nil (List.cons_ne_nil _ _), closes_append_of_getLast?,
      closes_append_of_head?, hrest]
    · have hglue : ¬ Closes "\n" := by decide
      simp [hglue]
    · decide
    · simp

/-- A line end comes between the two characters, so that they are on one line or not there. -/
theorem closes_iff_piece {s : String} : Closes s ↔ ∃ piece ∈ pieces '\n' s, Closes piece := by
  rw [← closes_intercalate, intercalate_pieces rfl]

/-- A text that ends in a slash closes at its end only if it does not without the slash. -/
theorem closesAtEnd_append_slash {s : String} (h : s.toList.getLast? = some '*') :
    ClosesAtEnd (s ++ "/") ↔ ¬ Closes s := by
  constructor
  · rintro ⟨_, honly⟩ ⟨before, after, hcut⟩
    have hlonger : s ++ "/" = String.ofList before ++ "*/" ++ (String.ofList after ++ "/") := by
      apply String.ext
      simp [← hcut]
    simpa using honly _ _ hlonger
  · intro hopen
    refine ⟨?_, ?_⟩
    · obtain ⟨front, hfront⟩ := List.getLast?_eq_some_iff.mp h
      refine ⟨String.ofList front, String.ext ?_⟩
      simp [hfront]
    · intro before after hcut
      -- what follows the mark loses the slash, unless the mark is the end itself
      rcases List.eq_nil_or_concat after.toList with hnil | ⟨rest, c, hrest⟩
      · exact String.ext hnil
      · refine absurd ⟨before.toList, rest, ?_⟩ hopen
        have hlist := congrArg String.toList hcut
        rw [String.toList_append, String.toList_append, String.toList_append, hrest,
          List.concat_eq_append, ← List.append_assoc] at hlist
        exact (List.append_inj' hlist rfl).1.symm

end Text

/-! ## A comment by itself -/

namespace Comment

/-- The star of the mark is followed by a space, or by nothing, so that a line does not
close a comment because of its mark. -/
theorem closes_marked {piece : String} :
    Text.Closes (Code.Writer.marked " *" piece) ↔ Text.Closes piece := by
  unfold Code.Writer.marked
  split
  next h =>
    rw [h]
    decide
  next =>
    have hmark : ¬ Text.Closes (" *" ++ " ") := by decide
    rw [Text.closes_append_of_getLast? (by decide)]
    simp only [hmark, false_or]

theorem marked_ne_empty {mark piece : String} (h : mark ≠ "") :
    Code.Writer.marked mark piece ≠ "" := by
  unfold Code.Writer.marked
  split
  next => exact h
  next => simp

/-- A marked line is never empty, so that it has its margin in front. -/
theorem ne_empty_of_mem_markedLines {mark text : String} {lines : List String} (hmark : mark ≠ "")
    (h : text ∈ Code.Writer.markedLines mark lines) : text ≠ "" := by
  obtain ⟨piece, _, rfl⟩ := List.mem_map.mp h
  exact marked_ne_empty hmark

/-- A comment that is set as texts none of which is empty has its margin in front of each. -/
theorem lines_of_flushCode {c : Comment} {texts : List String}
    (hflush : Code.rowsAll c.flushCode = Code.flushRows texts) (hne : ∀ text ∈ texts, text ≠ "")
    (indent : Indent) : Code.lines indent c.toCode = texts.map (c.margin.textD ++ ·) := by
  rw [lines_toCode, hflush, Code.flushRows, List.map_map]
  exact List.map_congr_left fun text htext => if_neg (hne text htext)

/-- The lines of a doc block: the opening mark, a mark for each line of the texts, and the
closing mark. -/
theorem lines_multi {c : Comment} (hstyle : c.style = .multi) (hne : c.lines ≠ [])
    (indent : Indent) :
    Code.lines indent c.toCode = (c.margin.textD ++ "/**")
      :: (Code.Writer.markedLines " *" c.lines).map (c.margin.textD ++ ·)
      ++ [c.margin.textD ++ " */"] := by
  have hempty : c.isEmpty = false := List.isEmpty_eq_false_iff.mpr hne
  have hflush : Code.rowsAll c.flushCode
      = Code.flushRows ("/**" :: Code.Writer.markedLines " *" c.lines ++ [" */"]) := by
    unfold flushCode
    rw [hempty, hstyle]
    exact Code.rowsAll_singleton _
  rw [lines_of_flushCode hflush, List.cons_append, List.map_cons, List.map_append,
    List.map_singleton, List.cons_append]
  intro text htext
  rw [List.cons_append, List.mem_cons, List.mem_append, List.mem_singleton] at htext
  rcases htext with rfl | hbody | rfl
  · decide
  · exact ne_empty_of_mem_markedLines (by decide) hbody
  · decide

/-- The lines of remarks: a mark for each line of the texts. -/
theorem lines_single {c : Comment} (hstyle : c.style = .single) (hne : c.lines ≠ [])
    (indent : Indent) :
    Code.lines indent c.toCode
      = (Code.Writer.markedLines "//" c.lines).map (c.margin.textD ++ ·) := by
  have hempty : c.isEmpty = false := List.isEmpty_eq_false_iff.mpr hne
  have hflush : Code.rowsAll c.flushCode
      = Code.flushRows (Code.Writer.markedLines "//" c.lines) := by
    unfold flushCode
    rw [hempty, hstyle]
    exact Code.rowsAll_singleton _
  exact lines_of_flushCode hflush (fun text => ne_empty_of_mem_markedLines (by decide)) indent

/-- A comment set as a block, with the last character of its closing apart. -/
theorem render_multi {c : Comment} (hstyle : c.style = .multi) (hne : c.lines ≠ []) :
    c.render = "\n".intercalate ((c.margin.textD ++ "/**")
      :: (Code.Writer.markedLines " *" c.lines).map (c.margin.textD ++ ·)
      ++ [c.margin.textD ++ " *"]) ++ "/" := by
  have hlast : c.margin.textD ++ " */" = c.margin.textD ++ " *" ++ "/" := by
    rw [String.append_assoc]
    rfl
  rw [render, Code.render_eq, lines_multi hstyle hne, hlast,
    String.intercalate_append_of_ne_nil (List.cons_ne_nil _ _) (List.cons_ne_nil _ _),
    String.intercalate_append_of_ne_nil (List.cons_ne_nil _ _) (List.cons_ne_nil _ _),
    String.intercalate_singleton, String.intercalate_singleton]
  simp only [String.append_assoc]

/-- A line of a doc block closes if its margin does or the text behind its mark does. -/
theorem closes_margin_marked {margin piece : String} :
    Text.Closes (margin ++ Code.Writer.marked " *" piece) ↔
      Text.Closes margin ∨ Text.Closes piece := by
  rw [Text.closes_append_of_head?, closes_marked]
  unfold Code.Writer.marked
  split <;> simp

/-- A doc block closes before its end exactly if its margin closes, alone or with the slash
of the opening mark, or one of its lines does. -/
theorem closes_docBlock_iff {margin : String} {lines : List String} :
    (∃ line ∈ (margin ++ "/**") :: (Code.Writer.markedLines " *" lines).map (margin ++ ·)
      ++ [margin ++ " *"], Text.Closes line) ↔
    (Text.Closes margin ∨ margin.toList.getLast? = some '*') ∨
      ∃ line ∈ lines, Text.Closes line := by
  have hopening : Text.Closes (margin ++ "/**") ↔
      Text.Closes margin ∨ margin.toList.getLast? = some '*' := by
    have hmark : ¬ Text.Closes "/**" := by decide
    simp [Text.closes_append, hmark]
  have hclosing : Text.Closes (margin ++ " *") ↔ Text.Closes margin := by
    have hmark : ¬ Text.Closes " *" := by decide
    rw [Text.closes_append_of_head? (by decide), or_iff_left hmark]
  constructor
  · rintro ⟨line, hline, hcloses⟩
    rw [List.cons_append, List.mem_cons, List.mem_append, List.mem_singleton] at hline
    rcases hline with rfl | hbody | rfl
    · exact .inl (hopening.mp hcloses)
    · obtain ⟨text, htext, rfl⟩ := List.mem_map.mp hbody
      obtain ⟨piece, hpiece, rfl⟩ := List.mem_map.mp htext
      obtain ⟨line, hline, hpiece⟩ := List.mem_flatMap.mp hpiece
      rcases closes_margin_marked.mp hcloses with hmargin | htext
      · exact .inl (.inl hmargin)
      · exact .inr ⟨line, hline, Text.closes_iff_piece.mpr ⟨piece, hpiece, htext⟩⟩
    · exact .inl (.inl (hclosing.mp hcloses))
  · rintro (hmargin | ⟨line, hline, hcloses⟩)
    · exact ⟨margin ++ "/**", List.mem_cons_self .., hopening.mpr hmargin⟩
    · obtain ⟨piece, hpiece, htext⟩ := Text.closes_iff_piece.mp hcloses
      have hmarked : Code.Writer.marked " *" piece ∈ Code.Writer.markedLines " *" lines :=
        List.mem_map_of_mem (List.mem_flatMap.mpr ⟨line, hline, hpiece⟩)
      refine ⟨margin ++ Code.Writer.marked " *" piece, ?_, closes_margin_marked.mpr (.inr htext)⟩
      exact List.mem_cons_of_mem _ (List.mem_append_left _ (List.mem_map_of_mem hmarked))

/-- **When a doc block stays one comment.** Its text closes at its end and nowhere else
exactly if none of its lines holds the closing mark and its margin neither holds that mark nor
makes one with the slash that opens the block. -/
theorem closesAtEnd_render_iff {c : Comment} (hstyle : c.style = .multi) (hne : c.lines ≠ []) :
    Text.ClosesAtEnd c.render ↔
      Text.OpensSafely c.margin.textD ∧ ∀ line ∈ c.lines, ¬ Text.Closes line := by
  have hend : ("\n".intercalate ((c.margin.textD ++ "/**")
      :: (Code.Writer.markedLines " *" c.lines).map (c.margin.textD ++ ·)
      ++ [c.margin.textD ++ " *"])).toList.getLast? = some '*' := by
    rw [String.intercalate_append_of_ne_nil (List.cons_ne_nil _ _) (List.cons_ne_nil _ _),
      String.intercalate_singleton, ← String.append_assoc, String.toList_append,
      List.getLast?_append]
    rfl
  rw [render_multi hstyle hne, Text.closesAtEnd_append_slash hend, Text.closes_intercalate,
    closes_docBlock_iff]
  simp [Text.OpensSafely]

end Comment

/-! ## The comments of a class -/

theorem Name.not_closes_identifier {name : String} (h : isIdentifier name = true) :
    ¬ Text.Closes name :=
  Text.not_closes_of_not_mem fun hmem => absurd (continues_of_mem_identifier h hmem) (by decide)

/-- A unit of indentation behind a safe margin leaves it safe. -/
theorem Indent.opensSafely_append_unit {margin : String} (h : Text.OpensSafely margin)
    (indent : Indent) : Text.OpensSafely (margin ++ indent.unit) := by
  have hunit : ∀ c ∈ indent.unit.toList, c = ' ' ∨ c = '\t' := by
    cases indent with
    | spaces width => simp [unit]
    | tab => simp [unit]
  have hstar : '*' ∉ indent.unit.toList := fun hmem => absurd (hunit _ hmem) (by decide)
  have hslash : indent.unit.toList.head? ≠ some '/' := fun hhead =>
    absurd (hunit _ (List.mem_of_head? hhead)) (by decide)
  refine ⟨?_, ?_⟩
  · rw [Text.closes_append_of_head? hslash]
    exact not_or.mpr ⟨h.1, Text.not_closes_of_not_mem hstar⟩
  · rw [String.toList_append, List.getLast?_append]
    cases hlast : indent.unit.toList.getLast? with
    | none => exact h.2
    | some c =>
      intro heq
      cases heq
      exact hstar (List.mem_of_getLast? hlast)

/-- A word in front of an annotated text closes nothing. -/
theorem Comment.closes_label {label text : String} (hlabel : ¬ Text.Closes label)
    (hend : label.toList.getLast? ≠ some '*') :
    Text.Closes (label ++ text) ↔ Text.Closes text := by
  rw [Text.closes_append_of_getLast? hend, or_iff_right hlabel]

/-- The annotation of a parameter closes the comment only if the type does. -/
theorem Comment.closes_paramLine {p : Param} (h : Name.isIdentifier p.name = true) :
    Text.Closes (paramLine p) ↔ ∃ t ∈ p.type, Text.Closes t := by
  have hname : ¬ Text.Closes (" " ++ p.name) := by
    rw [closes_label (by decide) (by decide)]
    exact Name.not_closes_identifier h
  rw [paramLine, String.append_assoc, Text.closes_append_of_head? (by simp), or_iff_left hname,
    closes_label (by decide) (by decide)]
  cases p.type with
  | none => decide
  | some t => simp

/-- What the comment on a property takes over as it is: its description and, where it is
annotated, its type. -/
def Property.commentTexts (p : Property) (annotate : Bool) : List String :=
  p.description ++ p.annotatedTypes annotate

/-- What the comment on a method takes over as it is: its description and, where it is
annotated, the types of its parameters and what it returns. -/
def Method.commentTexts (m : Method) (annotate : Bool) : List String :=
  m.description
    ++ if annotate then
      m.params.members.flatMap (fun p => (p.type.map Name.shortType).toList)
        ++ (m.returns.mapTypes Name.shortType).render.toList
    else []

/-- The comment on a property is safe exactly if its description and its annotated type are. -/
theorem Property.closes_docComment_iff (p : Property) (margin : String) (o : Options) :
    (∀ line ∈ (p.docComment margin o).lines, ¬ Text.Closes line) ↔
      ∀ text ∈ p.commentTexts o.annotate, ¬ Text.Closes text := by
  have hvar : ∀ t, Text.Closes ("@var " ++ t) ↔ Text.Closes t := fun _ =>
    Comment.closes_label (by decide) (by decide)
  have hlines := (p.withMargin margin).forall_commentFor (P := (¬ Text.Closes ·)) (by decide) o
  simp only [hvar] at hlines
  rw [commentTexts, List.forall_mem_append]
  exact hlines

/-- The comment on a method is safe exactly if its description and its annotated types and
exceptions are. -/
theorem Method.closes_docComment_iff {m : Method} (h : m.Sound) (margin : String)
    (o : Options) :
    (∀ line ∈ (m.docComment margin o).lines, ¬ Text.Closes line) ↔
      ∀ text ∈ m.commentTexts o.annotate, ¬ Text.Closes text := by
  have hparams : (∀ p ∈ m.short.params.members, ¬ Text.Closes (Comment.paramLine p)) ↔
      ∀ p ∈ m.params.members, ∀ t ∈ p.type.map Name.shortType, ¬ Text.Closes t := by
    show (∀ p ∈ m.params.members.map Param.short, _) ↔ _
    rw [List.forall_mem_map]
    refine forall₂_congr fun p hp => ?_
    have hname : Name.isIdentifier p.short.name = true :=
      h.params.identifiers p.name (List.mem_map_of_mem hp)
    rw [Comment.closes_paramLine hname]
    simp [Param.short]
  have hexceptions : ∀ path ∈ m.short.exceptions, ¬ Text.Closes ("@throws " ++ path) := by
    intro path hpath
    obtain ⟨full, hfull, rfl⟩ := List.mem_map.mp hpath
    rw [Comment.closes_label (by decide) (by decide)]
    exact Name.not_closes_identifier (Name.isIdentifier_short (h.exceptions full hfull))
  have hreturns : ∀ t, Text.Closes ("@return " ++ t) ↔ Text.Closes t := fun _ =>
    Comment.closes_label (by decide) (by decide)
  rw [docComment, forall_signatureComment (by decide), commentTexts, List.forall_mem_append]
  refine and_congr_right fun _ => ?_
  by_cases hwanted : o.annotate = true
  · have htypes : (∀ text ∈ m.params.members.flatMap fun p => (p.type.map Name.shortType).toList,
        ¬ Text.Closes text) ↔
        ∀ p ∈ m.params.members, ∀ t ∈ p.type.map Name.shortType, ¬ Text.Closes t := by
      simp only [List.mem_flatMap, Option.mem_toList, forall_exists_index, and_imp]
      exact ⟨fun hall p hp t ht => hall t p hp ht, fun hall t p hp ht => hall p hp t ht⟩
    rw [if_pos hwanted, List.forall_mem_append, htypes, ← hparams]
    simp only [hwanted, forall_const, hreturns, Option.mem_toList]
    exact and_congr_right fun _ => and_iff_right hexceptions
  · simp [hwanted]

/-- What the comments of a class take over as it is: descriptions, and with annotations also
types and exceptions. -/
def Draft.commentTexts (d : Draft) (annotate : Bool) : List String :=
  d.description ++ d.properties.members.flatMap (·.commentTexts annotate)
    ++ d.methods.members.flatMap (·.commentTexts annotate)

namespace Draft

/-- The lines of all comments of a class close nothing exactly if the texts they were drawn up
from close nothing. -/
theorem closes_comments_iff {d : Draft} (h : d.Built) (o : Options) :
    (∀ c ∈ (d.fairCopy o).comments, ∀ line ∈ c.lines, ¬ Text.Closes line) ↔
      ∀ text ∈ d.commentTexts o.annotate, ¬ Text.Closes text := by
  rw [forall_comments_fairCopy, commentTexts, List.forall_mem_append, List.forall_mem_append,
    and_assoc, List.forall_mem_flatMap, List.forall_mem_flatMap]
  simp only [Property.closes_docComment_iff]
  refine and_congr_right fun _ => and_congr_right fun _ => forall₂_congr fun m hm => ?_
  exact Method.closes_docComment_iff (h.method_reachable m hm).sound _ o

/-- Every comment of a class has the style that is asked for, and the margin of the class or
of its members. -/
theorem style_margin_of_mem_comments {d : Draft} {o : Options} {c : Comment}
    (h : c ∈ (d.fairCopy o).comments) :
    c.style = o.commentStyle ∧
      (c.margin.textD = d.margin.textD ∨ c.margin.textD = d.margin.textD ++ o.indent.unit) := by
  obtain ⟨rfl | ⟨p, _, rfl⟩ | ⟨m, _, rfl⟩, _⟩ := mem_comments_fairCopy.mp h
  · exact ⟨rfl, .inl rfl⟩
  · exact ⟨rfl, .inr rfl⟩
  · exact ⟨rfl, .inr rfl⟩

/-- **A doc block ends where its texts let it.** The text of a doc block closes at its end and
nowhere before exactly if its margin is safe and none of its lines holds the closing mark. So
in a class with a safe margin every doc block stays one comment exactly if the closing mark is
in none of the texts that the comments take over: the descriptions and, where annotations are
wanted, the types. Names of parameters and of exceptions never hold it. -/
theorem docBlocks_close_iff {d : Draft} (h : d.Built) (o : Options)
    (hstyle : o.commentStyle = .multi) :
    (∀ c : Comment, c.style = .multi → c.lines ≠ [] →
      (Text.ClosesAtEnd c.render ↔
        Text.OpensSafely c.margin.textD ∧ ∀ line ∈ c.lines, ¬ Text.Closes line)) ∧
    (Text.OpensSafely d.margin.textD →
      ((∀ c ∈ (d.fairCopy o).comments, Text.ClosesAtEnd c.render) ↔
        ∀ text ∈ d.commentTexts o.annotate, ¬ Text.Closes text)) := by
  refine ⟨fun c => Comment.closesAtEnd_render_iff, fun hmargin => ?_⟩
  rw [← closes_comments_iff h o]
  refine forall₂_congr fun c hc => ?_
  obtain ⟨hmulti, hmargins⟩ := style_margin_of_mem_comments hc
  have hsafe : Text.OpensSafely c.margin.textD := by
    rcases hmargins with heq | heq
    · exact heq ▸ hmargin
    · exact heq ▸ Indent.opensSafely_append_unit hmargin o.indent
  rw [Comment.closesAtEnd_render_iff (hmulti.trans hstyle) (mem_comments_fairCopy.mp hc).2]
  exact and_iff_right hsafe

/-- Stars and slashes that do not meet are harmless, in a margin and in a description. -/
theorem docBlocks_close_rates :
    let convert : Method :=
      { name := "convert", params := ⟨[{ name := "unit", type := some "App\\Unit" }]⟩,
        description := ["Computes a * b / c."] }
    let d := [Edit.setMargin "/* ", .describe "Rates, by * or by /.", .addMethod convert].foldl
      attempt { name := "Rates" }
    d.Built ∧ Text.OpensSafely d.margin.textD ∧ (d.fairCopy {}).comments.length = 2 ∧
      ∀ c ∈ (d.fairCopy {}).comments, Text.ClosesAtEnd c.render := by
  intro convert d
  have hparam : (Method.named "convert").edit
      (.addParam { name := "unit", type := some "App\\Unit" })
      = .ok { name := "convert", params := ⟨[{ name := "unit", type := some "App\\Unit" }]⟩ } := by
    decide +kernel
  have hconvert : convert.Reachable :=
    ((Method.Reachable.named "convert").edit _ hparam).edit (.describe "Computes a * b / c.") rfl
  have hnew : Draft.new .classKind "Rates" = .ok { name := "Rates" } := rfl
  have hd : d.Built := by
    refine Built.attempts _ ?_ (.new hnew)
    intro m hm
    have hm : m = convert := by simpa using hm
    exact hm ▸ hconvert
  have hmargin : Text.OpensSafely d.margin.textD := by decide +kernel
  refine ⟨hd, hmargin, by decide +kernel, ?_⟩
  exact ((docBlocks_close_iff hd {} rfl).2 hmargin).mpr (by decide +kernel)

end Draft

/-- A path in a description closes a doc block early, and so does a margin that ends in a star,
although that margin does not hold the closing mark. -/
theorem Comment.docBlock_closed_early :
    let path : Comment := { lines := ["Loads config/*/app.php."], style := .multi }
    let starred : Comment := { lines := ["Loads."], style := .multi, margin := .of "*" }
    path.render = "/**\n * Loads config/*/app.php.\n */" ∧ ¬ Text.ClosesAtEnd path.render ∧
      starred.render = "*/**\n* * Loads.\n* */" ∧ ¬ Text.Closes "*" ∧
      ¬ Text.ClosesAtEnd starred.render := by
  intro path starred
  have hpath : path.render = "/**\n * Loads config/*/app.php.\n */" := by decide +kernel
  have hstarred : starred.render = "*/**\n* * Loads.\n* */" := by decide +kernel
  refine ⟨hpath, ?_, hstarred, by decide, ?_⟩
  · rintro ⟨_, honly⟩
    have hcut : path.render = "/**\n * Loads config/" ++ "*/" ++ "app.php.\n */" := hpath
    exact absurd (honly _ _ hcut) (by decide)
  · rintro ⟨_, honly⟩
    have hcut : starred.render = "" ++ "*/" ++ "**\n* * Loads.\n* */" := hstarred
    exact absurd (honly _ _ hcut) (by decide)

end ClassDraft
