import ClassDraft.Proofs.CommentLines
import ClassDraft.Proofs.FileText
import ClassDraft.Proofs.SingleLine

/-!
# Blanks at the ends of lines

The lines of a file come from many sources, and only some of these strip their texts: a line of
a body loses the blanks at its end, an empty line is written without its margin, a value is
tidied. A description is taken over as it stands, and so is a type. A type is followed by a name
or a semicolon in most places, but in two it is the end of a line: in the annotation of a
property or of what a method returns, and in the signature of a method with a body.

A row ends as its text does (`Row.endsBlank_print`), so that the question is one about the texts
of the outline. `Code.Trimmed` follows the tree, and each kind of line is dealt with where it
arises. **No line of a file ends in a blank exactly if none does in its descriptions and its
head, and each type at the end of a line ends in a character that can be seen**
(`Draft.file_trimmed_iff`).
-/

namespace ClassDraft

open Code (Row rowsAll)

/-! ## The last character of a text -/

namespace Text

/-- Whether the last character of a text is a blank. The empty text does not end in one. -/
def endsBlank (s : String) : Bool := s.toList.getLast?.any isBlank

/-- The text ends in a character that is no blank. The empty text does not. -/
def endsVisibly (s : String) : Bool := s.toList.getLast?.any (!isBlank ·)

/-- No line of the text ends in a blank. -/
def Trimmed (s : String) : Prop := ∀ line ∈ pieces '\n' s, endsBlank line = false

instance (s : String) : Decidable (Trimmed s) := inferInstanceAs (Decidable (∀ line ∈ _, _))

/-- Of two texts the second decides, unless it is empty. -/
theorem endsBlank_append {t : String} (h : t ≠ "") (s : String) :
    endsBlank (s ++ t) = endsBlank t := by
  rw [endsBlank, endsBlank, String.toList_append, List.getLast?_append]
  cases hlast : t.toList.getLast? with
  | none => exact absurd (String.ext (List.getLast?_eq_none_iff.mp hlast)) h
  | some c => rfl

theorem endsVisibly_append {t : String} (h : endsVisibly t = true) (s : String) :
    endsVisibly (s ++ t) = true := by
  rw [endsVisibly] at h
  rw [endsVisibly, String.toList_append, List.getLast?_append]
  cases hlast : t.toList.getLast? with
  | none =>
    rw [hlast] at h
    cases h
  | some c =>
    rw [hlast] at h
    exact h

/-- A text that is not empty ends in a blank or visibly. -/
theorem endsVisibly_eq {s : String} (h : s ≠ "") : endsVisibly s = !endsBlank s := by
  rw [endsVisibly, endsBlank]
  cases hlast : s.toList.getLast? with
  | none => exact absurd (String.ext (List.getLast?_eq_none_iff.mp hlast)) h
  | some c => rfl

/-- To end visibly is to be there and not to end in a blank. -/
theorem endsBlank_of_endsVisibly {s : String} (h : endsVisibly s = true) :
    endsBlank s = false := by
  have hne : s ≠ "" := by
    rintro rfl
    cases h
  rw [endsVisibly_eq hne] at h
  simpa using h

/-- Behind a label that ends in a blank there must be something to see. -/
theorem endsBlank_label {label : String} (hlabel : endsBlank label = true) (text : String) :
    endsBlank (label ++ text) = false ↔ endsVisibly text = true := by
  by_cases h : text = ""
  · have hempty : endsVisibly "" = false := rfl
    rw [h, String.append_empty, hlabel, hempty]
    decide
  · rw [endsBlank_append h, endsVisibly_eq h, Bool.not_eq_true']

theorem endsBlank_trimEnd (s : String) : endsBlank (trimEnd s) = false := by
  rw [endsBlank, trimEnd, toList_stripEnd]
  by_cases h : s.toList.rdropWhile isBlank = []
  · rw [h]
    rfl
  · rw [List.getLast?_eq_some_getLast h, Option.any_some]
    exact Bool.eq_false_iff.mpr (List.rdropWhile_last_not isBlank s.toList h)

/-- On a single line there is one end to look at. -/
theorem trimmed_iff {s : String} (h : '\n' ∉ s.toList) : Trimmed s ↔ endsBlank s = false := by
  rw [Trimmed, pieces_eq_singleton h]
  simp

theorem trimmed_of_endsVisibly {s : String} (hline : '\n' ∉ s.toList)
    (h : endsVisibly s = true) : Trimmed s :=
  (trimmed_iff hline).mpr (endsBlank_of_endsVisibly h)

/-- The line end behind the last line opens a line on which nothing stands. -/
theorem trimmed_join_closed {lines : List String} (hfree : ∀ line ∈ lines, '\n' ∉ line.toList) :
    Trimmed (String.join (lines.map (· ++ "\n"))) ↔ ∀ line ∈ lines, endsBlank line = false := by
  by_cases hne : lines = []
  · subst hne
    decide
  · have hlast : "\n".intercalate lines ++ "\n" = "\n".intercalate (lines ++ [""]) := by
      rw [String.intercalate_append_of_ne_nil hne (List.cons_ne_nil _ _),
        String.intercalate_singleton, String.append_empty]
    have hall : ∀ line ∈ lines ++ [""], '\n' ∉ line.toList := by
      intro line hline
      rcases List.mem_append.mp hline with hold | hnew
      · exact hfree line hold
      · rw [List.mem_singleton.mp hnew]
        decide
    rw [join_closed hne, hlast, Trimmed, pieces_intercalate rfl (by simp) hall,
      List.forall_mem_append]
    exact and_iff_left fun line hline => List.mem_singleton.mp hline ▸ rfl

end Text

/-! ## Code without blanks at the ends of its lines -/

namespace Code

/-- A row ends as its text does: what stands in front of a text is left out where the text is
empty. -/
theorem Row.endsBlank_print (indent : Indent) (r : Row) :
    Text.endsBlank (r.print indent) = Text.endsBlank r.text := by
  unfold print
  split
  next h => rw [h]
  next h => exact Text.endsBlank_append h _

theorem Row.newline_not_mem_print {r : Row} (hmargin : '\n' ∉ r.margin.toList)
    (htext : '\n' ∉ r.text.toList) (indent : Indent) : '\n' ∉ (r.print indent).toList := by
  have hlevels := indent.newline_not_mem_levels r.depth
  unfold print
  split
  next => decide
  next => simp [hmargin, htext, hlevels]

/-- No row of the code ends in a blank. -/
def Trimmed (code : List Code) : Prop := ∀ r ∈ rowsAll code, Text.endsBlank r.text = false

/-- Pieces of code are looked at one by one. -/
theorem trimmed_append {code more : List Code} :
    Trimmed (code ++ more) ↔ Trimmed code ∧ Trimmed more := by
  rw [Trimmed, rowsAll_append]
  exact List.forall_mem_append

theorem forall_textRows {text : String} :
    (∀ r ∈ textRows text, Text.endsBlank r.text = false) ↔ Text.Trimmed text :=
  List.forall_mem_map

theorem trimmed_line {text : String} : Trimmed [.line text] ↔ Text.Trimmed text := by
  rw [Trimmed, rowsAll_singleton, rows]
  exact forall_textRows

theorem trimmed_map_line {texts : List String} :
    Trimmed (texts.map .line) ↔ ∀ text ∈ texts, Text.Trimmed text := by
  simp only [Trimmed, rowsAll_eq_flatMap, List.flatMap_map, List.forall_mem_flatMap, rows,
    forall_textRows]

/-- A block is trimmed if its body and the lines around it are; how deep it stands does not
matter. -/
theorem trimmed_block {opening closing : String} {body : List Code} :
    Trimmed [.block opening body (some closing)] ↔
      Text.Trimmed opening ∧ Trimmed body ∧ Text.Trimmed closing := by
  rw [Trimmed, rowsAll_singleton, rows, List.forall_mem_append, List.forall_mem_append,
    forall_textRows, List.forall_mem_map, Option.toList_some, List.flatMap_singleton,
    forall_textRows, and_assoc]
  exact Iff.rfl

theorem trimmed_nil : Trimmed [] := by
  intro r hr
  cases hr

theorem trimmed_blank : Trimmed [.blank] := by
  intro r hr
  rw [rowsAll_singleton, rows] at hr
  obtain ⟨text, htext, rfl⟩ := mem_flushRows.mp hr
  rw [List.mem_singleton.mp htext]
  rfl

/-- Blank lines between sections are empty and end in nothing. -/
theorem trimmed_intercalate_blank : ∀ {sections : List (List Code)},
    Trimmed ([Code.blank].intercalate sections) ↔ ∀ code ∈ sections, Trimmed code
  | [] => by simpa using trimmed_nil
  | [code] => by simp
  | code :: next :: more => by
    rw [List.intercalate_cons_cons, trimmed_append, trimmed_append, trimmed_intercalate_blank,
      and_iff_left trimmed_blank, ← List.forall_mem_cons]

end Code

/-- A mark with nothing behind it is written without the space, so that only the text can
make a marked line end in a blank. -/
theorem Comment.endsBlank_marked {mark : String} (hmark : Text.endsBlank mark = false)
    (text : String) :
    Text.endsBlank (Code.Writer.marked mark text) = Text.endsBlank text := by
  unfold Code.Writer.marked
  split
  next h =>
    rw [h, hmark]
    rfl
  next h => exact Text.endsBlank_append h _

/-- The lines of a comment are trimmed exactly if what is said in it is. -/
theorem Comment.forall_markedLines {mark : String} (hmark : Text.endsBlank mark = false)
    {lines : List String} :
    (∀ text ∈ Code.Writer.markedLines mark lines, Text.endsBlank text = false) ↔
      ∀ line ∈ lines, Text.Trimmed line := by
  rw [Code.Writer.markedLines, List.forall_mem_map, List.forall_mem_flatMap]
  simp only [endsBlank_marked hmark]
  exact Iff.rfl

/-- The marks of a comment put no blank at the end of a line. -/
theorem Comment.trimmed_flushCode {c : Comment} :
    Code.Trimmed c.flushCode ↔ ∀ line ∈ c.lines, Text.Trimmed line := by
  unfold flushCode
  by_cases hempty : c.isEmpty = true
  · have hnil : c.lines = [] := List.isEmpty_iff.mp hempty
    rw [if_pos hempty, hnil]
    simpa using Code.trimmed_nil
  · rw [if_neg hempty]
    cases c.style with
    | multi =>
      rw [← forall_markedLines (by decide : Text.endsBlank " *" = false), Code.Trimmed,
        Code.rowsAll_singleton, Code.rows, Code.flushRows, List.forall_mem_map, List.cons_append,
        List.forall_mem_cons, List.forall_mem_append]
      have hopening : Text.endsBlank "/**" = false := rfl
      have hclosing : ∀ text ∈ [" */"], Text.endsBlank text = false := by decide
      exact (and_iff_right hopening).trans (and_iff_left hclosing)
    | single =>
      rw [← forall_markedLines (by decide : Text.endsBlank "//" = false), Code.Trimmed,
        Code.rowsAll_singleton, Code.rows, Code.flushRows, List.forall_mem_map]

/-! ## Members -/

theorem Name.isBlank_of_continuesIdentifier {c : Char} (h : continuesIdentifier c = true) :
    Text.isBlank c = false := by
  have hascii : ∀ n : Fin 128, continuesIdentifier (Char.ofNat n) = true →
      Text.isBlank (Char.ofNat n) = false := by
    decide +kernel
  have hc := hascii ⟨c.toNat, toNat_lt_of_continuesIdentifier h⟩
  rw [Char.ofNat_toNat] at hc
  exact hc h

theorem Name.endsVisibly_identifier {name : String} (h : isIdentifier name = true) :
    Text.endsVisibly name = true := by
  rw [Text.endsVisibly]
  cases hlast : name.toList.getLast? with
  | none =>
    rw [isIdentifier, List.getLast?_eq_none_iff.mp hlast] at h
    cases h
  | some c =>
    have hc := continues_of_mem_identifier h (List.mem_of_getLast? hlast)
    rw [Option.any_some, isBlank_of_continuesIdentifier hc]
    rfl

/-- A property is trimmed exactly if its description and its annotated type are; its
declaration ends in a semicolon. -/
theorem Property.trimmed_outline {p : Property} (hname : Name.isIdentifier p.name = true)
    (hgiven : ∀ text ∈ givenTexts p.type p.initial, '\n' ∉ text.toList) (o : Options) :
    Code.Trimmed (p.outline o) ↔
      (∀ line ∈ p.description, Text.Trimmed line) ∧
      ∀ t ∈ p.annotatedTypes o.annotate, Text.endsVisibly t = true := by
  have htypes : ∀ t ∈ p.type.map Name.shortType, '\n' ∉ t.toList := newline_not_mem_type hgiven
  have hannotated : ∀ t ∈ p.annotatedTypes o.annotate,
      (Text.Trimmed ("@var " ++ t) ↔ Text.endsVisibly t = true) := by
    intro t ht
    have hline : '\n' ∉ ("@var " ++ t).toList := by
      unfold annotatedTypes at ht
      split at ht
      next =>
        have hfree := htypes t (Option.mem_toList.mp ht)
        simp [hfree]
      next => cases ht
    rw [Text.trimmed_iff hline, Text.endsBlank_label (by decide)]
  have hdeclaration : Text.Trimmed (p.settledForm o).declaration := by
    refine Text.trimmed_of_endsVisibly ?_ (Text.endsVisibly_append (by decide) _)
    exact newline_not_mem_declaration hname htypes (newline_not_mem_value hgiven)
  rw [outline, Code.trimmed_append, Comment.trimmed_flushCode, Code.trimmed_line,
    and_iff_left hdeclaration, forall_commentFor (by decide)]
  exact and_congr_right fun _ => forall₂_congr hannotated

/-- No line of a body ends in a blank, whichever way it came in. -/
theorem BodyLine.endsBlank_render (line : BodyLine) : Text.endsBlank line.render = false := by
  cases line with
  | verbatim text => exact Text.endsBlank_trimEnd text
  | statement text =>
    show Text.endsBlank (Statement.terminate text) = false
    unfold Statement.terminate
    split
    next => exact Text.endsBlank_append (by decide) _
    next => rfl
    next => exact Text.endsBlank_trimEnd text
    next => exact Text.endsBlank_trimEnd text

namespace Method

/-- The types that end a line of the class. Only there can a blank at the end of a type be
seen. -/
def closingTypes (m : Method) (annotate : Bool) : List String :=
  if annotate || !m.isBare then (m.returns.mapTypes Name.shortType).render.toList else []

/-- The body of a method is trimmed, whatever its lines are. -/
theorem trimmed_body {m : Method} (h : m.Reachable) :
    Code.Trimmed (m.body.map fun line => .line line.render) := by
  have hlines : m.body.map (fun line => Code.line line.render)
      = (m.body.map BodyLine.render).map .line := List.map_map.symm
  rw [hlines, Code.trimmed_map_line, List.forall_mem_map]
  intro line hline
  have hfree := BodyLine.newline_not_mem_render (h.newline_not_mem_body line hline)
  exact (Text.trimmed_iff hfree).mpr line.endsBlank_render

/-- A signature ends in its return type or in a bracket. -/
theorem endsBlank_signature (m : Method) :
    Text.endsBlank m.signature = false ↔ ∀ t ∈ m.returns.render, Text.endsVisibly t = true := by
  unfold signature
  cases m.returns.render with
  | none =>
    rw [String.append_empty, Text.endsBlank_append (by decide)]
    decide +kernel
  | some t =>
    have hlabel : ∀ front : String, Text.endsBlank (front ++ ": ") = true := fun front =>
      Text.endsBlank_append (by decide) front
    rw [← String.append_assoc, Text.endsBlank_label (hlabel _)]
    simp

/-- All lines of a declaration but the signature are trimmed. A bare signature ends in a
semicolon, and any other in what is returned, if that is stated. -/
theorem trimmed_declaration {m : Method}
    (hbody : Code.Trimmed (m.body.map fun line => .line line.render))
    (hsignature : '\n' ∉ m.signature.toList) :
    Code.Trimmed m.declaration ↔
      (m.isBare = false → ∀ t ∈ m.returns.render, Text.endsVisibly t = true) := by
  unfold declaration
  by_cases hbare : m.isBare = true
  · have hline : Text.Trimmed (m.signature ++ ";") :=
      Text.trimmed_of_endsVisibly (by simp [hsignature]) (Text.endsVisibly_append (by decide) _)
    rw [if_pos hbare, Code.trimmed_line]
    simp [hline, hbare]
  · have hblock : Code.Trimmed [.block "\x7b" (m.body.map fun line => .line line.render)
        (some "\x7d")] :=
      Code.trimmed_block.mpr ⟨by decide, hbody, by decide⟩
    rw [if_neg hbare, ← List.singleton_append, Code.trimmed_append, and_iff_left hblock,
      Code.trimmed_line, Text.trimmed_iff hsignature, endsBlank_signature]
    simp [hbare]

/-- The annotations of parameters and of exceptions end in their names. -/
theorem trimmed_paramLine {p : Param} (hname : Name.isIdentifier p.name = true)
    (htype : ∀ t ∈ p.type, '\n' ∉ t.toList) : Text.Trimmed (Comment.paramLine p) := by
  have hplain := Name.newline_not_mem_identifier hname
  refine Text.trimmed_of_endsVisibly ?_
    (Text.endsVisibly_append (Name.endsVisibly_identifier hname) _)
  unfold Comment.paramLine
  cases ht : p.type with
  | none => simp [hplain]
  | some t =>
    have hfree := htype t ht
    simp [hplain, hfree]

/-- Of the lines of a comment on a method, only the description and the return type are in
doubt. -/
theorem trimmed_signatureComment {m : Method} (h : m.Sound)
    (hgiven : ∀ text ∈ m.givenTexts, '\n' ∉ text.toList) (o : Options) :
    (∀ line ∈ (m.short.signatureComment o).lines, Text.Trimmed line) ↔
      (∀ line ∈ m.description, Text.Trimmed line) ∧
      (o.annotate = true → ∀ t ∈ m.short.returns.render, Text.endsVisibly t = true) := by
  have hparams : ∀ q ∈ m.short.params.members, Text.Trimmed (Comment.paramLine q) := by
    intro q hq
    obtain ⟨p, hp, rfl⟩ := List.mem_map.mp hq
    have hparam := newline_not_mem_param hgiven hp
    exact trimmed_paramLine (h.params.identifiers p.name (List.mem_map_of_mem hp))
      (newline_not_mem_type hparam)
  have hexceptions : ∀ path ∈ m.short.exceptions, Text.Trimmed ("@throws " ++ path) := by
    intro path hpath
    obtain ⟨full, hfull, rfl⟩ := List.mem_map.mp hpath
    have hname := Name.isIdentifier_short (h.exceptions full hfull)
    have hplain := Name.newline_not_mem_identifier hname
    exact Text.trimmed_of_endsVisibly (by simp [hplain])
      (Text.endsVisibly_append (Name.endsVisibly_identifier hname) _)
  have hreturns : ∀ t ∈ m.short.returns.render,
      (Text.Trimmed ("@return " ++ t) ↔ Text.endsVisibly t = true) := by
    intro t ht
    have hfree : '\n' ∉ t.toList :=
      Returns.newline_not_mem_render (fun t ht => hgiven t (List.mem_append_right _ ht)) t ht
    rw [Text.trimmed_iff (by simp [hfree]), Text.endsBlank_label (by decide)]
  rw [forall_signatureComment (by decide)]
  refine and_congr_right fun _ => imp_congr_right fun _ => ?_
  rw [and_iff_right hparams, and_iff_right hexceptions]
  exact forall₂_congr hreturns

/-- A method is trimmed exactly if its description is, and the types that end one of its
lines end visibly. -/
theorem trimmed_outline {m : Method} (h : m.Reachable) (hname : Name.isIdentifier m.name = true)
    (hgiven : ∀ text ∈ m.givenTexts, '\n' ∉ text.toList) (o : Options) :
    Code.Trimmed (m.outline o) ↔
      (∀ line ∈ m.description, Text.Trimmed line) ∧
      ∀ t ∈ m.closingTypes o.annotate, Text.endsVisibly t = true := by
  have hbody := trimmed_body h
  have hdeclaration : Code.Trimmed m.short.declaration ↔
      (m.isBare = false → ∀ t ∈ m.short.returns.render, Text.endsVisibly t = true) :=
    trimmed_declaration (m := m.short) hbody
      (newline_not_mem_short_signature h.sound hname hgiven)
  rw [outline, Code.trimmed_append, Comment.trimmed_flushCode,
    trimmed_signatureComment h.sound hgiven, hdeclaration, and_assoc]
  refine and_congr_right fun _ => ?_
  -- the return type stands at the end of the annotation and at the end of the signature
  by_cases hcloses : (o.annotate || !m.isBare) = true
  · rw [closingTypes, if_pos hcloses]
    simp only [Option.mem_toList]
    rcases Bool.or_eq_true_iff.mp hcloses with hannotate | hbody
    · exact ⟨fun hboth => hboth.1 hannotate, fun hall => ⟨fun _ => hall, fun _ => hall⟩⟩
    · have hbare : m.isBare = false := by simpa using hbody
      exact ⟨fun hboth => hboth.2 hbare, fun hall => ⟨fun _ => hall, fun _ => hall⟩⟩
  · rw [closingTypes, if_neg hcloses]
    simp only [Bool.or_eq_true, Bool.not_eq_true', not_or] at hcloses
    simp [hcloses]

end Method

/-! ## The class and its file -/

namespace Draft

/-- The lines of all descriptions. -/
def descriptions (d : Draft) : List String :=
  d.description ++ d.properties.members.flatMap (·.description)
    ++ d.methods.members.flatMap (·.description)

/-- The types that end a line of the class. -/
def closingTypes (d : Draft) (annotate : Bool) : List String :=
  d.properties.members.flatMap (·.annotatedTypes annotate)
    ++ d.methods.members.flatMap (·.closingTypes annotate)

/-- The sections are trimmed exactly if all members are. The line of the traits ends in a
semicolon. -/
theorem trimmed_sections {d : Draft} (h : d.Built)
    (hgiven : ∀ text ∈ d.givenTexts, '\n' ∉ text.toList) (o : Options) :
    (∀ code ∈ d.outlineSections o, Code.Trimmed code) ↔
      ((∀ p ∈ d.properties.members, ∀ line ∈ p.description, Text.Trimmed line) ∧
        ∀ m ∈ d.methods.members, ∀ line ∈ m.description, Text.Trimmed line) ∧
      ∀ t ∈ d.closingTypes o.annotate, Text.endsVisibly t = true := by
  have horderly := h.reachable.orderly
  have htraits : ∀ code ∈ (if d.shortHeader.traits.toList.isEmpty then []
      else [[Code.line d.shortHeader.traitLine]]), Code.Trimmed code := by
    intro code hcode
    have hline : Text.Trimmed d.shortHeader.traitLine := by
      have hsettled : (d.settled o).traitLine = d.shortHeader.traitLine := by
        rw [settled_eq]
        rfl
      refine Text.trimmed_of_endsVisibly ?_ (Text.endsVisibly_append (by decide) _)
      exact hsettled ▸ (regular_settled h.reachable.regular o).newline_not_mem_traitLine
    split at hcode
    next => cases hcode
    next =>
      rw [List.mem_singleton.mp hcode]
      exact Code.trimmed_line.mpr hline
  have hproperties : ∀ p ∈ d.properties.members, (Code.Trimmed (p.outline o) ↔ _) :=
    fun p hp => Property.trimmed_outline
      (horderly.properties.identifiers p.name (List.mem_map_of_mem hp))
      (newline_not_mem_property hgiven hp) o
  have hmethods : ∀ m ∈ d.methods.members, (Code.Trimmed (m.outline o) ↔ _) :=
    fun m hm => Method.trimmed_outline (h.method_reachable m hm)
      (horderly.methods.identifiers m.name (List.mem_map_of_mem hm))
      (newline_not_mem_method hgiven hm) o
  rw [outlineSections, List.forall_mem_append, List.forall_mem_append, and_iff_right htraits,
    List.forall_mem_map, List.forall_mem_map, forall₂_congr hproperties, forall₂_congr hmethods,
    closingTypes, List.forall_mem_append, List.forall_mem_flatMap, List.forall_mem_flatMap]
  simp only [forall_and]
  exact and_and_and_comm

/-- A class is trimmed exactly if its descriptions are, its own and those of its members,
and the types that end a line end visibly. -/
theorem trimmed_outline {d : Draft} (h : d.Built)
    (hgiven : ∀ text ∈ d.givenTexts, '\n' ∉ text.toList) (o : Options) :
    Code.Trimmed (d.outline o) ↔
      (∀ line ∈ d.descriptions, Text.Trimmed line) ∧
      ∀ t ∈ d.closingTypes o.annotate, Text.endsVisibly t = true := by
  have hopening : Text.Trimmed d.shortHeader.declaration := by
    have hsettled : (d.settled o).declaration = d.shortHeader.declaration := by
      rw [settled_eq]
      rfl
    refine Text.trimmed_of_endsVisibly ?_ (Text.endsVisibly_append (by decide) _)
    exact hsettled ▸ (regular_settled h.reachable.regular o).newline_not_mem_declaration
  have hclosing : Text.Trimmed "\x7d" := by decide
  rw [outline, Code.trimmed_append, Comment.trimmed_flushCode, Code.trimmed_block,
    and_iff_right hopening, and_iff_left hclosing, Code.trimmed_intercalate_blank,
    trimmed_sections h hgiven, descriptions, List.forall_mem_append, List.forall_mem_append,
    List.forall_mem_flatMap, List.forall_mem_flatMap, ← and_assoc, ← and_assoc]

end Draft

/-! ## The file -/

namespace SourceFile

/-- The line that names the namespace, if there is one. -/
def namespaceLines : Option String → List String
  | some path => if path = "" then [] else ["namespace " ++ path ++ ";"]
  | none => []

def useLine (path : String) : String := "use " ++ path ++ ";"

/-- What stands in front of the class. -/
def head (f : SourceFile) : List Code :=
  paragraph (if f.openTag then ["<?php"] else [])
    ++ paragraph (namespaceLines f.copy.draft.inNamespace) ++ paragraph (f.uses.map useLine)

theorem toCode_eq_head_append (f : SourceFile) : f.toCode = f.head ++ f.copy.toCode := by
  unfold toCode head
  cases f.copy.draft.inNamespace <;> rfl

/-- The blank line behind a paragraph is empty. -/
theorem trimmed_paragraph {lines : List String} :
    Code.Trimmed (paragraph lines) ↔ ∀ line ∈ lines, Text.Trimmed line := by
  unfold paragraph
  by_cases hempty : lines.isEmpty = true
  · rw [if_pos hempty, List.isEmpty_iff.mp hempty]
    simpa using Code.trimmed_nil
  · rw [if_neg hempty, Code.trimmed_append, and_iff_left Code.trimmed_blank,
      Code.trimmed_map_line]

theorem flush_paragraph {lines : List String} {r : Row} (h : r ∈ rowsAll (paragraph lines)) :
    r.Flush 0 := by
  unfold paragraph at h
  split at h
  next => cases h
  next =>
    obtain ⟨piece, hpiece, hrow⟩ := Code.mem_rowsAll.mp h
    rcases List.mem_append.mp hpiece with hline | hblank
    · obtain ⟨line, _, rfl⟩ := List.mem_map.mp hline
      rw [Code.rows] at hrow
      exact Code.flush_flushRows hrow
    · rw [List.mem_singleton.mp hblank, Code.rows] at hrow
      exact Code.flush_flushRows hrow

theorem flush_head {f : SourceFile} {r : Row} (h : r ∈ rowsAll f.head) : r.Flush 0 := by
  rw [head, Code.rowsAll_append, Code.rowsAll_append, List.mem_append, List.mem_append] at h
  rcases h with (htag | hnamespace) | huses
  · exact flush_paragraph htag
  · exact flush_paragraph hnamespace
  · exact flush_paragraph huses

/-- The head of a file is trimmed exactly if the line of its namespace and those of its used
paths are. -/
theorem trimmed_head {f : SourceFile} :
    Code.Trimmed f.head ↔
      (∀ line ∈ namespaceLines f.copy.draft.inNamespace, Text.Trimmed line) ∧
      ∀ path ∈ f.uses, Text.Trimmed (useLine path) := by
  have htag : ∀ line ∈ (if f.openTag then ["<?php"] else []), Text.Trimmed line := by
    cases f.openTag <;> decide
  rw [head, Code.trimmed_append, Code.trimmed_append, trimmed_paragraph, trimmed_paragraph,
    trimmed_paragraph, and_iff_right htag, List.forall_mem_map]

end SourceFile

namespace Draft

/-- The lines of a file are single lines if the margin of the draft is one. -/
theorem newline_not_mem_lines_file {d : Draft} (hmargin : '\n' ∉ d.margin.textD.toList)
    (o : Options) :
    ∀ line ∈ Code.lines o.indent (SourceFile.of (d.fairCopy o)).toCode, '\n' ∉ line.toList := by
  rw [SourceFile.toCode_eq_head_append, Code.lines_append, List.forall_mem_append]
  refine ⟨?_, ?_⟩
  · intro line hline
    obtain ⟨r, hr, rfl⟩ := List.mem_map.mp hline
    refine Row.newline_not_mem_print ?_ (Code.newline_not_mem_rowsAll _ r hr) o.indent
    rw [(SourceFile.flush_head hr).margin]
    decide
  · show ∀ line ∈ Code.lines o.indent (d.fairCopy o).toCode, '\n' ∉ line.toList
    rw [lines_fairCopy, List.forall_mem_map]
    intro r hr
    have htext : '\n' ∉ (r.within d.margin.textD).text.toList :=
      Code.newline_not_mem_rowsAll _ r hr
    refine Row.newline_not_mem_print ?_ htext o.indent
    simp [Row.within, (flush_outline hr).margin, hmargin]

/-- In a margin that is one line, a file ends no line in a blank exactly if neither its head
nor the outline of its class does. -/
theorem trimmed_file {d : Draft} (hmargin : '\n' ∉ d.margin.textD.toList) (o : Options) :
    Text.Trimmed (SourceFile.of (d.fairCopy o)).render ↔
      Code.Trimmed (SourceFile.of (d.fairCopy o)).head ∧ Code.Trimmed (d.outline o) := by
  have hfree := newline_not_mem_lines_file hmargin o
  have hclass : (∀ line ∈ Code.lines o.indent (d.fairCopy o).toCode,
      Text.endsBlank line = false) ↔ Code.Trimmed (d.outline o) := by
    rw [lines_fairCopy, List.forall_mem_map]
    simp only [Row.endsBlank_print]
    exact Iff.rfl
  have hhead : (∀ line ∈ Code.lines o.indent (SourceFile.of (d.fairCopy o)).head,
      Text.endsBlank line = false) ↔ Code.Trimmed (SourceFile.of (d.fairCopy o)).head := by
    rw [Code.lines, List.forall_mem_map]
    simp only [Row.endsBlank_print]
    exact Iff.rfl
  have hrender : (SourceFile.of (d.fairCopy o)).render
      = String.join ((Code.lines o.indent (SourceFile.of (d.fairCopy o)).toCode).map (· ++ "\n")) :=
    Code.text_eq _ _
  rw [hrender, Text.trimmed_join_closed hfree, SourceFile.toCode_eq_head_append,
    Code.lines_append, List.forall_mem_append, hhead]
  exact and_congr_right fun _ => hclass

/-- The lines of the head that do not come from the members: the namespace, and the paths that
the draft uses already. -/
def headLines (d : Draft) : List String :=
  SourceFile.namespaceLines d.inNamespace ++ d.uses.toList.map SourceFile.useLine

/-- The paths that settling adds are one line each, so that the line of each ends in its
semicolon only. -/
theorem trimmed_head {d : Draft} (h : d.Built)
    (hgiven : ∀ text ∈ d.givenTexts, '\n' ∉ text.toList) (o : Options) :
    Code.Trimmed (SourceFile.of (d.fairCopy o)).head ↔
      ∀ line ∈ d.headLines, Text.Trimmed line := by
  have hadded : ∀ path ∈ Name.fullPaths d.references,
      Text.Trimmed (SourceFile.useLine path) := by
    intro path hpath
    obtain ⟨⟨ref, href, rfl⟩, _⟩ := Name.mem_fullPaths.mp hpath
    have hline : '\n' ∉ (Name.dropRoot ref).toList := fun hmem =>
      newline_not_mem_reference h hgiven href (Text.mem_of_mem_stripStart hmem)
    refine Text.trimmed_of_endsVisibly ?_ (Text.endsVisibly_append (by decide) _)
    simp [SourceFile.useLine, hline]
  have huses : (SourceFile.of (d.fairCopy o)).uses = (d.uses.addAll d.references).toList := by
    show (d.settled o).uses.toList = _
    rw [settled_eq]
  have hnamespace : (SourceFile.of (d.fairCopy o)).copy.draft.inNamespace = d.inNamespace := by
    show (d.settled o).inNamespace = _
    rw [settled_eq]
    rfl
  rw [SourceFile.trimmed_head, hnamespace, huses, headLines, List.forall_mem_append,
    List.forall_mem_map]
  refine and_congr_right fun _ => ⟨fun hall path hpath => ?_, fun hall path hpath => ?_⟩
  · exact hall path (UseList.mem_addAll.mpr (.inl hpath))
  · rcases UseList.mem_addAll.mp hpath with hknown | hnew
    · exact hall path hknown
    · exact hadded path hnew

/-- **Where a file ends a line in a blank.** In a draft whose margin, types and values are one
line each, no line of the file ends in a blank exactly if none does in the descriptions and in
the lines of its head, and the types that end a line (those that are annotated and those
returned) end in a character that is no blank. Nothing else that is printed can bring a blank
to the end of a line: not a declaration, not an annotated parameter or exception, not a line of
a body, and not the indentation of an empty line. -/
theorem file_trimmed_iff {d : Draft} (h : d.Built) (hmargin : '\n' ∉ d.margin.textD.toList)
    (hgiven : ∀ text ∈ d.givenTexts, '\n' ∉ text.toList) (o : Options) :
    Text.Trimmed (SourceFile.of (d.fairCopy o)).render ↔
      (∀ line ∈ d.headLines, Text.Trimmed line) ∧
      (∀ line ∈ d.descriptions, Text.Trimmed line) ∧
      ∀ t ∈ d.closingTypes o.annotate, Text.endsVisibly t = true := by
  rw [trimmed_file hmargin, trimmed_head h hgiven, trimmed_outline h hgiven]

/-- The margin and lines of the body end in blanks, and a line of the description is empty. -/
theorem file_trimmed_mailer :
    let send : Method :=
      { name := "send", returns := .union ["App\\Receipt", "null"],
        body := [.statement "return null ", .verbatim "  ", .verbatim "// done "] }
    let d := [Edit.setMargin "> ", .setNamespace "App", .addUse "App\\Log",
      .describe "Sends mail.\n\nIn order.",
      .addProperty { name := "queue", type := some "App\\Queue", initial := some (.literal " [] ") },
      .addMethod send].foldl attempt { name := "Mailer" }
    d.Built ∧ '\n' ∉ d.margin.textD.toList ∧ (∀ text ∈ d.givenTexts, '\n' ∉ text.toList) ∧
      Text.Trimmed (SourceFile.of (d.fairCopy {})).render := by
  intro send d
  have hsend : send.Reachable :=
    (((Method.Reachable.named "send").edit (.returning (.union ["App\\Receipt", "null"])) rfl).edit
      (.addStatements "return null ") rfl).edit (.addVerbatim "  \n// done ") rfl
  have hnew : Draft.new .classKind "Mailer" = .ok { name := "Mailer" } := rfl
  have hd : d.Built := by
    refine Built.attempts _ ?_ (.new hnew)
    intro m hm
    have hm : m = send := by simpa using hm
    exact hm ▸ hsend
  have hmargin : '\n' ∉ d.margin.textD.toList := by decide +kernel
  have hgiven : ∀ text ∈ d.givenTexts, '\n' ∉ text.toList := by decide +kernel
  refine ⟨hd, hmargin, hgiven, ?_⟩
  exact (file_trimmed_iff hd hmargin hgiven {}).mpr
    ⟨by decide +kernel, by decide +kernel, by decide +kernel⟩

/-- A description that ends in a blank brings it to the end of a line. -/
theorem described_with_blank :
    let d := [Edit.describe "Sends mail. "].foldl attempt { name := "Mailer" }
    d.Built ∧ '\n' ∉ d.margin.textD.toList ∧ (∀ text ∈ d.givenTexts, '\n' ∉ text.toList) ∧
      (SourceFile.of (d.fairCopy {})).render
        = "<?php\n\n/**\n * Sends mail. \n */\nclass Mailer \x7b\n\x7d\n" ∧
      ¬ Text.Trimmed (SourceFile.of (d.fairCopy {})).render := by
  intro d
  have hnew : Draft.new .classKind "Mailer" = .ok { name := "Mailer" } := rfl
  have hd : d.Built := by
    refine Built.attempts _ ?_ (.new hnew)
    intro m hm
    simp at hm
  exact ⟨hd, by decide +kernel, by decide +kernel, by decide +kernel, by decide +kernel⟩

end Draft

end ClassDraft
