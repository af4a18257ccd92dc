import ClassDraft.Proofs.Composition
import ClassDraft.Proofs.ConstantNames
import Mathlib.Data.List.DropRight

/-!
# What is written on one line

A text that holds a line end is written as several lines. Descriptions and bodies are cut at
their line ends when they come in, and names are checked, but types and values are taken as
they are given. These are the *given texts* of a draft. Where none of them holds a line end,
nothing that is made from them does: shortening a type, tidying a value and stripping a line of
code only leave characters out, or put in some that are no line ends.

So **every declaration, every signature and every line of a body is one line**
(`Property.newline_not_mem_declaration`, `Method.newline_not_mem_signature`,
`Method.Reachable.newline_not_mem_body`). The last of these needs nothing of the given texts;
it holds of every method that its own steps lead to.
-/

namespace ClassDraft

/-! ## Texts that lose characters -/

namespace Text

theorem toList_stripStart (p : Char → Bool) (s : String) :
    (stripStart p s).toList = s.toList.dropWhile p :=
  String.toList_ofList

theorem toList_stripEnd (p : Char → Bool) (s : String) :
    (stripEnd p s).toList = s.toList.rdropWhile p :=
  String.toList_ofList

theorem mem_of_mem_stripStart {p : Char → Bool} {s : String} {c : Char}
    (h : c ∈ (stripStart p s).toList) : c ∈ s.toList := by
  rw [toList_stripStart] at h
  exact (List.dropWhile_suffix p).mem h

theorem mem_of_mem_stripEnd {p : Char → Bool} {s : String} {c : Char}
    (h : c ∈ (stripEnd p s).toList) : c ∈ s.toList := by
  rw [toList_stripEnd] at h
  exact (List.rdropWhile_prefix p s.toList).mem h

theorem mem_of_mem_afterLast {sep : Char} {s : String} {c : Char}
    (h : c ∈ (afterLast sep s).toList) : c ∈ s.toList := by
  rw [afterLast, String.toList_ofList, List.mem_reverse] at h
  exact List.mem_reverse.mp ((List.takeWhile_prefix _).mem h)

theorem mem_of_mem_dropBefore {a b c : Char} {l : List Char} (h : c ∈ dropBefore a b l) :
    c ∈ l := by
  fun_induction dropBefore a b l with
  | case1 => exact h
  | case2 => exact h
  | case3 first second rest hpair ih =>
    -- the first character is left out and the second stays
    rcases List.mem_cons.mp h with rfl | hrest
    · exact List.mem_cons_of_mem _ (hpair.2 ▸ List.mem_cons_self ..)
    · exact List.mem_cons_of_mem _ (List.mem_cons_of_mem _ (ih hrest))
  | case4 first second rest _ ih =>
    rcases List.mem_cons.mp h with rfl | hrest
    · exact List.mem_cons_self ..
    · exact List.mem_cons_of_mem _ (ih hrest)

theorem mem_of_mem_dropReturn {line : List Char} {c : Char} (h : c ∈ dropReturn line) :
    c ∈ line := by
  unfold dropReturn at h
  split at h
  next => exact (List.dropLast_prefix line).mem h
  next => exact h

/-- Every line of a text comes from one of its pieces, with a carriage return less at most. -/
theorem exists_of_mem_closedLines {pieces : List (List Char)} {line : List Char}
    (h : line ∈ closedLines pieces) : ∃ piece ∈ pieces, ∀ c ∈ line, c ∈ piece := by
  fun_induction closedLines pieces with
  | case1 => cases h
  | case2 => cases h
  | case3 last _ => exact ⟨line, h, fun _ hc => hc⟩
  | case4 piece next more ih =>
    rcases List.mem_cons.mp h with rfl | hrest
    · exact ⟨piece, List.mem_cons_self .., fun _ hc => mem_of_mem_dropReturn hc⟩
    · obtain ⟨other, hother, hsub⟩ := ih hrest
      exact ⟨other, List.mem_cons_of_mem _ hother, hsub⟩

theorem newline_not_mem_lines {s line : String} (h : line ∈ lines s) : '\n' ∉ line.toList := by
  obtain ⟨chars, hchars, rfl⟩ := List.mem_map.mp h
  rw [String.toList_ofList]
  obtain ⟨piece, hpiece, hsub⟩ := exists_of_mem_closedLines hchars
  exact fun hmem => not_mem_of_mem_piecesOf hpiece (hsub _ hmem)

theorem newline_not_mem_trimEnd {s : String} (h : '\n' ∉ s.toList) :
    '\n' ∉ (trimEnd s).toList :=
  fun hmem => h (mem_of_mem_stripEnd hmem)

end Text

namespace Name

/-- Shortening a part of a type adds no line end, with a question mark in front or without. -/
theorem newline_not_mem_shortPart {part : String} (h : '\n' ∉ part.toList) :
    '\n' ∉ (shortPart part).toList := by
  rcases part_cases part with ⟨inner, rfl⟩ | hplain
  · rw [String.toList_append, List.mem_append, not_or] at h
    rw [shortPart_mark, String.toList_append, List.mem_append, not_or]
    exact ⟨h.1, fun hmem => h.2 (Text.mem_of_mem_afterLast hmem)⟩
  · rw [shortPart_of_ne hplain]
    exact fun hmem => h (Text.mem_of_mem_afterLast hmem)

/-- A short type is on one line if the type is: the bars between its parts are no line ends. -/
theorem newline_not_mem_shortType {type : String} (h : '\n' ∉ type.toList) :
    '\n' ∉ (shortType type).toList := by
  refine Text.not_mem_intercalate (by decide) ?_
  intro part hpart
  obtain ⟨piece, hpiece, rfl⟩ := List.mem_map.mp hpart
  exact newline_not_mem_shortPart fun hmem => h (Text.mem_of_mem_pieces hpiece hmem)

theorem newline_not_mem_typeReference {type ref : String} (h : '\n' ∉ type.toList)
    (href : ref ∈ typeReferences type) : '\n' ∉ ref.toList := by
  obtain ⟨part, hpart, rfl⟩ := List.mem_map.mp href
  have hfree : '\n' ∉ part.toList := fun hmem => h (Text.mem_of_mem_pieces hpart hmem)
  rcases part_cases part with ⟨inner, rfl⟩ | hplain
  · rw [String.toList_append, List.mem_append, not_or] at hfree
    rw [unmarked_mark]
    exact hfree.2
  · rw [unmarked_of_ne hplain]
    exact hfree

/-- An identifier in capitals is on one line, since its letters have single letters for
capitals. -/
theorem newline_not_mem_upper {name : String} (h : isIdentifier name = true) :
    '\n' ∉ (Text.upper name).toList := by
  rw [toList_upper h]
  intro hmem
  obtain ⟨c, hc, hcase⟩ := List.mem_map.mp hmem
  have hcontinues := (upperChar_of_continuesIdentifier (continues_of_mem_identifier h hc)).2
  rw [hcase] at hcontinues
  cases hcontinues

end Name

/-! ## Types and values -/

/-- Tidying only takes characters away, so that a value stays on one line. -/
theorem Initializer.newline_not_mem_tidy {text : String} (h : '\n' ∉ text.toList) :
    '\n' ∉ (tidy text).toList := by
  have htrim : '\n' ∉ (Text.trim text).toList := fun hmem =>
    h (Text.mem_of_mem_stripEnd (Text.mem_of_mem_stripStart hmem))
  have harray : '\n' ∉ (unquoteArray (Text.trim text)).toList := by
    intro hmem
    rw [unquoteArray, String.toList_ofList] at hmem
    have hinner := Text.mem_of_mem_stripEnd (Text.mem_of_mem_dropBefore hmem)
    rw [String.toList_ofList] at hinner
    exact htrim (List.mem_of_mem_tail ((List.dropLast_prefix _).mem hinner))
  unfold tidy
  dsimp only
  split
  next => decide
  next =>
    split
    next => exact harray
    next => exact htrim

/-- The texts that a declaration takes as they are given: a type, and a value if it is a
literal. -/
def givenTexts (type : Option String) (initial : Option Initializer) : List String :=
  type.toList ++ match initial with
    | some (.literal text) => [text]
    | _ => []

/-- The type of a member is on one line once it is shortened, if it was given on one. -/
theorem newline_not_mem_type {type : Option String} {initial : Option Initializer}
    (h : ∀ text ∈ givenTexts type initial, '\n' ∉ text.toList) :
    ∀ t ∈ type.map Name.shortType, '\n' ∉ t.toList := by
  rintro t ht
  obtain ⟨full, hfull, rfl⟩ := Option.map_eq_some_iff.mp ht
  refine Name.newline_not_mem_shortType (h full (List.mem_append_left _ ?_))
  exact Option.mem_toList.mpr hfull

/-- The initial value of a member is on one line in print, if it was given on one. -/
theorem newline_not_mem_value {type : Option String} {initial : Option Initializer}
    (h : ∀ text ∈ givenTexts type initial, '\n' ∉ text.toList) :
    ∀ value ∈ initial, '\n' ∉ value.render.toList := by
  rintro value hvalue
  cases value with
  | null => decide
  | literal text =>
    show '\n' ∉ (Initializer.tidy text).toList
    refine Initializer.newline_not_mem_tidy (h text (List.mem_append_right _ ?_))
    rw [Option.mem_def.mp hvalue]
    exact List.mem_singleton_self text

/-- What is returned is on one line in print, be it one type or a union. -/
theorem Returns.newline_not_mem_render {r : Returns} (h : ∀ t ∈ r.types, '\n' ∉ t.toList) :
    ∀ t ∈ (r.mapTypes Name.shortType).render, '\n' ∉ t.toList := by
  intro t ht
  cases r with
  | unstated => cases ht
  | single type =>
    cases ht
    exact Name.newline_not_mem_shortType (h type (List.mem_singleton_self _))
  | union types =>
    cases types with
    | nil => cases ht
    | cons first rest =>
      cases ht
      refine Text.not_mem_intercalate (by decide) ?_
      intro part hpart
      obtain ⟨full, hfull, rfl⟩ := List.mem_map.mp hpart
      exact Name.newline_not_mem_shortType (h full hfull)

/-! ## Declarations and signatures -/

theorem Access.newline_not_mem_keyword (a : Access) : '\n' ∉ a.keyword.toList := by
  cases a <;> decide

/-- The property may have its type in short; what counts is what is printed of it. -/
theorem Property.newline_not_mem_declaration {p : Property}
    (hname : Name.isIdentifier p.name = true) (htype : ∀ t ∈ p.type, '\n' ∉ t.toList)
    (hvalue : ∀ value ∈ p.initial, '\n' ∉ value.render.toList) : '\n' ∉ p.declaration.toList := by
  have hkeyword := p.access.newline_not_mem_keyword
  have hdeclared : '\n' ∉ p.declared.toList := by
    have hplain := Name.newline_not_mem_identifier hname
    have hupper := Name.newline_not_mem_upper hname
    unfold declared
    split
    next => simp [hkeyword, hupper]
    next =>
      cases ht : p.type with
      | none => cases p.isStatic <;> simp [hkeyword, hplain]
      | some t =>
        have hfree := htype t ht
        cases p.isStatic <;> simp [hkeyword, hplain, hfree]
  unfold declaration
  cases hv : p.initial with
  | none => simp [hdeclared]
  | some value =>
    have hfree := hvalue value hv
    simp [hdeclared, hfree]

/-- A parameter is on one line if its type and its initial value are; its name is an
identifier. -/
theorem Param.newline_not_mem_render {p : Param} (hname : Name.isIdentifier p.name = true)
    (htype : ∀ t ∈ p.type, '\n' ∉ t.toList)
    (hvalue : ∀ value ∈ p.initial, '\n' ∉ value.render.toList) : '\n' ∉ p.render.toList := by
  have hplain := Name.newline_not_mem_identifier hname
  unfold render
  cases ht : p.type with
  | none =>
    cases hv : p.initial with
    | none => simp [hplain]
    | some value =>
      have hfree := hvalue value hv
      simp [hplain, hfree]
  | some t =>
    have htfree := htype t ht
    cases hv : p.initial with
    | none => simp [hplain, htfree]
    | some value =>
      have hfree := hvalue value hv
      simp [hplain, htfree, hfree]

/-- A list of parameters is on one line if each of them is, in whatever order they are
printed. -/
theorem Param.newline_not_mem_renderList {params : List Param}
    (h : ∀ p ∈ params, '\n' ∉ p.render.toList) : '\n' ∉ (renderList params).toList := by
  refine Text.not_mem_intercalate (by decide) ?_
  intro part hpart
  obtain ⟨p, hp, rfl⟩ := List.mem_map.mp hpart
  rcases List.mem_append.mp hp with hrequired | hoptional
  · exact h p (List.mem_of_mem_filter hrequired)
  · exact h p (List.mem_of_mem_filter hoptional)

/-- A signature is on one line if its parameters and what is returned are. -/
theorem Method.newline_not_mem_signature {m : Method} (hname : Name.isIdentifier m.name = true)
    (hparams : ∀ p ∈ m.params.members, '\n' ∉ p.render.toList)
    (hreturns : ∀ t ∈ m.returns.render, '\n' ∉ t.toList) : '\n' ∉ m.signature.toList := by
  have hkeyword := (if m.isBare then Access.everyone else m.access).newline_not_mem_keyword
  have hplain := Name.newline_not_mem_identifier hname
  have hlist := Param.newline_not_mem_renderList hparams
  have hstatic : '\n' ∉ (if m.isStatic then " static" else "").toList := by
    cases m.isStatic <;> decide
  unfold signature
  cases ht : m.returns.render with
  | none => simp [hkeyword, hstatic, hplain, hlist]
  | some t =>
    have hfree := hreturns t ht
    simp [hkeyword, hstatic, hplain, hlist, hfree]

/-! ## The lines of a body -/

/-- The line as it was added. -/
def BodyLine.text : BodyLine → String
  | statement text => text
  | verbatim text => text

theorem BodyLine.newline_not_mem_render {line : BodyLine} (h : '\n' ∉ line.text.toList) :
    '\n' ∉ line.render.toList := by
  have htrim := Text.newline_not_mem_trimEnd h
  cases line with
  | verbatim text => exact htrim
  | statement text =>
    show '\n' ∉ (Statement.terminate text).toList
    have hbare : '\n' ∉ (Statement.dropSemicolons (Text.trimEnd text)).toList := fun hmem =>
      htrim (Text.mem_of_mem_stripEnd hmem)
    unfold Statement.terminate
    split
    next => simp [hbare]
    next => decide
    next => exact htrim
    next => exact htrim

/-- A line out of a longer text is kept without its terminator, whichever way it goes. -/
theorem BodyLine.text_ofSource (line : String) :
    (ofSource line).text = Statement.dropSemicolons (Text.trimEnd line) := by
  unfold ofSource
  dsimp only
  split
  next => rfl
  next => rfl

/-- A line out of a text stays one line when its terminator is taken off. -/
theorem BodyLine.newline_not_mem_ofSource {line : String} (h : '\n' ∉ line.toList) :
    '\n' ∉ (ofSource line).text.toList := by
  rw [text_ofSource]
  exact fun hmem => Text.newline_not_mem_trimEnd h (Text.mem_of_mem_stripEnd hmem)

namespace Method

/-- Parameters have no part in the body. -/
theorem body_addParams (params : List Param) :
    ∀ {m m' : Method}, m.addParams params = .ok m' → m'.body = m.body := by
  induction params with
  | nil =>
    intro m m' hok
    cases hok
    rfl
  | cons p rest ih =>
    intro m m' hok
    rw [addParams_cons] at hok
    cases hp : m.addParam p with
    | error fault =>
      rw [hp] at hok
      cases hok
    | ok next =>
      rw [hp] at hok
      obtain ⟨_, _, hnext⟩ := addParam_ok hp
      have hbody : next.body = m.body := by rw [hnext]
      exact (ih (m := next) hok).trans hbody

/-- The lines that a step adds to a body. -/
def Edit.bodyLines : Edit → List BodyLine
  | .addStatements text => (Text.pieces '\n' text).map .statement
  | .addVerbatim text => (Text.pieces '\n' text).map .verbatim
  | .addSource text => (Text.lines text).map .ofSource
  | _ => []

/-- A step leaves the lines of a body as they are and adds its own behind them. -/
theorem body_edit {m m' : Method} {change : Edit} (hok : m.edit change = .ok m') :
    m'.body = m.body ++ change.bodyLines := by
  cases change with
  | addStatements _ | addVerbatim _ | addSource _ =>
    cases hok
    rfl
  | access keyword =>
    cases hkeyword : Access.parse keyword with
    | error fault =>
      rw [edit, hkeyword] at hok
      cases hok
    | ok access =>
      rw [edit, hkeyword] at hok
      cases hok
      exact (List.append_nil _).symm
  | addParam p =>
    obtain ⟨_, _, rfl⟩ := addParam_ok hok
    exact (List.append_nil _).symm
  | addParams params => exact (body_addParams params hok).trans (List.append_nil _).symm
  | raising paths =>
    obtain ⟨_, rfl⟩ := addExceptions_ok hok
    exact (List.append_nil _).symm
  | describe _ | returning _ | setStatic _ | bare | setMargin _ =>
    cases hok
    exact (List.append_nil _).symm

/-- Whichever way lines come into a body, the text that they come from was cut at its line
ends first. -/
theorem newline_not_mem_bodyLines {change : Edit} :
    ∀ line ∈ change.bodyLines, '\n' ∉ line.text.toList := by
  intro line hline
  cases change with
  | addStatements text | addVerbatim text =>
    obtain ⟨piece, hpiece, rfl⟩ := List.mem_map.mp hline
    exact Text.not_mem_of_mem_pieces hpiece
  | addSource text =>
    obtain ⟨source, hsource, rfl⟩ := List.mem_map.mp hline
    exact BodyLine.newline_not_mem_ofSource (Text.newline_not_mem_lines hsource)
  | _ => cases hline

/-- The lines of a body hold no line end, by whatever steps they came in. -/
theorem Reachable.newline_not_mem_body {m : Method} (h : m.Reachable) :
    ∀ line ∈ m.body, '\n' ∉ line.text.toList := by
  induction h with
  | named name =>
    intro line hline
    cases hline
  | edit change _ hok ih =>
    intro line hline
    rw [body_edit hok, List.mem_append] at hline
    rcases hline with hold | hnew
    · exact ih line hold
    · exact newline_not_mem_bodyLines line hnew
  | settle o uses _ ih =>
    rw [settle_refers _ o uses]
    exact ih

end Method

/-! ## Whole methods and drafts -/

namespace Method

/-- The texts of a method that are taken as they are given. -/
def givenTexts (m : Method) : List String :=
  m.params.members.flatMap (fun p => ClassDraft.givenTexts p.type p.initial) ++ m.returns.types

theorem newline_not_mem_param {m : Method} (hgiven : ∀ text ∈ m.givenTexts, '\n' ∉ text.toList)
    {p : Param} (hp : p ∈ m.params.members) :
    ∀ text ∈ ClassDraft.givenTexts p.type p.initial, '\n' ∉ text.toList := fun text htext =>
  hgiven text (List.mem_append_left _ (List.mem_flatMap.mpr ⟨p, hp, htext⟩))

/-- A sound method with texts on single lines has a short signature on a single line. -/
theorem newline_not_mem_short_signature {m : Method} (h : m.Sound)
    (hname : Name.isIdentifier m.name = true)
    (hgiven : ∀ text ∈ m.givenTexts, '\n' ∉ text.toList) : '\n' ∉ m.short.signature.toList := by
  refine newline_not_mem_signature hname ?_ ?_
  · intro q hq
    obtain ⟨p, hp, rfl⟩ := List.mem_map.mp hq
    have hparam := newline_not_mem_param hgiven hp
    exact Param.newline_not_mem_render (h.params.identifiers p.name (List.mem_map_of_mem hp))
      (newline_not_mem_type hparam) (newline_not_mem_value hparam)
  · exact Returns.newline_not_mem_render fun t ht => hgiven t (List.mem_append_right _ ht)

/-- Nothing that such a method refers to holds a line end. -/
theorem newline_not_mem_reference {m : Method} (h : m.Sound)
    (hgiven : ∀ text ∈ m.givenTexts, '\n' ∉ text.toList) {ref : String}
    (href : ref ∈ m.references) : '\n' ∉ ref.toList := by
  simp only [references, List.mem_append, List.mem_flatMap] at href
  rcases href with (⟨p, hp, hin⟩ | ⟨type, htype, hin⟩) | hexception
  · obtain ⟨type, htype, hin⟩ := List.mem_flatMap.mp hin
    have hfree := newline_not_mem_param hgiven hp type (List.mem_append_left _ htype)
    exact Name.newline_not_mem_typeReference hfree hin
  · exact Name.newline_not_mem_typeReference (hgiven type (List.mem_append_right _ htype)) hin
  · exact Name.newline_not_mem_classPath (h.exceptions ref hexception)

end Method

namespace Draft

/-- The texts of a draft that are taken as they are given: the types and the values of its
members. -/
def givenTexts (d : Draft) : List String :=
  d.properties.members.flatMap (fun p => ClassDraft.givenTexts p.type p.initial)
    ++ d.methods.members.flatMap Method.givenTexts

/-- What is given for a property is among what is given for the draft. -/
theorem newline_not_mem_property {d : Draft} (hgiven : ∀ text ∈ d.givenTexts, '\n' ∉ text.toList)
    {p : Property} (hp : p ∈ d.properties.members) :
    ∀ text ∈ ClassDraft.givenTexts p.type p.initial, '\n' ∉ text.toList := fun text htext =>
  hgiven text (List.mem_append_left _ (List.mem_flatMap.mpr ⟨p, hp, htext⟩))

/-- What is given for a method is among what is given for the draft. -/
theorem newline_not_mem_method {d : Draft} (hgiven : ∀ text ∈ d.givenTexts, '\n' ∉ text.toList)
    {m : Method} (hm : m ∈ d.methods.members) : ∀ text ∈ m.givenTexts, '\n' ∉ text.toList :=
  fun text htext => hgiven text (List.mem_append_right _ (List.mem_flatMap.mpr ⟨m, hm, htext⟩))

/-- What a draft refers to is one line each, where its given texts are. -/
theorem newline_not_mem_reference {d : Draft} (h : d.Built)
    (hgiven : ∀ text ∈ d.givenTexts, '\n' ∉ text.toList) {ref : String}
    (href : ref ∈ d.references) : '\n' ∉ ref.toList := by
  have hregular := h.reachable.regular
  simp only [references, List.mem_append, List.mem_flatMap] at href
  rcases href with (((hbase | hinterface) | htrait) | ⟨p, hp, hin⟩) | ⟨m, hm, hin⟩
  · exact Name.newline_not_mem_classPath (hregular.base ref hbase)
  · exact Name.newline_not_mem_classPath (hregular.interfaces ref hinterface)
  · exact Name.newline_not_mem_classPath (hregular.traits ref htrait)
  · obtain ⟨type, htype, hin⟩ := List.mem_flatMap.mp hin
    have hfree := newline_not_mem_property hgiven hp type (List.mem_append_left _ htype)
    exact Name.newline_not_mem_typeReference hfree hin
  · exact Method.newline_not_mem_reference (h.method_reachable m hm).sound
      (newline_not_mem_method hgiven hm) hin

end Draft

end ClassDraft
