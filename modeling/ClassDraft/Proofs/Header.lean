import ClassDraft.Proofs.Composition
import ClassDraft.Proofs.Terminators

/-!
# Reading a header off its line

The line that opens a class is put together from parts that may be missing, with nothing to tell a
keyword from a name: a class may be called `extends` and inherit from `implements`. Still the line
has one reading. Names and paths hold neither spaces nor commas, so that the line is cut into its
*words* at its spaces (`Header.Sound.pieces_line`), and reading the words from left to right, each
place where a keyword may stand is known before the word there is looked at.

A reader that goes by the places alone (`Header.read?`) gives back the header of every draft that a
history leads to (`Reachable.read?_declaration`). So **drafts that are declared by the same line
have the same kind, modifier, name, base and interfaces**. It takes what every history keeps: the
names are identifiers and the paths are class paths, and an interface has neither a modifier nor a
base, for which its line has no place.
-/

namespace ClassDraft

namespace Text

/-- Words, each with a space in front. -/
def spaced (words : List String) : String := String.join (words.map (" " ++ ·))

theorem spaced_nil : spaced [] = "" := by
  rw [spaced, List.map_nil, String.join_nil]

theorem spaced_cons (word : String) (words : List String) :
    spaced (word :: words) = " " ++ word ++ spaced words := by
  rw [spaced, List.map_cons, String.join_cons, ← spaced]

theorem spaced_append (words more : List String) :
    spaced (words ++ more) = spaced words ++ spaced more := by
  rw [spaced, List.map_append, String.join_append, ← spaced, ← spaced]

/-- A word and others, each with a space in front, are all of them with spaces between. -/
theorem append_spaced (word : String) (words : List String) :
    word ++ spaced words = " ".intercalate (word :: words) := by
  induction words generalizing word with
  | nil => rw [spaced_nil, String.append_empty, String.intercalate_singleton]
  | cons next more ih =>
    rw [spaced_cons, String.intercalate_cons_cons, ← ih, String.append_assoc, String.append_assoc]

end Text

namespace Draft

/-- What the line that opens a class tells. Everything is in it as text, without a proof
that it could be a header. -/
structure Header where
  kind : Kind
  modifier : Option Modifier
  name : String
  base : Option String
  interfaces : List String
deriving DecidableEq

/-- The part of a draft that is on its opening line. -/
def header (d : Draft) : Header where
  kind := d.kind
  modifier := d.modifier
  name := d.name
  base := d.base
  interfaces := d.interfaces.toList

namespace Header

/-! ## The words of a line -/

/-- The names of a list, all but the last with a comma behind them. -/
def listWords : List String → List String
  | [] => []
  | [name] => [name]
  | name :: next :: more => (name ++ ",") :: listWords (next :: more)

/-- The words of a clause: the keyword and the names, with commas as parts of the words they
follow. -/
def clauseWords (keyword : String) (names : List String) : List String :=
  if names.isEmpty then [] else keyword :: listWords names

/-- The words of the line behind the name. -/
def tailWords (h : Header) : List String :=
  (match h.kind with
    | .interfaceKind => clauseWords "extends" h.interfaces
    | .classKind => clauseWords "extends" h.base.toList ++ clauseWords "implements" h.interfaces)
  ++ ["\x7b"]

/-- The words of the opening line, its brace included: a keyword or two, the name, and the
clauses. -/
def words (h : Header) : List String :=
  (match h.kind with
    | .interfaceKind => ["interface"]
    | .classKind => h.modifier.toList.map Modifier.keyword ++ ["class"])
  ++ h.name :: h.tailWords

theorem spaced_listWords :
    ∀ {names : List String}, names ≠ [] →
      Text.spaced (listWords names) = " " ++ ", ".intercalate names
  | [], h => absurd rfl h
  | [name], _ => by
    rw [listWords, Text.spaced_cons, Text.spaced_nil, String.append_empty,
      String.intercalate_singleton]
  | name :: next :: more, _ => by
    have hrest : Text.spaced (listWords (next :: more)) = _ :=
      spaced_listWords (List.cons_ne_nil _ _)
    have hcomma : ", " = "," ++ " " := rfl
    rw [listWords, Text.spaced_cons, hrest, String.intercalate_cons_cons, hcomma]
    simp only [String.append_assoc]

/-- A clause of the declaration is these words, each with a space in front. -/
theorem spaced_clauseWords (keyword : String) (names : List String) :
    Text.spaced (clauseWords keyword names) = clause keyword names := by
  unfold clauseWords clause
  split
  next => exact Text.spaced_nil
  next h =>
    have hne : names ≠ [] := fun hnil => h (List.isEmpty_iff.mpr hnil)
    rw [Text.spaced_cons, spaced_listWords hne]
    simp only [String.append_assoc]

/-- The opening line is its words with spaces between, so that it can be cut at its spaces. -/
theorem declaration_eq (d : Draft) : d.declaration = " ".intercalate d.header.words := by
  have hinterface : "interface " = "interface" ++ " " := rfl
  have hclass : "class " = "class" ++ " " := rfl
  have hbrace : Text.spaced ["\x7b"] = " \x7b" := rfl
  unfold declaration words tailWords
  cases hkind : d.kind with
  | interfaceKind =>
    simp only [header, hkind, List.singleton_append, ← Text.append_spaced, Text.spaced_cons d.name,
      Text.spaced_append, spaced_clauseWords, hbrace, hinterface, String.append_assoc]
  | classKind =>
    cases hmodifier : d.modifier with
    | none =>
      simp only [header, hkind, hmodifier, Option.toList_none, List.map_nil, List.nil_append,
        List.singleton_append, ← Text.append_spaced, Text.spaced_cons d.name, Text.spaced_append,
        spaced_clauseWords, hbrace, hclass, String.append_assoc, String.empty_append]
    | some modifier =>
      simp only [header, hkind, hmodifier, Option.toList_some, List.map_cons, List.map_nil,
        List.cons_append, List.nil_append, ← Text.append_spaced, Text.spaced_cons "class",
        Text.spaced_cons d.name, Text.spaced_append, spaced_clauseWords, hbrace, hclass,
        String.append_assoc]

/-- The name is an identifier, what it refers to are class paths, and an interface has no
modifier and no base. -/
structure Sound (h : Header) : Prop where
  name : Name.isIdentifier h.name = true
  base : ∀ path ∈ h.base.toList, Name.isClassPath path = true
  interfaces : ∀ path ∈ h.interfaces, Name.isClassPath path = true
  noModifier : h.kind = .interfaceKind → h.modifier = none
  noBase : h.kind = .interfaceKind → h.base = none

/-- A class path is a single word. -/
theorem space_not_mem_classPath {path : String} (h : Name.isClassPath path = true) :
    ' ' ∉ path.toList :=
  Name.not_mem_classPath h (by decide) (by decide)

theorem space_not_mem_listWords :
    ∀ {names : List String}, (∀ name ∈ names, ' ' ∉ name.toList) →
      ∀ word ∈ listWords names, ' ' ∉ word.toList
  | [], _ => fun _ hword => nomatch hword
  | [name], h => h
  | name :: next :: more, h => by
    intro word hword
    rw [listWords] at hword
    rcases List.mem_cons.mp hword with rfl | hrest
    · rw [String.toList_append, List.mem_append, not_or]
      exact ⟨h name (List.mem_cons_self ..), by decide⟩
    · exact space_not_mem_listWords (fun other hother => h other (List.mem_cons_of_mem _ hother))
        word hrest

theorem space_not_mem_clauseWords {keyword : String} {names : List String}
    (hkeyword : ' ' ∉ keyword.toList) (hnames : ∀ name ∈ names, Name.isClassPath name = true) :
    ∀ word ∈ clauseWords keyword names, ' ' ∉ word.toList := by
  intro word hword
  unfold clauseWords at hword
  split at hword
  next => cases hword
  next =>
    rcases List.mem_cons.mp hword with rfl | hrest
    · exact hkeyword
    · exact space_not_mem_listWords (fun name hname => space_not_mem_classPath (hnames name hname))
        word hrest

theorem Sound.space_not_mem_words {h : Header} (hsound : h.Sound) :
    ∀ word ∈ h.words, ' ' ∉ word.toList := by
  intro word hword
  rw [words, List.mem_append, List.mem_cons] at hword
  rcases hword with hfront | rfl | htail
  · split at hfront
    next =>
      rw [List.mem_singleton.mp hfront]
      decide
    next =>
      rcases List.mem_append.mp hfront with hmodifier | hclass
      · obtain ⟨modifier, _, rfl⟩ := List.mem_map.mp hmodifier
        cases modifier <;> decide
      · rw [List.mem_singleton.mp hclass]
        decide
  · exact space_not_mem_classPath (Name.isClassPath_of_isIdentifier hsound.name)
  · rcases List.mem_append.mp htail with hclauses | hbrace
    · split at hclauses
      next => exact space_not_mem_clauseWords (by decide) hsound.interfaces word hclauses
      next =>
        rcases List.mem_append.mp hclauses with hbase | hinterfaces
        · exact space_not_mem_clauseWords (by decide) hsound.base word hbase
        · exact space_not_mem_clauseWords (by decide) hsound.interfaces word hinterfaces
    · rw [List.mem_singleton.mp hbrace]
      decide

/-- Cutting a line at its spaces gives its words. -/
theorem Sound.pieces_line {h : Header} (hsound : h.Sound) :
    Text.pieces ' ' (" ".intercalate h.words) = h.words := by
  refine Text.pieces_intercalate rfl ?_ hsound.space_not_mem_words
  unfold words
  exact fun hnil => List.cons_ne_nil _ _ (List.append_eq_nil_iff.mp hnil).2

/-! ## Reading -/

def modifier? (word : String) : Option Modifier :=
  if word = "final" then some .finalClass
  else if word = "abstract" then some .abstractClass
  else none

/-- The names behind a keyword, up to the word that closes the line. -/
def readClause (keyword : String) : List String → List String
  | [] => []
  | word :: rest =>
    if word = keyword then rest.dropLast.map (Text.stripEnd (· == ',')) else []

/-- The base, if one is named, and the words behind it. -/
def readBase : List String → Option String × List String
  | word :: path :: rest =>
    if word = "extends" then (some path, rest) else (none, word :: path :: rest)
  | words => (none, words)

/-- Reads a class behind its keyword: its name, then the base if there is one, then the
interfaces. Nothing is checked about the names. -/
def readClass? (modifier : Option Modifier) : List String → Option Header
  | [] => none
  | name :: rest => some {
      kind := .classKind
      modifier := modifier
      name := name
      base := (readBase rest).1
      interfaces := readClause "implements" (readBase rest).2 }

/-- Reads the words of an opening line. The first word tells which kind it is, since no
keyword is left out. -/
def readWords? : List String → Option Header
  | [] => none
  | word :: rest =>
    if word = "interface" then
      rest.head?.map fun name => {
        kind := .interfaceKind
        modifier := none
        name := name
        base := none
        interfaces := readClause "extends" rest.tail }
    else
      match modifier? word with
      | some modifier => readClass? (some modifier) rest.tail
      | none => readClass? none rest

/-- The header that a line tells, word by word. -/
def read? (line : String) : Option Header := readWords? (Text.pieces ' ' line)

theorem stripEnd_comma {name : String} (h : ',' ∉ name.toList) :
    Text.stripEnd (· == ',') name = name := by
  apply String.ext
  rw [Text.toList_stripEnd, List.rdropWhile_eq_self_iff]
  intro hne hlast
  exact h (beq_iff_eq.mp hlast ▸ List.getLast_mem hne)

theorem stripEnd_append_comma {name : String} (h : ',' ∉ name.toList) :
    Text.stripEnd (· == ',') (name ++ ",") = name := by
  have htail : ∀ c ∈ ",".toList, (c == ',') = true := fun c hc =>
    beq_iff_eq.mpr (List.mem_singleton.mp hc)
  rw [Text.stripEnd_of_extends ⟨",", htail, rfl⟩, stripEnd_comma h]

/-- All names of a list are read back, whichever of them have a comma. -/
theorem map_stripEnd_listWords :
    ∀ {names : List String}, (∀ name ∈ names, ',' ∉ name.toList) →
      (listWords names).map (Text.stripEnd (· == ',')) = names
  | [], _ => rfl
  | [name], h => by
    rw [listWords, List.map_singleton, stripEnd_comma (h name (List.mem_cons_self ..))]
  | name :: next :: more, h => by
    have hrest : (listWords (next :: more)).map (Text.stripEnd (· == ',')) = next :: more :=
      map_stripEnd_listWords fun other hother => h other (List.mem_cons_of_mem _ hother)
    rw [listWords, List.map_cons, stripEnd_append_comma (h name (List.mem_cons_self ..)), hrest]

/-- Where there are no names, the word that closes the line stands in place of the keyword. -/
theorem readClause_clauseWords {keyword : String} {names : List String}
    (hkeyword : "\x7b" ≠ keyword) (hnames : ∀ name ∈ names, Name.isClassPath name = true) :
    readClause keyword (clauseWords keyword names ++ ["\x7b"]) = names := by
  cases names with
  | nil => exact if_neg hkeyword
  | cons name more =>
    show readClause keyword (keyword :: (listWords (name :: more) ++ ["\x7b"])) = _
    rw [readClause, if_pos rfl, List.dropLast_concat, map_stripEnd_listWords]
    exact fun other hother => Name.not_mem_classPath (hnames other hother) (by decide) (by decide)

theorem readBase_of_head? {words : List String} (h : words.head? ≠ some "extends") :
    readBase words = (none, words) := by
  unfold readBase
  split
  next word path rest =>
    have hword : word ≠ "extends" := fun he => h (congrArg some he)
    rw [if_neg hword]
  next => rfl

/-- A base is named behind the keyword `extends`, which otherwise does not stand there. -/
theorem readBase_clauseWords (base : Option String) (interfaces : List String) :
    readBase (clauseWords "extends" base.toList
        ++ (clauseWords "implements" interfaces ++ ["\x7b"]))
      = (base, clauseWords "implements" interfaces ++ ["\x7b"]) := by
  cases base with
  | some path =>
    show readBase ("extends" :: path :: (clauseWords "implements" interfaces ++ ["\x7b"])) = _
    rw [readBase, if_pos rfl]
  | none =>
    refine readBase_of_head? ?_
    cases interfaces with
    | nil => decide
    | cons path more => exact fun hhead => absurd (Option.some.inj hhead) (by decide)

/-- What follows the keyword of a class is read back as the class. Each word is looked at in
its place, so that a name which is a keyword does no harm. -/
theorem readClass?_tailWords {h : Header} (hsound : h.Sound) (hkind : h.kind = .classKind) :
    readClass? h.modifier (h.name :: h.tailWords) = some h := by
  have htail : h.tailWords = clauseWords "extends" h.base.toList
      ++ (clauseWords "implements" h.interfaces ++ ["\x7b"]) := by
    rw [tailWords, hkind, List.append_assoc]
  rw [htail, readClass?, readBase_clauseWords,
    readClause_clauseWords (by decide) hsound.interfaces, ← hkind]

/-- Each keyword stands where the reader looks for it, and where one is missing, the word that
the reader finds in its place is another keyword or the end of the line. -/
theorem readWords?_words {h : Header} (hsound : h.Sound) : readWords? h.words = some h := by
  cases hkind : h.kind with
  | interfaceKind =>
    have hwords : h.words
        = "interface" :: h.name :: (clauseWords "extends" h.interfaces ++ ["\x7b"]) := by
      rw [words, tailWords, hkind]
      rfl
    rw [hwords, readWords?, if_pos rfl, List.head?_cons, List.tail_cons,
      readClause_clauseWords (by decide) hsound.interfaces]
    -- the line has no place for these two, and the interface has neither
    have hmodifier := hsound.noModifier hkind
    have hbase := hsound.noBase hkind
    rw [Option.map_some, ← hkind]
    cases h
    cases hmodifier
    cases hbase
    rfl
  | classKind =>
    have hclass := readClass?_tailWords hsound hkind
    cases hmodifier : h.modifier with
    | none =>
      have hwords : h.words = "class" :: h.name :: h.tailWords := by
        rw [words, hkind, hmodifier]
        rfl
      rw [hmodifier] at hclass
      rw [hwords]
      exact hclass
    | some modifier =>
      have hwords : h.words = modifier.keyword :: "class" :: h.name :: h.tailWords := by
        rw [words, hkind, hmodifier]
        rfl
      rw [hmodifier] at hclass
      rw [hwords]
      cases modifier <;> exact hclass

/-- By its words, a sound header is read back from its line. -/
theorem read?_line {h : Header} (hsound : h.Sound) :
    read? (" ".intercalate h.words) = some h := by
  rw [read?, hsound.pieces_line, readWords?_words hsound]

end Header

/-- The header of a regular draft is sound, which is all that reading it takes. -/
theorem Regular.sound_header {d : Draft} (h : d.Regular) : d.header.Sound where
  name := h.name
  base := h.base
  interfaces := h.interfaces
  noModifier := fun hkind => h.noModifier (beq_iff_eq.mpr hkind)
  noBase := fun hkind => h.noBase (beq_iff_eq.mpr hkind)

/-- **The opening line of a draft can be read back**, whatever history has led to it. -/
theorem Reachable.read?_declaration {d : Draft} (h : d.Reachable) :
    Header.read? d.declaration = some d.header := by
  rw [Header.declaration_eq, Header.read?_line h.regular.sound_header]

/-- **A declaration has one reading.** Two drafts that histories lead to, settled ones included, are
declared by the same line only if they have the same kind, modifier, name, base and interfaces, the
interfaces in the same order. The line holds no line end and ends in a space and a brace. -/
theorem header_of_declaration {d e : Draft} (hd : d.Reachable) (he : e.Reachable) :
    (d.declaration = e.declaration →
      d.kind = e.kind ∧ d.modifier = e.modifier ∧ d.name = e.name ∧ d.base = e.base ∧
        d.interfaces.toList = e.interfaces.toList) ∧
    '\n' ∉ d.declaration.toList ∧ Statement.endsWith d.declaration " \x7b" = true := by
  refine ⟨?_, hd.regular.newline_not_mem_declaration, ?_⟩
  · intro hline
    have hread := hd.read?_declaration
    rw [hline, he.read?_declaration] at hread
    have hheader : e.header = d.header := Option.some.inj hread
    refine ⟨?_, ?_, ?_, ?_, ?_⟩
    · exact (congrArg Header.kind hheader).symm
    · exact (congrArg Header.modifier hheader).symm
    · exact (congrArg Header.name hheader).symm
    · exact (congrArg Header.base hheader).symm
    · exact (congrArg Header.interfaces hheader).symm
  · rw [Statement.endsWith_iff, declaration, String.toList_append]
    exact List.suffix_append _ _

/-- A class that has keywords for names, and one that comes to the same line by being settled. -/
theorem header_of_declaration_keywords :
    let d := [Edit.inheritFrom "implements", .addInterface "class", .addInterface "final"].foldl
      attempt { name := "extends" }
    let e := [Edit.addInterface "App\\class", .inheritFrom "\\implements", .addInterface "final",
      .settle {}].foldl attempt { name := "extends" }
    d.Reachable ∧ e.Reachable ∧
    d.declaration = "class extends extends implements implements class, final \x7b" ∧
    d.declaration = e.declaration ∧ d.base = e.base ∧
    d.interfaces.toList = e.interfaces.toList ∧ '\n' ∉ d.declaration.toList := by
  intro d e
  have hnew : Draft.new .classKind "extends" = .ok { name := "extends" } := rfl
  have hd : d.Reachable := (Reachable.new hnew).attempts _
  have he : e.Reachable := (Reachable.new hnew).attempts _
  have hline : d.declaration = e.declaration := by decide +kernel
  obtain ⟨hheader, hfree, _⟩ := header_of_declaration hd he
  obtain ⟨_, _, _, hbase, hinterfaces⟩ := hheader hline
  exact ⟨hd, he, by decide +kernel, hline, hbase, hinterfaces, hfree⟩

end Draft

end ClassDraft
