import ClassDraft.Proofs.OrderedSet
import ClassDraft.Proofs.Text
import ClassDraft.UseList

/-!
# What shortening gives and what it records

Shortening threads the list of used paths through everything it visits. None of it
depends on that list: a computation gives the same value from every list and
records the same references in it, in the same order. `Refers x value refs` says
so, and it composes along `bind` and `mapM`, so each function on the way needs one
lemma only.

On the plain side stand `Name.lastPart` for a reference, `Name.shortType` for a
type, `Name.typeReferences` for the references a type is made of, and
`Name.fullPaths` for what the references leave in the list.
-/

namespace ClassDraft

namespace Name

/-- To be qualified is nothing more than to hold a separator, wherever it stands. -/
theorem isQualified_eq_false {s : String} : isQualified s = false ↔ separator ∉ s.toList := by
  rw [isQualified, ← Bool.not_eq_true, List.contains_iff_mem]

/-- Short names hold no separator, so that none of them could be recorded as a path. -/
theorem isQualified_short (path : String) : isQualified (short path) = false :=
  isQualified_eq_false.mpr (Text.not_mem_afterLast separator path)

theorem short_eq_self {path : String} (h : isQualified path = false) : short path = path :=
  Text.afterLast_eq_self (isQualified_eq_false.mp h)

theorem dropRoot_eq_self {path : String} (h : isQualified path = false) :
    dropRoot path = path := by
  have hsep := isQualified_eq_false.mp h
  rw [dropRoot, Text.stripStart]
  cases hl : path.toList with
  | nil => rw [List.dropWhile_nil, ← hl, String.ofList_toList]
  | cons c rest =>
    have hne : (c == separator) = false := by
      apply beq_eq_false_iff_ne.mpr
      intro he
      exact hsep (by rw [hl, he]; exact List.mem_cons_self ..)
    rw [List.dropWhile_cons, hne, ← hl]
    exact String.ofList_toList

/-- However many separators stand in front, none is left. -/
theorem head?_dropRoot (path : String) : (dropRoot path).toList.head? ≠ some separator := by
  rw [dropRoot, Text.stripStart, String.toList_ofList]
  intro hhead
  have hstop := List.head?_dropWhile_not (· == separator) path.toList
  rw [hhead] at hstop
  exact absurd hstop (by simp)

/-- The root of a path has no part in its short name. -/
theorem short_dropRoot (path : String) : short (dropRoot path) = short path :=
  Text.afterLast_stripStart separator path

/-- The last of the parts that the separators divide a path into. -/
def lastPart (path : String) : String :=
  String.ofList ((path.toList.splitOn separator).getLastD [])

/-- The short name, which is cut off at the last separator, is the last of the parts. -/
theorem short_eq_lastPart (path : String) : short path = lastPart path :=
  Text.afterLast_eq_getLastD separator path

/-- A part of a type without the question mark it may begin with. -/
def unmarked (part : String) : String :=
  match part.toList with
  | '?' :: inner => String.ofList inner
  | _ => part

/-- A part of a type by its short name; a question mark in front stays. -/
def shortPart (part : String) : String :=
  match part.toList with
  | '?' :: inner => "?" ++ lastPart (String.ofList inner)
  | _ => lastPart part

/-- A type with each of its parts by its short name, whether or not there is anything to
shorten in it. -/
def shortType (type : String) : String :=
  "|".intercalate ((Text.pieces '|' type).map shortPart)

/-- The references a type is made of: its parts, without question marks. -/
def typeReferences (type : String) : List String := (Text.pieces '|' type).map unmarked

/-- What references leave in the list of used paths: each without its leading
separators, if it is then still qualified. -/
def fullPaths (refs : List String) : List String := (refs.map dropRoot).filter isQualified

/-- A part of a type is marked by a question mark or it is not. -/
theorem part_cases (part : String) :
    (∃ inner, part = "?" ++ inner) ∨ ∀ rest, part.toList ≠ '?' :: rest := by
  cases h : part.toList with
  | nil => exact .inr fun rest hr => by cases hr
  | cons c rest =>
    by_cases hc : c = '?'
    · have hpart : part = "?" ++ String.ofList rest := by
        apply String.ext
        simp [h, hc]
      exact .inl ⟨String.ofList rest, hpart⟩
    · exact .inr fun rest hr => hc (List.cons.inj hr).1

theorem unmarked_mark (inner : String) : unmarked ("?" ++ inner) = inner := by
  unfold unmarked
  rw [String.toList_append]
  exact String.ofList_toList

/-- Behind a question mark a part is shortened as if the mark were not there. -/
theorem shortPart_mark (inner : String) : shortPart ("?" ++ inner) = "?" ++ short inner := by
  unfold shortPart
  rw [String.toList_append, short_eq_lastPart]
  exact congrArg (fun s => "?" ++ lastPart s) String.ofList_toList

theorem unmarked_of_ne {part : String} (h : ∀ rest, part.toList ≠ '?' :: rest) :
    unmarked part = part := by
  unfold unmarked
  split
  next rest hr => exact absurd hr (h rest)
  next => rfl

theorem shortPart_of_ne {part : String} (h : ∀ rest, part.toList ≠ '?' :: rest) :
    shortPart part = short part := by
  rw [short_eq_lastPart]
  unfold shortPart
  split
  next rest hr => exact absurd hr (h rest)
  next => rfl

/-- A question mark is no separator, so that a short part is not qualified either. -/
theorem isQualified_shortPart (part : String) : isQualified (shortPart part) = false := by
  rcases part_cases part with ⟨inner, rfl⟩ | hplain
  · rw [shortPart_mark, isQualified_eq_false, String.toList_append, List.mem_append, not_or]
    exact ⟨by decide, isQualified_eq_false.mp (isQualified_short inner)⟩
  · rw [shortPart_of_ne hplain]
    exact isQualified_short part

/-- Neither are short types as a whole: the bars between the parts are no separators. -/
theorem isQualified_shortType (type : String) : isQualified (shortType type) = false := by
  rw [isQualified_eq_false, shortType]
  refine Text.not_mem_intercalate (by decide) ?_
  intro part hpart
  obtain ⟨piece, _, rfl⟩ := List.mem_map.mp hpart
  exact isQualified_eq_false.mp (isQualified_shortPart piece)

/-- A part without a separator is left alone, marked or not. -/
theorem shortPart_eq_self {part : String} (h : isQualified part = false) :
    shortPart part = part := by
  rcases part_cases part with ⟨inner, rfl⟩ | hplain
  · rw [isQualified_eq_false, String.toList_append, List.mem_append, not_or] at h
    rw [shortPart_mark, short_eq_self (isQualified_eq_false.mpr h.2)]
  · rw [shortPart_of_ne hplain, short_eq_self h]

theorem short_short (path : String) : short (short path) = short path :=
  short_eq_self (isQualified_short path)

theorem isQualified_piece {type part : String} (h : isQualified type = false)
    (hpart : part ∈ Text.pieces '|' type) : isQualified part = false := by
  rw [isQualified_eq_false] at h ⊢
  exact fun hsep => h (Text.mem_of_mem_pieces hpart hsep)

/-- A type without a separator comes out as it went in, although it has been cut at its bars
and joined again. -/
theorem shortType_eq_self {type : String} (h : isQualified type = false) :
    shortType type = type := by
  have hmap : (Text.pieces '|' type).map shortPart = Text.pieces '|' type :=
    (List.map_congr_left fun _ hpart => shortPart_eq_self (isQualified_piece h hpart)).trans
      (List.map_id _)
  rw [shortType, hmap]
  exact Text.intercalate_pieces rfl type

/-- A type is shortened once, which is why settling twice shortens no further. -/
theorem shortType_shortType (type : String) : shortType (shortType type) = shortType type :=
  shortType_eq_self (isQualified_shortType type)

/-- A type without a separator refers to nothing that could be recorded. -/
theorem isQualified_typeReference {type ref : String} (h : isQualified type = false)
    (href : ref ∈ typeReferences type) : isQualified ref = false := by
  obtain ⟨part, hpart, rfl⟩ := List.mem_map.mp href
  have hq := isQualified_piece h hpart
  rcases part_cases part with ⟨inner, rfl⟩ | hplain
  · rw [isQualified_eq_false, String.toList_append, List.mem_append, not_or] at hq
    rw [unmarked_mark]
    exact isQualified_eq_false.mpr hq.2
  · rw [unmarked_of_ne hplain]
    exact hq

/-- Whether a reference leaves a path is decided after its root is gone; a rooted global
name leaves none. -/
theorem fullPaths_cons (ref : String) (refs : List String) :
    fullPaths (ref :: refs)
      = if isQualified (dropRoot ref) then dropRoot ref :: fullPaths refs else fullPaths refs := by
  rw [fullPaths, List.map_cons, List.filter_cons]
  rfl

/-- Every path in question comes from a reference, and is qualified without its root. -/
theorem mem_fullPaths {refs : List String} {path : String} :
    path ∈ fullPaths refs ↔ (∃ ref ∈ refs, dropRoot ref = path) ∧ isQualified path = true := by
  rw [fullPaths, List.mem_filter, List.mem_map]

theorem fullPaths_eq_nil {refs : List String} (h : ∀ ref ∈ refs, isQualified ref = false) :
    fullPaths refs = [] := by
  apply List.filter_eq_nil_iff.mpr
  intro path hpath
  obtain ⟨ref, href, rfl⟩ := List.mem_map.mp hpath
  rw [dropRoot_eq_self (h ref href), h ref href]
  exact Bool.false_ne_true

end Name

namespace UseList

/-- Records references one after another. All that settling does to a list of used paths is
of this form. -/
def addAll (uses : UseList) (refs : List String) : UseList := refs.foldl add uses

theorem addAll_nil (uses : UseList) : uses.addAll [] = uses := rfl

theorem addAll_cons (uses : UseList) (ref : String) (refs : List String) :
    uses.addAll (ref :: refs) = (uses.add ref).addAll refs := by
  rw [addAll, List.foldl_cons, ← addAll]

theorem addAll_append (uses : UseList) (refs more : List String) :
    uses.addAll (refs ++ more) = (uses.addAll refs).addAll more :=
  List.foldl_append

/-- Recording references one by one takes their full paths in as a whole. -/
theorem addAll_eq (refs : List String) :
    ∀ uses : UseList, uses.addAll refs = ⟨uses.paths.insertMany (Name.fullPaths refs)⟩ := by
  induction refs with
  | nil => intro uses; rfl
  | cons ref rest ih =>
    intro uses
    rw [addAll_cons, ih, Name.fullPaths_cons, add]
    split
    next => rfl
    next => rfl

/-- The list after recording references: what it held before, then the full paths
among the references, each at its first place. -/
theorem toList_addAll (uses : UseList) (refs : List String) :
    (uses.addAll refs).toList = (uses.toList ++ Name.fullPaths refs).eraseDups := by
  rw [addAll_eq]
  exact OrderedSet.toList_insertMany _ _

/-- References may be recorded in a list of their own that is merged afterwards: they end up
at the same places as if they had been recorded in the one list from the beginning. -/
theorem merge_addAll (uses other : UseList) (refs : List String) :
    uses.merge (other.addAll refs) = (uses.merge other).addAll refs := by
  rw [addAll_eq, addAll_eq, merge, merge, OrderedSet.union_insertMany]

/-- A path is there afterwards if it was before or if a reference brought it in. -/
theorem mem_addAll {uses : UseList} {refs : List String} {path : String} :
    path ∈ (uses.addAll refs).toList ↔ path ∈ uses.toList ∨ path ∈ Name.fullPaths refs := by
  rw [addAll_eq]
  exact OrderedSet.mem_insertMany

/-- A path is looked up in the spelling in which it would be recorded. -/
theorem contains_iff {uses : UseList} {path : String} :
    uses.contains path = true ↔ Name.dropRoot path ∈ uses.toList :=
  decide_eq_true_iff

/-- References without separators leave the list as it is. What is settled already refers to
nothing else. -/
theorem addAll_eq_self {refs : List String} (h : ∀ ref ∈ refs, Name.isQualified ref = false)
    (uses : UseList) : uses.addAll refs = uses := by
  rw [addAll_eq, Name.fullPaths_eq_nil h]
  rfl

variable {α β γ : Type}

/-- Whatever list it starts from, the computation gives `value` and records `refs` in
the list, in this order. -/
def Refers (x : StateM UseList α) (value : α) (refs : List String) : Prop :=
  ∀ uses : UseList, x.run uses = (value, uses.addAll refs)

/-- What computes nothing records nothing. -/
theorem Refers.pure (a : α) : Refers (pure a) a [] := fun _ => rfl

/-- Of two computations the first records first; the second may depend on what the first
gives, but not on the list. -/
theorem Refers.bind {x : StateM UseList α} {f : α → StateM UseList β} {a : α} {b : β}
    {refs more : List String} (hx : Refers x a refs) (hf : Refers (f a) b more) :
    Refers (x >>= f) b (refs ++ more) := by
  intro uses
  -- the second computation starts from the list that the first one leaves
  show (f (x.run uses).1).run (x.run uses).2 = _
  rw [hx uses, hf, addAll_append]

/-- A last step that records nothing. -/
theorem Refers.map {x : StateM UseList α} {a : α} {refs : List String} (hx : Refers x a refs)
    (f : α → β) : Refers (x >>= fun a => Pure.pure (f a)) (f a) refs := by
  have h : Refers (x >>= fun a => Pure.pure (f a)) (f a) (refs ++ []) :=
    hx.bind (Refers.pure (f a))
  rw [List.append_nil] at h
  exact h

/-- Only the full paths among the references count. -/
theorem Refers.congr {x : StateM UseList α} {a : α} {refs refs' : List String}
    (hx : Refers x a refs) (h : Name.fullPaths refs = Name.fullPaths refs') :
    Refers x a refs' := by
  intro uses
  rw [hx uses, addAll_eq, addAll_eq, h]

/-- Along a list the references come in the order of its elements. -/
theorem Refers.mapM {f : α → StateM UseList β} {g : α → β} {refs : α → List String}
    (hf : ∀ a, Refers (f a) (g a) (refs a)) :
    ∀ l : List α, Refers (l.mapM f) (l.map g) (l.flatMap refs) := by
  intro l
  induction l with
  | nil => exact Refers.pure []
  | cons a rest ih =>
    rw [List.mapM_cons, List.map_cons, List.flatMap_cons]
    exact (hf a).bind (ih.map _)

theorem Refers.optionMapM {f : α → StateM UseList β} {g : α → β} {refs : α → List String}
    (hf : ∀ a, Refers (f a) (g a) (refs a)) :
    ∀ x : Option α, Refers (x.mapM f) (x.map g) (x.toList.flatMap refs)
  | none => Refers.pure none
  | some a => by
    have h := (hf a).map some
    rw [← List.flatMap_singleton refs a] at h
    exact h

/-- Referring asks for a separator before it drops the root, and recording asks again. The
cases in which the two answers differ record nothing and have the short name that they ought
to have. -/
theorem refer_refers (path : String) : Refers (refer path) (Name.short path) [path] := by
  have hadd : Refers (modify (·.add path)) PUnit.unit [path] := by
    intro uses
    rw [addAll_cons, addAll_nil]
    rfl
  unfold refer
  split
  next =>
    rw [← Name.short_dropRoot path]
    exact hadd.map fun _ => Name.short (Name.dropRoot path)
  next h =>
    -- nothing is recorded, and recording the path would have left nothing either
    have hq : Name.isQualified path = false := Bool.not_eq_true _ ▸ h
    have hnone : Name.fullPaths [path] = [] :=
      Name.fullPaths_eq_nil fun _ href => List.mem_singleton.mp href ▸ hq
    rw [Name.short_eq_self hq]
    exact (Refers.pure path).congr hnone.symm

theorem mapM_refer_refers (paths : List String) :
    Refers (paths.mapM refer) (paths.map Name.short) paths := by
  have h := Refers.mapM refer_refers paths
  rw [List.flatMap_singleton'] at h
  exact h

/-- A part records what is behind its question mark, and gives the mark back. -/
theorem referPart_refers (part : String) :
    Refers (referPart part) (Name.shortPart part) [Name.unmarked part] := by
  rcases Name.part_cases part with ⟨inner, rfl⟩ | hplain
  · rw [Name.shortPart_mark, Name.unmarked_mark]
    have h : referPart ("?" ++ inner) = refer inner >>= fun short => pure ("?" ++ short) := by
      unfold referPart
      rw [String.toList_append]
      exact congrArg (fun s => refer s >>= fun short => pure ("?" ++ short)) String.ofList_toList
    rw [h]
    exact (refer_refers inner).map ("?" ++ ·)
  · rw [Name.shortPart_of_ne hplain, Name.unmarked_of_ne hplain]
    unfold referPart
    split
    next rest hr => exact absurd hr (hplain rest)
    next => exact refer_refers part

/-- A type gives its short form and records the references it is made of. That a type
without a separator is passed over at once makes no difference. -/
theorem shorten_refers (type : String) :
    Refers (shorten type) (Name.shortType type) (Name.typeReferences type) := by
  unfold shorten
  split
  next =>
    have h := (Refers.mapM referPart_refers (Text.pieces '|' type)).map ("|".intercalate ·)
    rw [← List.map_eq_flatMap] at h
    exact h
  next h =>
    have hq : Name.isQualified type = false := Bool.not_eq_true _ ▸ h
    rw [Name.shortType_eq_self hq]
    have hnone : Name.fullPaths (Name.typeReferences type) = [] :=
      Name.fullPaths_eq_nil fun _ href => Name.isQualified_typeReference hq href
    exact (Refers.pure type).congr hnone.symm

end UseList

end ClassDraft
