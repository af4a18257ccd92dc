import ClassDraft.Proofs.DocBlock
import ClassDraft.Proofs.Terminators

/-!
# What becomes of an array in quotes

An array that is given inside single quotes is printed without them, and the space that may stand
before its closing bracket is taken away. The bracket is not looked for, though: **every space
right before any closing bracket goes**, that of an inner array or of a string among the elements
as well (`closedUp`). A string that holds such a space is printed as another string
(`string_element_changed`).

So the contents of an array are printed as they are, apart from spaces at their very end, exactly
if they hold no such *gap*. Without one, at most the last space goes
(`keepsContents_of_not_hasGap`); with one, what is printed differs from the contents at the first
of them (`not_keepsContents_of_hasGap`).
-/

namespace ClassDraft

/-! ## Leaving out one character before another -/

namespace Text

section

variable {x y : Char}

/-- Nothing is left out of what comes before the first place where `y` follows on `x`. -/
theorem dropBefore_append {l m : List Char} (hl : ¬ [x, y] <:+: l)
    (hseam : l.getLast? = some x → m.head? ≠ some y) :
    dropBefore x y (l ++ m) = l ++ dropBefore x y m := by
  induction l with
  | nil => rfl
  | cons c rest ih =>
    rw [List.infix_cons_iff, not_or] at hl
    cases rest with
    | nil =>
      cases m with
      | nil => rfl
      | cons d more =>
        have hpair : ¬ (c = x ∧ d = y) := by
          rintro ⟨rfl, rfl⟩
          exact hseam rfl rfl
        rw [List.singleton_append, dropBefore, if_neg hpair]
        rfl
    | cons d more =>
      have hpair : ¬ (c = x ∧ d = y) := by
        rintro ⟨rfl, rfl⟩
        exact hl.1 (List.prefix_append [c, d] more)
      rw [List.getLast?_cons_cons] at hseam
      rw [List.cons_append, List.cons_append, dropBefore, if_neg hpair, ← List.cons_append,
        ih hl.2 hseam]
      rfl

/-- The first of the places where `y` follows on `x`. -/
theorem exists_first_pair {l : List Char} (h : [x, y] <:+: l) :
    ∃ front back, l = front ++ x :: y :: back ∧ ¬ [x, y] <:+: front := by
  induction l with
  | nil => simp at h
  | cons c rest ih =>
    by_cases hhere : [x, y] <+: c :: rest
    · obtain ⟨back, hback⟩ := hhere
      exact ⟨[], back, hback.symm, by simp⟩
    · have hlater : [x, y] <:+: rest := (List.infix_cons_iff.mp h).resolve_left hhere
      obtain ⟨front, back, rfl, hfront⟩ := ih hlater
      refine ⟨c :: front, back, rfl, ?_⟩
      rw [List.infix_cons_iff, not_or]
      refine ⟨fun hstart => hhere ?_, hfront⟩
      rw [← List.cons_append]
      exact hstart.trans (List.prefix_append _ _)

/-- Where `y` follows on `x` somewhere, the text does not stay as it was, whatever follows. -/
theorem dropBefore_append_ne {l : List Char} (hxy : x ≠ y) (h : [x, y] <:+: l)
    (m rest : List Char) : dropBefore x y (l ++ m) ≠ l ++ rest := by
  obtain ⟨front, back, rfl, hfront⟩ := exists_first_pair h
  intro heq
  have hseam : front.getLast? = some x → (x :: y :: (back ++ m)).head? ≠ some y :=
    fun _ hhead => hxy (Option.some.inj hhead)
  rw [List.append_assoc, List.cons_append, List.cons_append, dropBefore_append hfront hseam,
    dropBefore, if_pos ⟨rfl, rfl⟩, List.append_assoc] at heq
  exact hxy (List.cons.inj (List.append_cancel_left heq)).1.symm

end

end Text

namespace Initializer

/-- Some closing bracket has a space right before it. -/
def HasGap (s : String) : Prop := [' ', ']'] <:+: s.toList

instance (s : String) : Decidable (HasGap s) := inferInstanceAs (Decidable (_ <:+: _))

/-- The first character, unless it is a space and a closing bracket comes next. -/
def unlessGap : List Char → Option Char
  | [] => none
  | [c] => some c
  | c :: d :: _ => if c = ' ' ∧ d = ']' then none else some c

/-- A text without the spaces that stand right before closing brackets. -/
def closedUp (s : String) : String := String.ofList (s.toList.tails.filterMap unlessGap)

/-- Whether a character is dropped depends on what follows it, so that the rule goes along
the ends of the text. -/
theorem dropBefore_eq_filterMap_tails (l : List Char) :
    Text.dropBefore ' ' ']' l = l.tails.filterMap unlessGap := by
  fun_induction Text.dropBefore ' ' ']' l with
  | case1 => rfl
  | case2 c => rfl
  | case3 c d rest hpair ih =>
    -- the space is left out, and the bracket behind it is no space
    obtain ⟨rfl, rfl⟩ := hpair
    cases rest <;> simp [unlessGap, ih]
  | case4 c d rest hpair ih =>
    simp [unlessGap, hpair, ih]

/-- The contents of an array are printed between brackets as they are, apart from spaces at their
very end. -/
def KeepsContents (contents printed : String) : Prop :=
  ∃ kept, Text.Extends (· == ' ') kept contents ∧ printed = "[" ++ kept ++ "]"

section

variable (contents : String)

theorem toList_quoted : ("'[" ++ contents ++ "]'").toList
    = '\x27' :: ('[' :: contents.toList ++ [']'] ++ ['\x27']) := by
  simp

theorem trim_quoted : Text.trim ("'[" ++ contents ++ "]'") = "'[" ++ contents ++ "]'" := by
  refine Text.trim_eq_self ?_ ?_
  · rw [toList_quoted, List.head?_cons, Option.any_some]
    rfl
  · rw [Text.endsBlank_append (by decide)]
    rfl

theorem quoted_ne_null : "'[" ++ contents ++ "]'" ≠ "\"null\"" := by
  intro heq
  have hfirst := congrArg (fun s : String => s.toList.head?) heq
  rw [toList_quoted, List.head?_cons] at hfirst
  exact absurd (Option.some.inj hfirst) (by decide)

/-- Whatever is between them, the quotes and brackets at both ends are recognised, also
where there is nothing between them. -/
theorem isQuotedArray_quoted : isQuotedArray ("'[" ++ contents ++ "]'") = true := by
  have hlength : 4 ≤ ("'[" ++ contents ++ "]'").toList.length := by
    rw [toList_quoted]
    simp
  have hstart : Statement.startsWith ("'[" ++ contents ++ "]'") "'[" = true := by
    rw [Statement.startsWith_iff, String.append_assoc, String.toList_append]
    exact List.prefix_append _ _
  have hend : Statement.endsWith ("'[" ++ contents ++ "]'") "]'" = true := by
    rw [Statement.endsWith_iff, String.toList_append]
    exact List.suffix_append _ _
  rw [isQuotedArray, decide_eq_true hlength, hstart, hend]
  rfl

theorem inner_quoted : String.ofList ("'[" ++ contents ++ "]'").toList.tail.dropLast
    = "[" ++ contents ++ "]" := by
  rw [toList_quoted, List.tail_cons, List.dropLast_concat]
  apply String.ext
  simp

/-- The array ends in a bracket, so that no blanks are lost at its end but those before
brackets. -/
theorem unquoteArray_quoted : unquoteArray ("'[" ++ contents ++ "]'")
    = "[" ++ String.ofList (Text.dropBefore ' ' ']' (contents.toList ++ [']'])) := by
  have htrim : Text.trimEnd ("[" ++ contents ++ "]") = "[" ++ contents ++ "]" := by
    refine Text.trimEnd_eq_self ?_
    rw [Text.endsBlank_append (by decide)]
    rfl
  have hlist : ("[" ++ contents ++ "]").toList = ['['] ++ (contents.toList ++ [']']) := by simp
  -- the opening bracket is no space, so that it stays
  have hopening : Text.dropBefore ' ' ']' (['['] ++ (contents.toList ++ [']']))
      = ['['] ++ Text.dropBefore ' ' ']' (contents.toList ++ [']']) :=
    Text.dropBefore_append (by decide) fun hlast => absurd hlast (by decide)
  rw [unquoteArray, inner_quoted, htrim, hlist, hopening]
  apply String.ext
  simp

/-- What is printed for a quoted array is the array with the spaces before closing brackets
gone. -/
theorem render_quoted : (literal ("'[" ++ contents ++ "]'")).render
    = "[" ++ String.ofList (Text.dropBefore ' ' ']' (contents.toList ++ [']'])) := by
  rw [render, tidy, trim_quoted, if_neg (quoted_ne_null contents),
    if_pos (isQuotedArray_quoted contents), unquoteArray_quoted]

end

/-- Without a gap, at most the one space before the last bracket goes. -/
theorem keepsContents_of_not_hasGap {contents : String} (h : ¬ HasGap contents) :
    KeepsContents contents (literal ("'[" ++ contents ++ "]'")).render := by
  have hkept : ∀ kept : String,
      Text.dropBefore ' ' ']' (contents.toList ++ [']']) = kept.toList ++ [']'] →
      (literal ("'[" ++ contents ++ "]'")).render = "[" ++ kept ++ "]" := by
    intro kept hdrop
    rw [render_quoted, hdrop]
    apply String.ext
    simp
  by_cases hend : contents.toList.getLast? = some ' '
  · obtain ⟨front, hfront⟩ := List.getLast?_eq_some_iff.mp hend
    have hgap : ¬ [' ', ']'] <:+: front := by
      intro hin
      rw [HasGap, hfront] at h
      exact h (hin.trans (List.prefix_append _ _).isInfix)
    have hspace : ∀ c ∈ " ".toList, (c == ' ') = true := fun c hc =>
      beq_iff_eq.mpr (List.mem_singleton.mp hc)
    refine ⟨String.ofList front, ⟨" ", hspace, ?_⟩, hkept _ ?_⟩
    · apply String.ext
      rw [hfront, String.toList_append, String.toList_ofList]
      rfl
    · rw [hfront, String.toList_ofList, List.append_assoc,
        Text.dropBefore_append hgap fun _ hhead => absurd hhead (by decide)]
      rfl
  · refine ⟨contents, ⟨"", by simp, String.append_empty.symm⟩, hkept _ ?_⟩
    rw [Text.dropBefore_append h fun hlast => absurd hlast hend]
    rfl

/-- A gap in the contents is closed, and no spaces at their end make up for it. -/
theorem not_keepsContents_of_hasGap {contents : String} (h : HasGap contents) :
    ¬ KeepsContents contents (literal ("'[" ++ contents ++ "]'")).render := by
  rintro ⟨kept, ⟨tail, htail, rfl⟩, hprinted⟩
  have hbracket : ']' ∉ tail.toList := fun hmem => absurd (htail _ hmem) (by decide)
  -- the gap stands in what is kept, for there is no bracket in the spaces behind it
  have hgap : [' ', ']'] <:+: kept.toList := by
    rw [HasGap, String.toList_append, Text.pair_infix_append] at h
    rcases h with hkept | htail | ⟨_, hhead⟩
    · exact hkept
    · exact absurd (htail.subset (by decide)) hbracket
    · exact absurd (List.mem_of_mem_head? hhead) hbracket
  have hlist := congrArg String.toList hprinted
  rw [render_quoted] at hlist
  simp only [String.toList_append, String.toList_ofList, List.append_assoc] at hlist
  exact Text.dropBefore_append_ne (by decide) hgap _ _ (List.append_cancel_left hlist)

/-- **What is printed for an array in single quotes**: its contents between brackets without any
space that stands right before a closing bracket, the last one or one among the contents. The
contents are kept, apart from spaces at their very end, exactly if they have no such gap. -/
theorem quotedArray_printed (contents : String) :
    (literal ("'[" ++ contents ++ "]'")).render = "[" ++ closedUp (contents ++ "]") ∧
    (KeepsContents contents (literal ("'[" ++ contents ++ "]'")).render ↔ ¬ HasGap contents) := by
  refine ⟨?_, ?_, keepsContents_of_not_hasGap⟩
  · rw [render_quoted, dropBefore_eq_filterMap_tails, closedUp, String.toList_append]
    rfl
  · exact fun hkept hgap => not_keepsContents_of_hasGap hgap hkept

/-- The first element is printed as a string of one character less. -/
theorem string_element_changed :
    (literal "'['a ]', 'b']'").render = "['a]', 'b']" ∧
    ¬ KeepsContents "'a ]', 'b'" (literal "'['a ]', 'b']'").render := by
  refine ⟨by decide +kernel, ?_⟩
  have hgap : HasGap "'a ]', 'b'" := by decide
  exact not_keepsContents_of_hasGap hgap

end Initializer

end ClassDraft
