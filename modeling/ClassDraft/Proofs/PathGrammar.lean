import ClassDraft.Proofs.ClassPath
import Mathlib.Data.List.Induction

/-!
# The grammar of class paths

Class paths are told by one procedure and shortened by another. The first takes one separator off
the front, cuts what is left and looks at every piece; the second takes off all separators in
front and looks for the last one in the rest. Both agree, since no part of a path is empty: behind
the root there is no second separator to be taken off.

So a text is **accepted exactly if it is a list of identifiers joined by separators, with at most
one more in front**, and that list is the only one (`Spells.parts_unique`). Referring to such a
text gives the last identifier, and what it records is the joined list, if that has a separator at
all.
-/

namespace ClassDraft

namespace Name

/-! ## Identifiers -/

/-- The letters of the basic alphabet, by their code points. -/
def IsLetter (c : Char) : Prop := 'A' ≤ c ∧ c ≤ 'Z' ∨ 'a' ≤ c ∧ c ≤ 'z'

/-- The ten digits, by their code points. -/
def IsDigit (c : Char) : Prop := '0' ≤ c ∧ c ≤ '9'

/-- The grammar of identifiers: `[A-Za-z_]` and then any number of `[A-Za-z0-9_]`. -/
inductive Word : List Char → Prop where
  | first {c : Char} : IsLetter c ∨ c = '_' → Word [c]
  | next {chars : List Char} {c : Char} :
    Word chars → IsLetter c ∨ IsDigit c ∨ c = '_' → Word (chars ++ [c])

theorem isAlpha_iff_isLetter {c : Char} : c.isAlpha = true ↔ IsLetter c := by
  have hupper : c.isUpper = true ↔ 'A' ≤ c ∧ c ≤ 'Z' := decide_eq_true_iff
  have hlower : c.isLower = true ↔ 'a' ≤ c ∧ c ≤ 'z' :=
    Bool.and_eq_true_iff.trans (Iff.and decide_eq_true_iff decide_eq_true_iff)
  exact Bool.or_eq_true_iff.trans (Iff.or hupper hlower)

theorem startsIdentifier_iff {c : Char} : startsIdentifier c = true ↔ IsLetter c ∨ c = '_' :=
  Bool.or_eq_true_iff.trans (Iff.or isAlpha_iff_isLetter beq_iff_eq)

theorem continuesIdentifier_iff {c : Char} :
    continuesIdentifier c = true ↔ IsLetter c ∨ IsDigit c ∨ c = '_' := by
  have hdigit : c.isDigit = true ↔ IsDigit c :=
    Bool.and_eq_true_iff.trans (Iff.and decide_eq_true_iff decide_eq_true_iff)
  rw [continuesIdentifier, Bool.or_eq_true, beq_iff_eq, ← or_assoc]
  exact Iff.or (Bool.or_eq_true_iff.trans (Iff.or isAlpha_iff_isLetter hdigit)) Iff.rfl

/-- The check looks at the first character once and at each of the others in the same way. -/
theorem spellsIdentifier_cons {c : Char} {rest : List Char} :
    spellsIdentifier (c :: rest) = true ↔
      startsIdentifier c = true ∧ ∀ d ∈ rest, continuesIdentifier d = true := by
  rw [spellsIdentifier, Bool.and_eq_true, List.all_eq_true]

/-- The check accepts the words of the grammar and nothing else. The grammar adds characters
at the end of a word and the check begins at its front. -/
theorem spellsIdentifier_iff_word {chars : List Char} :
    spellsIdentifier chars = true ↔ Word chars := by
  constructor
  · intro h
    cases chars with
    | nil => cases h
    | cons c rest =>
      obtain ⟨hfirst, hrest⟩ := spellsIdentifier_cons.mp h
      clear h
      -- the grammar adds characters at the end
      induction rest using List.reverseRecOn with
      | nil => exact .first (startsIdentifier_iff.mp hfirst)
      | append_singleton front last ih =>
        have hfront : ∀ d ∈ front, continuesIdentifier d = true := fun d hd =>
          hrest d (List.mem_append_left _ hd)
        have hlast : continuesIdentifier last = true :=
          hrest last (List.mem_append_right _ (List.mem_singleton_self _))
        exact .next (ih hfront) (continuesIdentifier_iff.mp hlast)
  · intro h
    induction h with
    | first hc =>
      exact spellsIdentifier_cons.mpr ⟨startsIdentifier_iff.mpr hc, fun d hd => nomatch hd⟩
    | @next chars c _ hc ih =>
      cases chars with
      | nil => cases ih
      | cons first rest =>
        obtain ⟨hfirst, hrest⟩ := spellsIdentifier_cons.mp ih
        refine spellsIdentifier_cons.mpr ⟨hfirst, fun d hd => ?_⟩
        rcases List.mem_append.mp hd with hold | hnew
        · exact hrest d hold
        · rw [List.mem_singleton.mp hnew]
          exact continuesIdentifier_iff.mpr hc

/-! ## Paths -/

/-- The parts of a path are fixed by it. -/
theorem Spells.parts_unique {path : String} {parts others : List String} (h : Spells path parts)
    (h' : Spells path others) : parts = others := by
  have hchars : parts.map String.toList = others.map String.toList := by
    rw [← h.splitOn_eq, ← h'.splitOn_eq, ← h.dropRoot_eq, ← h'.dropRoot_eq]
  exact (List.map_inj_right fun _ _ => String.ext).mp hchars

/-- A path still holds a separator without its root if there are two identifiers or more to
separate. -/
theorem Spells.isQualified_iff {path : String} {parts : List String} (h : Spells path parts) :
    isQualified ("\\".intercalate parts) = true ↔ 2 ≤ parts.length := by
  cases parts with
  | nil => exact absurd rfl h.ne_nil
  | cons part more =>
    rw [isQualified_intercalate (h.identifiers part (List.mem_cons_self ..)), List.length_cons,
      ← List.length_pos_iff]
    omega

end Name

/-- A path that is recorded comes last, unless it is there already. -/
theorem UseList.toList_add (uses : UseList) (path : String) :
    (uses.add path).toList =
      if Name.isQualified (Name.dropRoot path) = true ∧ Name.dropRoot path ∉ uses.toList then
        uses.toList ++ [Name.dropRoot path]
      else uses.toList := by
  unfold add
  by_cases hq : Name.isQualified (Name.dropRoot path) = true
  · by_cases hold : Name.dropRoot path ∈ uses.toList
    · rw [if_pos hq, if_neg fun h => h.2 hold]
      exact congrArg OrderedSet.toList (dif_pos hold)
    · rw [if_pos hq, if_pos ⟨hq, hold⟩]
      exact congrArg OrderedSet.toList (dif_neg hold)
  · rw [if_neg hq, if_neg fun h => hq h.1]

/-- **Class paths by their grammar.** Identifiers are the words of their grammar. A text is a class
path exactly if identifiers spell it, joined by separators and perhaps rooted by one more, and
then only one list of them does. Referring to it gives the last identifier. From two identifiers
on, their joined list is recorded behind what the list of used paths holds, unless that holds it
already; in every other case the list stays as it was. -/
theorem Name.classPath_grammar (path : String) :
    (∀ name, isIdentifier name = true ↔ Word name.toList) ∧
    (isClassPath path = true ↔ ∃ parts, Spells path parts) ∧
    (∀ parts others, Spells path parts → Spells path others → parts = others) ∧
    ∀ parts, Spells path parts → ∀ uses : UseList,
      parts.getLast? = some ((UseList.refer path).run uses).1 ∧
      ((UseList.refer path).run uses).2.toList =
        if 2 ≤ parts.length ∧ "\\".intercalate parts ∉ uses.toList then
          uses.toList ++ ["\\".intercalate parts]
        else uses.toList := by
  refine ⟨fun name => spellsIdentifier_iff_word, isClassPath_iff_exists_spells,
    fun parts others h h' => h.parts_unique h', ?_⟩
  intro parts h uses
  have hrefer := UseList.refer_refers path uses
  rw [UseList.addAll_cons, UseList.addAll_nil] at hrefer
  rw [hrefer]
  refine ⟨?_, ?_⟩
  · rw [h.short_eq, List.getLast?_eq_some_getLast]
  · simp only [UseList.toList_add, h.dropRoot_eq, h.isQualified_iff]

/-- A rooted path of two parts, which is recorded without its root behind the one path that is
there and is not recorded a second time. -/
theorem Name.classPath_grammar_mailer :
    let uses := UseList.ofPaths ["App\\Queue"]
    let after := ((UseList.refer "\\App\\Mailer").run uses).2
    Spells "\\App\\Mailer" ["App", "Mailer"] ∧ isClassPath "\\App\\Mailer" = true ∧
    some ((UseList.refer "\\App\\Mailer").run uses).1 = some "Mailer" ∧
    after.toList = ["App\\Queue", "App\\Mailer"] ∧
    ((UseList.refer "\\App\\Mailer").run after).2.toList = after.toList := by
  intro uses after
  have hspells : Spells "\\App\\Mailer" ["App", "Mailer"] :=
    ⟨List.cons_ne_nil _ _, by decide, .inr rfl⟩
  obtain ⟨_, haccept, _, hrefer⟩ := classPath_grammar "\\App\\Mailer"
  have hafter : after.toList = ["App\\Queue", "App\\Mailer"] :=
    (hrefer _ hspells uses).2.trans (by decide +kernel)
  refine ⟨hspells, haccept.mpr ⟨_, hspells⟩, (hrefer _ hspells uses).1.symm, hafter, ?_⟩
  rw [(hrefer _ hspells after).2, hafter]
  decide

end ClassDraft
