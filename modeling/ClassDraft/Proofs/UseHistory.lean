import ClassDraft.Proofs.UseList

/-!
# Histories of a use list

Four calls write to a list of used paths: a path is referred to or recorded, a type is
shortened, another list is merged in. Each of them looks at separators in its own order.
Referring asks for one before it drops the root and again after that, recording only after
that, shortening once for the whole type and then for each of its parts, and merging not
at all.

All of them come to one thing. A call *supplies* full paths, and the list takes them in one
after another (`Call.perform_snd`). So **after every history the list is what it was, followed by
what the calls have supplied, each path at its first place** (`toList_performAll`). A path
stands there in the one spelling that it is looked up by: it holds a separator and does not
begin with one (`Reachable.isFull`).
-/

namespace ClassDraft

namespace Name

/-- A path as it stands in a list of used paths: it holds a separator and does not begin
with one. -/
def IsFull (path : String) : Prop := separator ∈ path.toList ∧ path.toList.head? ≠ some separator

/-- What references leave is in the spelling in which paths are listed. -/
theorem isFull_of_mem_fullPaths {refs : List String} {path : String}
    (h : path ∈ fullPaths refs) : IsFull path := by
  obtain ⟨⟨ref, _, rfl⟩, hq⟩ := mem_fullPaths.mp h
  exact ⟨List.contains_iff_mem.mp hq, head?_dropRoot ref⟩

end Name

namespace UseList

/-- What recording answers and what it leaves, which both depend on the list before. -/
theorem record_run (path : String) (uses : UseList) :
    (record path).run uses = (uses.wouldGrow path, uses.add path) := rfl

/-- What can be asked of a list of used paths. -/
inductive Call where
  | refer (path : String)
  | record (path : String)
  | shorten (type : String)
  | merge (other : UseList)

/-- What is given back for a call. -/
inductive Answer where
  | text (short : String)
  | isNew (grown : Bool)
  | done
deriving DecidableEq

def Answer.text? : Answer → Option String
  | .text short => some short
  | _ => none

namespace Call

/-- Makes a call. All that it can do to the list is in the functions that are called here. -/
def perform : Call → StateM UseList Answer
  | .refer path => do return .text (← UseList.refer path)
  | .record path => do return .isNew (← UseList.record path)
  | .shorten type => do return .text (← UseList.shorten type)
  | .merge other => do
    modify (·.merge other)
    return .done

/-- The full paths that a call brings along: those among its references, or those of the
other list. -/
def supplied : Call → List String
  | .refer path | .record path => Name.fullPaths [path]
  | .shorten type => Name.fullPaths (Name.typeReferences type)
  | .merge other => other.toList

/-- The text that is given back for a call, if it is one that gives back a text. -/
def shortText? : Call → Option String
  | .refer path => some (Name.short path)
  | .shorten type => some (Name.shortType type)
  | _ => none

theorem perform_refer (path : String) (uses : UseList) :
    (Call.refer path).perform.run uses = (.text (Name.short path), uses.addAll [path]) :=
  (refer_refers path).map Answer.text uses

theorem perform_record (path : String) (uses : UseList) :
    (Call.record path).perform.run uses = (.isNew (uses.wouldGrow path), uses.add path) := by
  rw [perform, StateT.run_bind, record_run]
  rfl

/-- Shortening a type records each of its parts and gives the short type back. -/
theorem perform_shorten (type : String) (uses : UseList) :
    (Call.shorten type).perform.run uses
      = (.text (Name.shortType type), uses.addAll (Name.typeReferences type)) :=
  (shorten_refers type).map Answer.text uses

theorem perform_merge (other uses : UseList) :
    (Call.merge other).perform.run uses = (.done, uses.merge other) := rfl

/-- Whatever a call does besides, the list takes in what it supplies. -/
theorem perform_snd (call : Call) (uses : UseList) :
    (call.perform.run uses).2 = ⟨uses.paths.insertMany call.supplied⟩ := by
  cases call with
  | refer path => rw [perform_refer, addAll_eq, supplied]
  | record path =>
    have h := addAll_eq [path] uses
    rw [addAll_cons, addAll_nil] at h
    rw [perform_record, h, supplied]
  | shorten type => rw [perform_shorten, addAll_eq, supplied]
  | merge other => rw [perform_merge, UseList.merge, supplied, OrderedSet.union, toList]

/-- The list has no part in the texts that are given back. -/
theorem text?_perform (call : Call) (uses : UseList) :
    (call.perform.run uses).1.text? = call.shortText? := by
  cases call with
  | refer path => rw [perform_refer, Answer.text?, shortText?]
  | record path => rw [perform_record]; rfl
  | shorten type => rw [perform_shorten, Answer.text?, shortText?]
  | merge other => rw [perform_merge]; rfl

end Call

/-- Performs calls one after another, each on the list that the ones before have left. -/
def performAll (calls : List Call) : StateM UseList (List Answer) := calls.mapM Call.perform

/-- The first call is made on the list as it is, and the others on what that call has left. -/
theorem performAll_cons (call : Call) (rest : List Call) (uses : UseList) :
    (performAll (call :: rest)).run uses =
      let first := call.perform.run uses
      let others := (performAll rest).run first.2
      (first.1 :: others.1, others.2) := by
  rw [performAll, List.mapM_cons]
  rfl

/-- By induction on the calls, from every list: what the calls supply comes in as if it were
one list of paths. -/
theorem performAll_snd (calls : List Call) :
    ∀ uses : UseList, ((performAll calls).run uses).2
      = ⟨uses.paths.insertMany (calls.flatMap Call.supplied)⟩ := by
  induction calls with
  | nil => intro uses; rfl
  | cons call rest ih =>
    intro uses
    rw [performAll_cons, List.flatMap_cons, OrderedSet.insertMany_append]
    dsimp only
    rw [ih, call.perform_snd]

/-- By induction on the calls: no text that is given back depends on what the calls before
have left. -/
theorem texts_performAll (calls : List Call) :
    ∀ uses : UseList, ((performAll calls).run uses).1.map Answer.text?
      = calls.map Call.shortText? := by
  induction calls with
  | nil => intro uses; rfl
  | cons call rest ih =>
    intro uses
    rw [performAll_cons, List.map_cons, List.map_cons, ih, call.text?_perform]

/-- The list after a history of calls. -/
theorem toList_performAll (calls : List Call) (uses : UseList) :
    ((performAll calls).run uses).2.toList
      = (uses.toList ++ calls.flatMap Call.supplied).eraseDups := by
  rw [performAll_snd]
  exact OrderedSet.toList_insertMany _ _

/-- The lists that calls lead to, where what is merged in has come about by calls as well. -/
inductive Reachable : UseList → Prop where
  | empty : Reachable empty
  | perform {uses : UseList} (call : Call)
    (hmerge : ∀ other, call = .merge other → Reachable other) :
    Reachable uses → Reachable (call.perform.run uses).2

/-- A history of calls leads from a reachable list to a reachable one, if the lists that it
merges are. -/
theorem Reachable.performAll (calls : List Call) :
    ∀ {uses : UseList}, uses.Reachable →
      (∀ other, Call.merge other ∈ calls → other.Reachable) →
      ((performAll calls).run uses).2.Reachable := by
  induction calls with
  | nil => exact fun h _ => h
  | cons call rest ih =>
    intro uses h hmerge
    rw [performAll_cons]
    refine ih (h.perform call ?_) fun other hother => hmerge other (List.mem_cons_of_mem _ hother)
    rintro other rfl
    exact hmerge other (List.mem_cons_self ..)

/-- Every path has been normalised on its way in, or in the list it was merged from. -/
theorem Reachable.isFull {uses : UseList} (h : uses.Reachable) :
    ∀ path ∈ uses.toList, Name.IsFull path := by
  induction h with
  | empty =>
    intro path hpath
    cases hpath
  | perform call _ _ ihmerge ih =>
    intro path hpath
    rw [call.perform_snd] at hpath
    rcases OrderedSet.mem_insertMany.mp hpath with hold | hnew
    · exact ih path hold
    · cases call with
      | refer _ | record _ | shorten _ => exact Name.isFull_of_mem_fullPaths hnew
      | merge other => exact ihmerge other rfl path hnew

/-- Recording tells the truth about whether the list has grown. -/
theorem record_isNew_iff (path : String) (uses : UseList) :
    ((record path).run uses).1 = true ↔
      uses.toList.length < ((record path).run uses).2.toList.length := by
  rw [record_run]
  dsimp only [wouldGrow, add]
  split
  next hq =>
    have hlength : uses.toList.length
        < (uses.paths.insert (Name.dropRoot path)).toList.length ↔ _ := OrderedSet.length_lt_insert
    rw [hq, Bool.true_and, Bool.not_eq_true', ← Bool.not_eq_true, contains_iff]
    exact hlength.symm
  next hq => simp [hq]

/-- **What a history of calls leaves.** The list is the one before, followed by the full
paths that the calls supply, each at its first place; so the one before stays in front. No
path is there twice, each holds a separator and none begins with one. A path is contained
if it is in the list without its leading separators; recording says that it is new if the
list has grown; and the texts given back are the same from every list. -/
theorem history_exact {uses : UseList} (h : uses.Reachable) (calls : List Call)
    (hmerge : ∀ other, Call.merge other ∈ calls → other.Reachable) :
    let after := ((performAll calls).run uses).2
    after.toList = (uses.toList ++ calls.flatMap Call.supplied).eraseDups ∧
    uses.toList <+: after.toList ∧ after.toList.Nodup ∧
    (∀ path ∈ after.toList, '\\' ∈ path.toList ∧ path.toList.head? ≠ some '\\') ∧
    (∀ path, after.contains path = true ↔ Name.dropRoot path ∈ after.toList) ∧
    (∀ path, ((record path).run after).1 = true ↔
      after.toList.length < ((record path).run after).2.toList.length) ∧
    ∀ other : UseList, ((performAll calls).run uses).1.map Answer.text?
      = ((performAll calls).run other).1.map Answer.text? := by
  intro after
  have hafter : after.Reachable := h.performAll calls hmerge
  refine ⟨toList_performAll calls uses, ?_, after.paths.nodup, hafter.isFull,
    fun _ => contains_iff, fun path => record_isNew_iff path after, ?_⟩
  · have hextended : after = _ := performAll_snd calls uses
    rw [hextended]
    exact OrderedSet.prefix_insertMany _ _
  · intro other
    rw [texts_performAll, texts_performAll]

/-- One path comes in three spellings and a second one from another list. A global path
leaves nothing, a path that ends in a separator is kept as it is. -/
theorem history_exact_spellings :
    let before := (performAll [.refer "\\App\\A"]).run .empty
    let other := (performAll [.record "Vendor\\C", .refer "App\\A"]).run .empty
    let after := (performAll [.shorten "?App\\B|\\App\\A|\\Countable|null", .record "\\\\App\\A",
      .merge other.2, .refer "App\\"]).run before.2
    before.2.Reachable ∧ other.2.Reachable ∧
    after.2.toList = ["App\\A", "App\\B", "Vendor\\C", "App\\"] ∧
    after.2.contains "\\\\App\\B" = true ∧ ((record "\\Vendor\\C").run after.2).1 = false := by
  intro before other after
  have hbefore : before.2.Reachable := Reachable.empty.performAll _ (by simp)
  have hother : other.2.Reachable := Reachable.empty.performAll _ (by simp)
  obtain ⟨hlist, _, _, _, hcontains, hrecord, _⟩ := history_exact hbefore
    [.shorten "?App\\B|\\App\\A|\\Countable|null", .record "\\\\App\\A", .merge other.2,
      .refer "App\\"] (by simpa using hother)
  have hafter : after.2.toList = ["App\\A", "App\\B", "Vendor\\C", "App\\"] :=
    hlist.trans (by decide +kernel)
  refine ⟨hbefore, hother, hafter, ?_, ?_⟩
  · rw [hcontains, hafter]
    decide
  · rw [← Bool.not_eq_true, hrecord]
    decide +kernel

end UseList

end ClassDraft
