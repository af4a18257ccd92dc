import ClassDraft.Proofs.ClassPath
import ClassDraft.Proofs.Reachable
import ClassDraft.SourceFile

/-!
# Which references a file lists

Whatever changes a draft, its list of used paths grows by recording references and in
no other way (`edit_uses`). So the list of a draft that a history leads to holds
qualified paths only, and settling adds the full paths among the references.

A reference that is a qualified class path is therefore in the list after settling,
**unless it is global**: the short name of a global path is the path without its root,
there is nothing to list for it, and nothing is listed.
-/

namespace ClassDraft

/-- Every path that is listed has a line of its own in the file. -/
theorem SourceFile.use_line_mem {f : SourceFile} {path : String} (h : path ∈ f.uses) :
    Code.line ("use " ++ path ++ ";") ∈ f.toCode := by
  have hline : Code.line ("use " ++ path ++ ";")
      ∈ paragraph (f.uses.map fun path => "use " ++ path ++ ";") := by
    rw [paragraph, if_neg]
    · exact List.mem_append_left _ (List.mem_map_of_mem (List.mem_map.mpr ⟨path, h, rfl⟩))
    · rw [List.isEmpty_map, List.isEmpty_iff]
      exact List.ne_nil_of_mem h
  exact List.mem_append_left _ (List.mem_append_right _ hline)

namespace Draft

/-- All that a change does to the used paths is to record references. -/
theorem edit_uses {d d' : Draft} {change : Edit} (h : d.edit change = .ok d') :
    ∃ refs, d'.uses = d.uses.addAll refs := by
  rcases edit_cases h with ⟨_, _, _, hrefs⟩ | ⟨m, _, hadd⟩ | ⟨p, hadd⟩ | ⟨name, rfl⟩ | ⟨o, rfl⟩
  · exact hrefs
  · obtain ⟨_, _, rfl⟩ := addMethod_ok hadd
    exact ⟨[], rfl⟩
  · obtain ⟨_, _, _, rfl⟩ := addProperty_ok hadd
    exact ⟨[], rfl⟩
  · exact ⟨[], rfl⟩
  · refine ⟨d.references, ?_⟩
    rw [settled_eq]

/-- No draft lists a path without a separator, whatever it was told to list. -/
theorem Reachable.isQualified_use {d : Draft} (h : d.Reachable) :
    ∀ path ∈ d.uses.toList, Name.isQualified path = true := by
  refine Reachable.invariant (P := fun d => ∀ path ∈ d.uses.toList, Name.isQualified path = true)
    ?_ ?_ h
  · intro kind name _ path hpath
    cases hpath
  · intro d change d' ih hok path hpath
    obtain ⟨refs, huses⟩ := edit_uses hok
    rw [huses] at hpath
    rcases UseList.mem_addAll.mp hpath with hold | hnew
    · exact ih path hold
    · exact (Name.mem_fullPaths.mp hnew).2

/-- After settling, a reference is in the list if it is qualified without its root. -/
theorem contains_settled_of_reference {d : Draft} {p : String} (o : Options)
    (hp : p ∈ d.references) (hfull : Name.isQualified (Name.dropRoot p) = true) :
    (d.settled o).uses.contains p = true := by
  rw [UseList.contains_iff, settled_eq]
  exact UseList.mem_addAll.mpr (.inr (Name.mem_fullPaths.mpr ⟨⟨p, hp, rfl⟩, hfull⟩))

/-- **Every reference that settling shortens is listed, global ones apart.** A
reference that is a qualified class path and not global is in the list of the settled
draft and has its line in the file; a global one never is. -/
theorem reference_listed_unless_global (d : Draft) (o : Options) {p : String}
    (hp : p ∈ d.references) (hpath : Name.isClassPath p = true)
    (hq : Name.isQualified p = true) :
    (¬ Name.IsGlobal p → (d.settled o).uses.contains p = true ∧
      Code.line ("use " ++ Name.dropRoot p ++ ";") ∈ (SourceFile.of (d.fairCopy o)).toCode) ∧
    (d.Reachable → Name.IsGlobal p → (d.settled o).uses.contains p = false) := by
  constructor
  · intro hglobal
    have hfull := (Name.isQualified_dropRoot_iff hpath hq).mpr hglobal
    have hlisted := contains_settled_of_reference o hp hfull
    exact ⟨hlisted, SourceFile.use_line_mem (UseList.contains_iff.mp hlisted)⟩
  · intro hreach hglobal
    have hsettled : (d.settled o).Reachable := hreach.attempt (.settle o)
    rw [← Bool.not_eq_true, UseList.contains_iff]
    intro hlisted
    -- everything in the list is qualified, and a global path without its root is not
    exact (Name.isQualified_dropRoot_iff hpath hq).mp (hsettled.isQualified_use _ hlisted) hglobal

/-- Two rooted references, of which the second is global. -/
theorem reference_listed_rooted :
    let d := [Edit.inheritFrom "\\App\\Model", .addInterface "\\Countable"].foldl attempt
      { name := "User" }
    d.Reachable ∧ (d.settled {}).uses.contains "\\App\\Model" = true ∧
      (d.settled {}).uses.contains "\\Countable" = false := by
  intro d
  have hnew : Draft.new .classKind "User" = .ok { name := "User" } := rfl
  have hd : d.Reachable := (Reachable.new hnew).attempts _
  have hglobal : Name.IsGlobal "\\Countable" := ⟨"Countable", by decide, by decide⟩
  have hrooted : ¬ Name.IsGlobal "\\App\\Model" :=
    (Name.isQualified_dropRoot_iff (by decide) (by decide)).mp (by decide)
  have hmodel := reference_listed_unless_global d {} (p := "\\App\\Model")
    (by decide) (by decide) (by decide)
  have hcountable := reference_listed_unless_global d {} (p := "\\Countable")
    (by decide) (by decide) (by decide)
  exact ⟨hd, (hmodel.1 hrooted).1, hcountable.2 hd hglobal⟩

/-- A global reference is shortened and not listed. -/
theorem global_reference_unlisted :
    ¬ ∀ (d : Draft) (o : Options) (p : String), d.Reachable → p ∈ d.references →
      Name.isClassPath p = true → Name.isQualified p = true →
      (d.settled o).uses.contains p = true := by
  intro hall
  have hnew : Draft.new .classKind "Failure" = .ok { name := "Failure" } := rfl
  have hd := (Reachable.new hnew).attempt (.inheritFrom "\\RuntimeException")
  have hlisted := hall _ {} "\\RuntimeException" hd (by decide) (by decide) (by decide)
  exact absurd hlisted (by decide)

end Draft

end ClassDraft
