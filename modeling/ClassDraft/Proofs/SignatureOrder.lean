import ClassDraft.Proofs.Settling

/-!
# The order of the parameters in a signature

A signature puts the parameters that must be given before those that may be left out. Which
these are is told by a mark and by the initial value, while only the value is printed. **A
parameter that is marked always has a value** (`Param.valued_build`), whatever steps it came
about by and in whatever order they were done, so that the two agree: the parameters without a
value are printed first, and no parameter without one follows a parameter with one.

Ordering is stable, and it looks at nothing that settling changes. So it does not matter whether
the parameters are shortened before they are ordered or afterwards, although the used paths are
recorded in the order in which the parameters were declared (`Param.signature_order`).
-/

namespace ClassDraft.Param

/-! ## Marks and values -/

/-- If the parameter is marked as one that may be left out, it has an initial value. -/
def Valued (p : Param) : Prop := p.declaredOptional = true → p.initial.isSome = true

/-- No step makes a parameter optional without giving it a value, and none takes a value
away. -/
theorem valued_edit {p : Param} (h : p.Valued) (change : Edit) : (p.edit change).Valued := by
  cases change with
  | typed type => exact h
  | initially value => exact fun _ => rfl
  | optional => exact fun _ => rfl

theorem valued_edits (changes : List Edit) :
    ∀ {p : Param}, p.Valued → (changes.foldl edit p).Valued := by
  induction changes with
  | nil => exact fun h => h
  | cons change rest ih => exact fun h => ih (valued_edit h change)

/-- Every parameter that is built by steps has a value if it is optional. -/
theorem valued_build (name : String) (changes : List Edit) : (build name changes).Valued :=
  valued_edits changes nofun

/-- So whether it may be left out can be seen from whether it has a value. -/
theorem Valued.isOptional_eq {p : Param} (h : p.Valued) : p.isOptional = p.initial.isSome := by
  unfold isOptional
  cases hmark : p.declaredOptional with
  | false => rw [Bool.false_or]
  | true => rw [h hmark, Bool.true_or]

/-! ## Stable order -/

section

variable (params : List Param)

/-- No parameter is lost and none comes in. -/
theorem perm_inSignatureOrder : (inSignatureOrder params).Perm params :=
  List.perm_append_comm.trans (List.filter_append_perm _ params)

/-- Behind one that may be left out all may be left out. -/
theorem pairwise_inSignatureOrder :
    (inSignatureOrder params).Pairwise fun p q => p.isOptional = true → q.isOptional = true := by
  have hlast : ∀ q ∈ params.filter (·.isOptional), q.isOptional = true := fun q hq =>
    (List.mem_filter.mp hq).2
  refine List.pairwise_append.mpr ⟨?_, ?_, fun p _ q hq _ => hlast q hq⟩
  · refine List.pairwise_of_forall_mem_list ?_
    intro p hp q _ hoptional
    have hrequired := (List.mem_filter.mp hp).2
    rw [hoptional] at hrequired
    cases hrequired
  · exact List.pairwise_of_forall_mem_list fun p _ q hq _ => hlast q hq

/-- Neither the required parameters nor the optional ones change places among themselves. -/
theorem filter_inSignatureOrder (optional : Bool) :
    (inSignatureOrder params).filter (·.isOptional == optional)
      = params.filter (·.isOptional == optional) := by
  rw [inSignatureOrder, List.filter_append, List.filter_filter, List.filter_filter]
  cases optional <;> simp

/-- The order is stable: it is two lists, each in the order in which its parameters were
added. -/
theorem inSignatureOrder_eq :
    inSignatureOrder params = params.filter (·.isOptional == false)
      ++ params.filter (·.isOptional == true) := by
  simp [inSignatureOrder]

/-- Parameters in this order stay as they are. -/
theorem inSignatureOrder_inSignatureOrder :
    inSignatureOrder (inSignatureOrder params) = inSignatureOrder params := by
  rw [inSignatureOrder_eq (inSignatureOrder params), filter_inSignatureOrder,
    filter_inSignatureOrder, ← inSignatureOrder_eq]

/-- Ordering looks only at whether a parameter may be left out. -/
theorem inSignatureOrder_map {f : Param → Param} (h : ∀ p, (f p).isOptional = p.isOptional) :
    inSignatureOrder (params.map f) = (inSignatureOrder params).map f := by
  rw [inSignatureOrder, List.filter_map, List.filter_map, inSignatureOrder, List.map_append]
  simp [Function.comp_def, h]

/-- Shortening in the declared order and then ordering is ordering and then shortening, from
whatever lists of used paths. -/
theorem inSignatureOrder_shorten (uses other : UseList) :
    inSignatureOrder ((params.mapM shorten).run uses).1
      = (((inSignatureOrder params).mapM shorten).run other).1 := by
  rw [UseList.Refers.mapM shorten_refers params uses,
    UseList.Refers.mapM shorten_refers (inSignatureOrder params) other]
  exact inSignatureOrder_map params fun _ => rfl

end

/-! ## What is printed -/

/-- A parameter as it is printed without its initial value. -/
def head (p : Param) : String := p.type.elim ("$" ++ p.name) (· ++ " $" ++ p.name)

theorem render_of_none {p : Param} (h : p.initial = none) : p.render = p.head := by
  unfold render head
  rw [h]
  cases p.type <;> rfl

theorem render_of_some {p : Param} {value : Initializer} (h : p.initial = some value) :
    p.render = p.head ++ " = " ++ value.render := by
  unfold render head
  rw [h]
  cases p.type <;> rfl

theorem map_render_of_none (params : List Param) :
    (params.filter (·.initial.isNone)).map render
      = (params.filter (·.initial.isNone)).map head := by
  apply List.map_congr_left
  intro p hp
  exact render_of_none (Option.isNone_iff_eq_none.mp (List.mem_filter.mp hp).2)

theorem map_render_of_some (params : List Param) :
    (params.filter (·.initial.isSome)).map render
      = params.filterMap fun p => p.initial.map (p.head ++ " = " ++ ·.render) := by
  induction params with
  | nil => rfl
  | cons p rest ih =>
    cases h : p.initial with
    | none => simp [h, ih]
    | some value => simp [h, ih, render_of_some h]

/-- The parameters without a value, and then those with one. -/
theorem map_render_inSignatureOrder {params : List Param} (h : ∀ p ∈ params, p.Valued) :
    (inSignatureOrder params).map render = (params.filter (·.initial.isNone)).map head
      ++ params.filterMap fun p => p.initial.map (p.head ++ " = " ++ ·.render) := by
  have hrequired : params.filter (!·.isOptional) = params.filter (·.initial.isNone) := by
    apply List.filter_congr
    intro p hp
    rw [(h p hp).isOptional_eq, Option.not_isSome]
  have hoptional : params.filter (·.isOptional) = params.filter (·.initial.isSome) :=
    List.filter_congr fun p hp => (h p hp).isOptional_eq
  rw [inSignatureOrder, List.map_append, hrequired, hoptional, map_render_of_none,
    map_render_of_some]

/-- **The order of a signature** holds the given parameters, those that must be given before
those that may be left out, and each kind in the order in which it was given. Whatever steps
they came about by, the parameters that may be left out are those with an initial value. So
the text has those without a value first, and what is printed behind a parameter with a value
shows a value as well. Ordering a second time changes nothing, and the parameters can be ordered
before they are shortened or afterwards. -/
theorem signature_order (specs : List (String × List Edit)) (uses other : UseList) :
    let params := specs.map fun spec => build spec.1 spec.2
    (inSignatureOrder params).Perm params ∧
    ((inSignatureOrder params).Pairwise fun p q => p.isOptional = true → q.isOptional = true) ∧
    (∀ optional, (inSignatureOrder params).filter (·.isOptional == optional)
      = params.filter (·.isOptional == optional)) ∧
    (∀ p ∈ params, p.isOptional = p.initial.isSome) ∧
    renderList params = ", ".intercalate ((params.filter (·.initial.isNone)).map head
      ++ params.filterMap fun p => p.initial.map (p.head ++ " = " ++ ·.render)) ∧
    ((inSignatureOrder params).Pairwise fun p q =>
      p.initial.isSome = true → " = ".toList <:+: q.render.toList) ∧
    inSignatureOrder (inSignatureOrder params) = inSignatureOrder params ∧
    inSignatureOrder ((params.mapM shorten).run uses).1
      = (((inSignatureOrder params).mapM shorten).run other).1 := by
  intro params
  have hvalued : ∀ p ∈ params, p.Valued := by
    intro p hp
    obtain ⟨spec, _, rfl⟩ := List.mem_map.mp hp
    exact valued_build spec.1 spec.2
  have hoptional : ∀ p ∈ params, p.isOptional = p.initial.isSome := fun p hp =>
    (hvalued p hp).isOptional_eq
  refine ⟨perm_inSignatureOrder params, pairwise_inSignatureOrder params,
    filter_inSignatureOrder params, hoptional, ?_, ?_, inSignatureOrder_inSignatureOrder params,
    inSignatureOrder_shorten params uses other⟩
  · rw [renderList, map_render_inSignatureOrder hvalued]
  · refine (pairwise_inSignatureOrder params).imp_of_mem ?_
    intro p q hp hq hboth hvalue
    rw [hoptional p ((perm_inSignatureOrder params).subset hp),
      hoptional q ((perm_inSignatureOrder params).subset hq)] at hboth
    obtain ⟨value, hq⟩ := Option.isSome_iff_exists.mp (hboth hvalue)
    rw [render_of_some hq, String.toList_append, String.toList_append]
    exact List.infix_append _ _ _

end ClassDraft.Param
