import ClassDraft.Proofs.Settling

/-!
# Unions written as one type or as a list

A union can be given as a list of types or as one text with bars in it. The text is passed over
at once if it holds no separator, while in a list each type is looked at for itself, and a type
may hold bars and question marks of its own or be empty. Still both come to the same: **the text
is shortened to what the types are shortened to, joined, and the same paths are recorded in the
same order**. A method prints its return type only as that joined text, so that its signature,
its comment and its code do not tell which way the union was given (`Method.union_either_way`).

The reason is that cutting the joined text gives the parts of the types, one type after another
(`Text.pieces_intercalate_flatMap`), and shortening goes part by part.
-/

namespace ClassDraft

namespace Name

/-- A joined type is shortened as each of the types in it. -/
theorem shortType_intercalate {types : List String} (hne : types ≠ []) :
    shortType ("|".intercalate types) = "|".intercalate (types.map shortType) := by
  have hparts : ∀ type, (Text.pieces '|' type).map shortPart ≠ [] := fun type hnil =>
    Text.pieces_ne_nil '|' type (List.map_eq_nil_iff.mp hnil)
  rw [shortType, Text.pieces_intercalate_flatMap rfl hne, List.map_flatMap,
    Text.intercalate_flatMap hparts]
  rfl

/-- A joined type refers to what the types in it refer to, in their order. -/
theorem typeReferences_intercalate {types : List String} (hne : types ≠ []) :
    typeReferences ("|".intercalate types) = types.flatMap typeReferences := by
  rw [typeReferences, Text.pieces_intercalate_flatMap rfl hne, List.map_flatMap]
  rfl

end Name

/-- From whatever list of used paths, shortening the joined text is shortening the types in turn
and joining what comes of it. -/
theorem UseList.shorten_intercalate {types : List String} (hne : types ≠ []) (uses : UseList) :
    (shorten ("|".intercalate types)).run uses
      = (types.mapM shorten >>= fun short => pure ("|".intercalate short)).run uses := by
  have hlisted := (Refers.mapM shorten_refers types).map ("|".intercalate ·)
  rw [shorten_refers _ uses, hlisted uses, Name.shortType_intercalate hne,
    Name.typeReferences_intercalate hne]

/-- The return types are written alike. -/
theorem Returns.render_shorten_union {types : List String} (hne : types ≠ []) :
    ((single ("|".intercalate types)).mapTypes Name.shortType).render
      = ((union types).mapTypes Name.shortType).render := by
  cases types with
  | nil => exact absurd rfl hne
  | cons first rest => exact congrArg some (Name.shortType_intercalate hne)

namespace Method

section

variable (m : Method) {r r' : Returns}

/-- Of what a method returns, its signature shows only how it is written. -/
theorem signature_of_render_eq (h : r.render = r'.render) :
    signature { m with returns := r } = signature { m with returns := r' } := by
  unfold signature
  dsimp only
  rw [h]

/-- The comment sees only how what is returned is printed. -/
theorem signatureComment_of_render_eq (h : r.render = r'.render) (o : Options) :
    signatureComment { m with returns := r } o = signatureComment { m with returns := r' } o := by
  unfold signatureComment
  dsimp only
  rw [h]

theorem toCode_of_render_eq (h : r.render = r'.render) :
    toCode { m with returns := r } = toCode { m with returns := r' } := by
  unfold toCode declaration
  rw [signature_of_render_eq m h]

/-- Settled methods whose return types are then written alike differ in these only. -/
theorem settledForm_of_render_eq (o : Options)
    (h : (r.mapTypes Name.shortType).render = (r'.mapTypes Name.shortType).render) :
    settledForm { m with returns := r } o
      = { settledForm { m with returns := r' } o with returns := r.mapTypes Name.shortType } := by
  have hcomment : signatureComment (short { m with returns := r }) o
      = signatureComment (short { m with returns := r' }) o :=
    signatureComment_of_render_eq m.short h o
  rw [settledForm, hcomment]
  rfl

end

/-- Both forms refer to the same paths in the same order. -/
theorem references_union {types : List String} (hne : types ≠ []) (m : Method) :
    references { m with returns := .single ("|".intercalate types) }
      = references { m with returns := .union types } := by
  unfold references Returns.types
  dsimp only
  rw [List.flatMap_singleton, Name.typeReferences_intercalate hne]

/-- **A union is the same as one type and as a list of types.** From any list of used paths, the
types joined are shortened to what the types in turn are shortened to, joined, and the same paths
are recorded. So two methods of which one returns the joined text and the other the list come
out of settling with the same used paths, the same signature, the same comment and the same
code. -/
theorem union_either_way {types : List String} (hne : types ≠ []) (uses : UseList) :
    ((UseList.shorten ("|".intercalate types)).run uses).1
      = "|".intercalate ((types.mapM UseList.shorten).run uses).1 ∧
    ((UseList.shorten ("|".intercalate types)).run uses).2
      = ((types.mapM UseList.shorten).run uses).2 ∧
    ∀ (m : Method) (o : Options),
      let joined := (settle { m with returns := .single ("|".intercalate types) } o).run uses
      let listed := (settle { m with returns := .union types } o).run uses
      joined.2 = listed.2 ∧ joined.1.signature = listed.1.signature ∧
      joined.1.comment = listed.1.comment ∧ joined.1.toCode = listed.1.toCode := by
  have hshorten := UseList.shorten_intercalate hne uses
  refine ⟨congrArg Prod.fst hshorten, congrArg Prod.snd hshorten, ?_⟩
  intro m o joined listed
  have hrender := Returns.render_shorten_union hne
  have hjoined : joined = _ := settle_refers _ o uses
  have hlisted : listed = _ := settle_refers _ o uses
  rw [hjoined, hlisted, references_union hne, settledForm_of_render_eq m o hrender]
  exact ⟨rfl, signature_of_render_eq _ hrender, rfl, toCode_of_render_eq _ hrender⟩

/-- The first type is itself a union, the second is empty, the third holds no separator, and the
last names a class of the root. -/
theorem union_either_way_mixed :
    let types := ["?App\\Models\\User|int", "", "string", "\\Ext\\Money|?\\Closure"]
    let find := named "find"
    types ≠ [] ∧
    (let joined := (settle { find with returns := .single ("|".intercalate types) } {}).run {}
      let listed := (settle { find with returns := .union types } {}).run {}
      joined.2 = listed.2 ∧ joined.1.signature = listed.1.signature ∧
      joined.1.comment = listed.1.comment ∧ joined.1.toCode = listed.1.toCode) ∧
    let listed := (settle { find with returns := .union types } {}).run {}
    listed.2.toList = ["App\\Models\\User", "Ext\\Money"] ∧
    listed.1.signature = "public function find(): ?User|int||string|Money|?Closure" := by
  intro types find
  have hne : types ≠ [] := List.cons_ne_nil _ _
  obtain ⟨_, _, hmethods⟩ := union_either_way hne {}
  exact ⟨hne, hmethods find {}, by decide +kernel, by decide +kernel⟩

end Method

end ClassDraft
