import ClassDraft.Draft.Edit
import ClassDraft.Proofs.Roster

/-!
# Who is let in

A draft takes in methods and properties, and a method takes in parameters, all of them in
place. All three ask first whether the newcomer is fit to stand there and then whether its
name is taken, and the second question is put to a search through sorted names. For members
that are the same only by name that search is exact (`Roster.contains_iff`), so each of the
three is an equation: a fault, another fault, or the one place where the newcomer then stands.

The equations are about what comes back. What is left where a newcomer is refused is another
matter, since nothing takes back what was written until then: a method is even made to fit in
before its name is looked for. But all that is done to the draft itself comes after the last
question, so the three are `Atomic`.

**A newcomer is refused for one of these two reasons and for no other, the first reason is
named where both hold, and nothing has changed then** (`Draft.admission_exact`). This is so for
every draft and every method, whatever steps have led to it.
-/

namespace ClassDraft

/-! ## The three ways in -/

namespace Draft

/-- The methods of a draft with one more: the constructor comes first, any other last. -/
def methodsWith (d : Draft) (m : Method) : Roster Method :=
  ⟨if m.name = d.constructorName then d.adapt m :: d.methods.members
    else d.methods.members ++ [d.adapt m]⟩

theorem methodsWith_of_eq {d : Draft} {m : Method} (h : m.name = d.constructorName) :
    d.methodsWith m = ⟨d.adapt m :: d.methods.members⟩ := by
  rw [methodsWith, if_pos h]

theorem methodsWith_of_ne {d : Draft} {m : Method} (h : m.name ≠ d.constructorName) :
    d.methodsWith m = ⟨d.methods.members ++ [d.adapt m]⟩ := by
  rw [methodsWith, if_neg h]

/-- Both places ask the same question; making a method fit in does not change its name. -/
theorem result_take (d : Draft) (m : Method) :
    InPlace.result (if m.name = d.constructorName then Roster.tryPushFront (d.adapt m)
      else Roster.tryPush (d.adapt m)) d.methods
      = if m.name ∈ d.methods.names then .error (d.adapt m) else .ok (d.methodsWith m) := by
  have hexact : ExactlyByName Method := exactlyByName_default Method.name
  by_cases hctor : m.name = d.constructorName
  · rw [if_pos hctor, methodsWith_of_eq hctor]
    exact d.methods.pushFront_eq hexact (d.adapt m)
  · rw [if_neg hctor, methodsWith_of_ne hctor]
    exact d.methods.push_eq hexact (d.adapt m)

/-- A method is refused for its name, or for the name of another method, or it is added. -/
theorem addMethod_eq (d : Draft) (m : Method) :
    d.addMethod m =
      if Name.isIdentifier m.name = false then .error (.unexpected .methodName m.name)
      else if m.name ∈ d.methods.names then .error (.duplicateMember .method m.name)
      else .ok { d with methods := d.methodsWith m } := by
  rw [addMethod, tryAddMethod, InPlace.result_require_bind, InPlace.result_get_bind,
    InPlace.result_onPart_of_ite (d.result_take m)]
  rfl

/-- For a property there is one more rule between the two, and only interfaces have it. -/
theorem addProperty_eq (d : Draft) (p : Property) :
    d.addProperty p =
      if Name.isIdentifier p.name = false then .error (.unexpected .propertyName p.name)
      else if d.isInterface = true ∧ p.isConstant = false then
        .error (.unexpected .constantOnInterface p.name)
      else if p.name ∈ d.properties.names then .error (.duplicateMember .property p.name)
      else .ok { d with properties := ⟨d.properties.members ++ [p]⟩ } := by
  have htake : (Roster.tryPush p).result d.properties
      = if p.name ∈ d.properties.names then .error p
        else .ok ⟨d.properties.members ++ [p]⟩ :=
    d.properties.push_eq (exactlyByName_default Property.name) p
  rw [addProperty, tryAddProperty, InPlace.result_require_bind, InPlace.result_get_bind,
    InPlace.result_require_bind, InPlace.result_onPart_of_ite htake]
  simp only [Bool.or_eq_false_iff, Bool.not_eq_false']

end Draft

/-- A parameter is refused for its name, or for the name of another parameter of the method,
or it is added. -/
theorem Method.addParam_eq (m : Method) (p : Param) :
    m.addParam p =
      if Name.isIdentifier p.name = false then .error (.unexpected .paramName p.name)
      else if p.name ∈ m.params.names then .error (.duplicateParam m.name p.name)
      else .ok { m with params := ⟨m.params.members ++ [p]⟩ } := by
  have htake : (Roster.tryPush p).result m.params
      = if p.name ∈ m.params.names then .error p else .ok ⟨m.params.members ++ [p]⟩ :=
    m.params.push_eq (exactlyByName_default Param.name) p
  rw [addParam, tryAddParam, InPlace.result_require_bind, InPlace.result_onPart_of_ite htake]

/-! ## What a refusal leaves -/

/-- The parameters are written to only after the last question, and put back as they were if
it was not passed. -/
theorem Method.atomic_tryAddParam (p : Param) : (tryAddParam p).Atomic :=
  .require_bind _ _ ((Roster.atomic_tryTake _ p).onPart (fun _ => rfl) _)

-- A list of parameters is not added so: those before the refused one are there to stay.
example : InPlace.left ([Param.named "id", .named "1st"].forM Method.tryAddParam) (.named "save")
    = { name := "save", params := ⟨[.named "id"]⟩ } := by
  decide +kernel

namespace Draft

/-- What is made to fit in is the newcomer and not the draft, whichever end it is then
offered to. -/
theorem atomic_tryAddMethod (m : Method) : (tryAddMethod m).Atomic := by
  refine .require_bind _ _ (.get_bind fun d => ?_)
  refine InPlace.Atomic.onPart ?_ (fun _ => rfl) _
  split
  next => exact Roster.atomic_tryTake _ _
  next => exact Roster.atomic_tryTake _ _

/-- Between the two checks the draft is looked at but not touched. -/
theorem atomic_tryAddProperty (p : Property) : (tryAddProperty p).Atomic :=
  .require_bind _ _ (.get_bind fun _ => .require_bind _ _
    ((Roster.atomic_tryTake _ p).onPart (fun _ => rfl) _))

/-- A change that is carried out leaves the draft that it leads to. -/
theorem attempt_of_ok {d next : Draft} {change : Edit} (h : d.edit change = .ok next) :
    d.attempt change = next := by
  cases change with
  | addMethod m => exact InPlace.left_of_result_ok h
  | addProperty p => exact InPlace.left_of_result_ok h
  | _ => simp only [attempt, h]

/-- **A refused change leaves the draft as it was**, also where it is made in place and
nobody has kept a copy. -/
theorem attempt_of_error {d : Draft} {change : Edit} {fault : Fault}
    (h : d.edit change = .error fault) : d.attempt change = d := by
  cases change with
  | addMethod m => exact (atomic_tryAddMethod m).left_of_result_error h
  | addProperty p => exact (atomic_tryAddProperty p).left_of_result_error h
  | _ => simp only [attempt, h]

end Draft

/-! ## The decision -/

/-- How a step in place decides that may break off for two reasons, the first of which comes
first: with the fault of the reason that holds, or else by making the value `next`. -/
structure Decides {σ : Type} (step : InPlace Fault σ Unit) (before : σ) (unfit : Prop)
    (unfitFault : Fault) (taken : Prop) (takenFault : Fault) (next : σ) : Prop where
  unfit_iff : step.run before = .error unfitFault before ↔ unfit
  taken_iff : step.run before = .error takenFault before ↔ ¬ unfit ∧ taken
  accepted_iff : step.run before = .ok () next ↔ ¬ unfit ∧ ¬ taken
  /-- For whatever fault the step breaks off, the value is what it was. -/
  unchanged : ∀ fault left, step.run before = .error fault left → left = before

/-- An atomic step decides as is seen from what comes back. -/
theorem Decides.of_result {σ : Type} {step : InPlace Fault σ Unit} {before : σ}
    {unfit taken : Prop} [Decidable unfit] [Decidable taken] {unfitFault takenFault : Fault}
    {next : σ} (hatomic : step.Atomic) (hne : unfitFault ≠ takenFault)
    (h : step.result before = if unfit then .error unfitFault
      else if taken then .error takenFault else .ok next) :
    Decides step before unfit unfitFault taken takenFault next := by
  suffices hdecides : (step.result before = .error unfitFault ↔ unfit) ∧
      (step.result before = .error takenFault ↔ ¬ unfit ∧ taken) ∧
      (step.result before = .ok next ↔ ¬ unfit ∧ ¬ taken) by
    obtain ⟨hunfit, htaken, haccepted⟩ := hdecides
    exact ⟨hatomic.run_eq_error_iff.trans hunfit, hatomic.run_eq_error_iff.trans htaken,
      InPlace.result_eq_ok_iff.symm.trans haccepted, hatomic before⟩
  by_cases hunfit : unfit
  · rw [if_pos hunfit] at h
    exact ⟨by simp [h, hunfit], by simp [h, hunfit, hne], by simp [h, hunfit]⟩
  · rw [if_neg hunfit] at h
    by_cases htaken : taken
    · rw [if_pos htaken] at h
      exact ⟨by simp [h, hunfit, hne.symm], by simp [h, hunfit, htaken], by simp [h, htaken]⟩
    · rw [if_neg htaken] at h
      exact ⟨by simp [h, hunfit], by simp [h, htaken], by simp [h, hunfit, htaken]⟩

namespace Draft

/-- What a draft does to a method that it takes in, one rule for each kind of draft and one
for the constructor. -/
theorem adapt_eq (d : Draft) (m : Method) :
    d.adapt m = { m with
      isBare := if d.kind = .interfaceKind then true else m.isBare
      isStatic := if m.name = d.constructorName then false else m.isStatic } := by
  have hbare : (m.isBare || d.isInterface)
      = if d.kind = .interfaceKind then true else m.isBare := by
    by_cases hkind : d.kind = .interfaceKind
    · simp [isInterface, hkind]
    · simp [isInterface, hkind]
  have hstatic : (m.isStatic && m.name != d.constructorName)
      = if m.name = d.constructorName then false else m.isStatic := by
    by_cases hctor : m.name = d.constructorName
    · simp [hctor]
    · simp [hctor]
  rw [adapt, hbare, hstatic]

/-- **Newcomers are let in exactly when they should be.** A method needs an identifier for a
name, and one that no method has; a property needs the same among properties, and on an
interface it has to be a constant; a parameter needs the same among the parameters of its
method. A refused newcomer has changed nothing. An accepted one is added and nothing else
changes: the constructor at the front, all others at the end, a method bare on an interface
and not static as the constructor, and otherwise as it came. -/
theorem admission_exact (d : Draft) (m : Method) (p : Property) (host : Method) (q : Param) :
    (let m' : Method := { m with
        isBare := if d.kind = .interfaceKind then true else m.isBare
        isStatic := if m.name = d.constructorName then false else m.isStatic };
      Decides (tryAddMethod m) d
        (Name.isIdentifier m.name = false) (.unexpected .methodName m.name)
        (m.name ∈ d.methods.names) (.duplicateMember .method m.name)
        { d with methods := ⟨if m.name = d.constructorName then m' :: d.methods.members
          else d.methods.members ++ [m']⟩ }) ∧
    Decides (tryAddProperty p) d
      (Name.isIdentifier p.name = false ∨ d.kind = .interfaceKind ∧ p.isConstant = false)
      (.unexpected (if Name.isIdentifier p.name = false then .propertyName
        else .constantOnInterface) p.name)
      (p.name ∈ d.properties.names) (.duplicateMember .property p.name)
      { d with properties := ⟨d.properties.members ++ [p]⟩ } ∧
    Decides (Method.tryAddParam q) host
      (Name.isIdentifier q.name = false) (.unexpected .paramName q.name)
      (q.name ∈ host.params.names) (.duplicateParam host.name q.name)
      { host with params := ⟨host.params.members ++ [q]⟩ } := by
  refine ⟨?_, ?_, ?_⟩
  · dsimp only
    rw [← adapt_eq]
    exact .of_result (atomic_tryAddMethod m) (by simp) (d.addMethod_eq m)
  · refine .of_result (atomic_tryAddProperty p) (by simp) ?_
    rw [← addProperty, addProperty_eq]
    -- one condition for the two ways to be unfit
    by_cases hname : Name.isIdentifier p.name = false
    · simp [hname]
    · simp [hname, isInterface]
  · exact .of_result (Method.atomic_tryAddParam q) (by simp) (host.addParam_eq q)

end Draft

end ClassDraft
