import ClassDraft.InPlace

/-!
# What a change that breaks off leaves behind

Nothing undoes a change that breaks off, so that it may well leave something half done. Those
that do not are called `Atomic`: where they break off, the value is as it was. This is not a
rule of how changes are run but has to be seen from each of them, and is seen from their
parts: all that may come before the first write is a look at the value or a check.

For atomic changes it makes no difference whether the value is kept or given away: what the
change leaves is what comes back, or else the value as it was (`Atomic.run_eq_error_iff`).
-/

namespace ClassDraft.InPlace

variable {ε ε' σ τ α : Type}

/-! ## Values that are given away -/

/-- A value comes back exactly if the change is carried out, and then it is the changed
value. -/
theorem result_eq_ok_iff {change : InPlace ε σ Unit} {s next : σ} :
    change.result s = .ok next ↔ change.run s = .ok () next := by
  unfold result
  cases change.run s with
  | ok _ after => simp
  | error cause after => simp

/-- A cause alone comes back exactly if the change breaks off for it. What it has left of the
value does not show. -/
theorem result_eq_error_iff {change : InPlace ε σ Unit} {s : σ} {cause : ε} :
    change.result s = .error cause ↔ ∃ left, change.run s = .error cause left := by
  unfold result
  cases change.run s with
  | ok _ after => simp
  | error other after => simp

/-- A value that comes back is what the change has left. -/
theorem left_of_result_ok {change : InPlace ε σ Unit} {s next : σ}
    (h : change.result s = .ok next) : change.left s = next := by
  rw [left, result_eq_ok_iff.mp h]

/-- Giving a value away for two changes is to give it away twice. What the second change
finds is what the first has given back, and it is not made at all if nothing came back. -/
theorem result_bind (first : InPlace ε σ Unit) (second : Unit → InPlace ε σ Unit) (s : σ) :
    (first >>= second : InPlace ε σ Unit).result s = first.result s >>= (second ()).result := by
  unfold result
  rw [EStateM.run_bind]
  cases first.run s with
  | ok _ after => rfl
  | error cause after => rfl

/-- A check in front of a change is the first cause for which nothing comes back. -/
theorem result_require_bind (ok : Bool) (cause : ε) (next : Unit → InPlace ε σ Unit) (s : σ) :
    (require ok cause >>= next : InPlace ε σ Unit).result s
      = if ok = false then .error cause else (next ()).result s := by
  cases ok <;> rfl

/-- A look at the value in front of a change is a look at the value that is given away. -/
theorem result_get_bind (next : σ → InPlace ε σ Unit) (s : σ) :
    (get >>= next : InPlace ε σ Unit).result s = (next s).result s := rfl

section

variable {get : τ → σ} {put : τ → σ → τ} {tell : τ → ε → ε'} {change : InPlace ε σ α}

theorem run_onPart_of_ok {whole : τ} {a : α} {part : σ}
    (h : change.run (get whole) = .ok a part) :
    (change.onPart get put tell).run whole = .ok a (put whole part) := by
  dsimp only [onPart, EStateM.run] at h ⊢
  rw [h]

/-- Where a change to a part breaks off, the part goes back into the whole as it was left.
Nothing is assumed about what was left. -/
theorem run_onPart_of_error {whole : τ} {cause : ε} {part : σ}
    (h : change.run (get whole) = .error cause part) :
    (change.onPart get put tell).run whole = .error (tell whole cause) (put whole part) := by
  dsimp only [onPart, EStateM.run] at h ⊢
  rw [h]

end

/-- If one question decides whether a part can be changed, it decides the same about the
whole: the cause is told in its terms, or it comes back with that part changed. -/
theorem result_onPart_of_ite {get : τ → σ} {put : τ → σ → τ} {tell : τ → ε → ε'}
    {change : InPlace ε σ Unit} {whole : τ} {refused : Prop} [Decidable refused] {cause : ε}
    {part : σ}
    (h : change.result (get whole) = if refused then .error cause else .ok part) :
    (change.onPart get put tell).result whole
      = if refused then .error (tell whole cause) else .ok (put whole part) := by
  by_cases hrefused : refused
  · rw [if_pos hrefused] at h ⊢
    obtain ⟨left, hrun⟩ := result_eq_error_iff.mp h
    exact result_eq_error_iff.mpr ⟨put whole left, run_onPart_of_error hrun⟩
  · rw [if_neg hrefused] at h ⊢
    exact result_eq_ok_iff.mpr (run_onPart_of_ok (result_eq_ok_iff.mp h))

/-! ## Changes that are made whole or not at all -/

/-- The change leaves the value as it was wherever it breaks off, and for whatever cause. -/
def Atomic (change : InPlace ε σ α) : Prop :=
  ∀ before cause after, change.run before = .error cause after → after = before

namespace Atomic

/-- A check may come first. -/
theorem require_bind (ok : Bool) (cause : ε) {next : Unit → InPlace ε σ α}
    (h : (next ()).Atomic) : (require ok cause >>= next : InPlace ε σ α).Atomic := by
  intro before fault after hrun
  cases ok with
  | true => exact h before fault after hrun
  | false =>
    cases hrun
    rfl

/-- A look at the value may come first. -/
theorem get_bind {next : σ → InPlace ε σ α} (h : ∀ s, (next s).Atomic) :
    (get >>= next : InPlace ε σ α).Atomic :=
  fun before => h before before

/-- What is put back of a part that has not changed changes nothing about the whole. -/
theorem onPart {change : InPlace ε σ α} (h : change.Atomic) {get : τ → σ} {put : τ → σ → τ}
    (hput : ∀ whole, put whole (get whole) = whole) (tell : τ → ε → ε') :
    (change.onPart get put tell).Atomic := by
  intro before fault after hrun
  cases hpart : change.run (get before) with
  | ok a part =>
    rw [run_onPart_of_ok hpart] at hrun
    cases hrun
  | error cause part =>
    rw [run_onPart_of_error hpart] at hrun
    cases hrun
    rw [h _ _ _ hpart, hput]

variable {change : InPlace ε σ Unit}

/-- One who gives the value away for an atomic change can tell from the cause that comes back
what has become of the value. -/
theorem run_eq_error_iff (h : change.Atomic) {s : σ} {cause : ε} :
    change.run s = .error cause s ↔ change.result s = .error cause := by
  rw [result_eq_error_iff]
  constructor
  · intro hrun
    exact ⟨s, hrun⟩
  · rintro ⟨after, hrun⟩
    rw [hrun, h s cause after hrun]

/-- An atomic change of which only a cause comes back has left the value as it was. -/
theorem left_of_result_error (h : change.Atomic) {s : σ} {cause : ε}
    (herror : change.result s = .error cause) : change.left s = s := by
  rw [left, h.run_eq_error_iff.mpr herror]

end Atomic

end ClassDraft.InPlace
