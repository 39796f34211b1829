import Mathlib.Logic.Function.Basic
set_option autoImplicit false

/-!
Resources with at most one owner.
-/

namespace Ownership

variable {Owner Res : Type}

/-- No resource is held by two owners. -/
def Exclusive (held : Owner → Option Res) : Prop :=
  ∀ o o' r, held o = some r → held o' = some r → o = o'

theorem exclusive_none : Exclusive fun _ : Owner => (none : Option Res) := by
  intro o o' r h
  cases h

variable [DecidableEq Owner] {held : Owner → Option Res}

theorem Exclusive.drop (h : Exclusive held) (o : Owner) :
    Exclusive (Function.update held o none) := by
  intro p q r hp hq
  by_cases hpo : p = o
  · simp [hpo] at hp
  · by_cases hqo : q = o
    · simp [hqo] at hq
    · rw [Function.update_of_ne hpo] at hp
      rw [Function.update_of_ne hqo] at hq
      exact h p q r hp hq

/-- A resource nobody holds is taken. -/
theorem Exclusive.take (h : Exclusive held) (o : Owner) {r : Res} (hnew : ∀ p, held p ≠ some r) :
    Exclusive (Function.update held o (some r)) := by
  intro p q x hp hq
  by_cases hpo : p = o
  · by_cases hqo : q = o
    · rw [hpo, hqo]
    · rw [hpo, Function.update_self] at hp
      rw [Function.update_of_ne hqo, ← hp] at hq
      exact absurd hq (hnew q)
  · by_cases hqo : q = o
    · rw [hqo, Function.update_self] at hq
      rw [Function.update_of_ne hpo, ← hq] at hp
      exact absurd hp (hnew p)
    · rw [Function.update_of_ne hpo] at hp
      rw [Function.update_of_ne hqo] at hq
      exact h p q x hp hq

/-- One owner hands over what it holds to another, which gives up what it held. -/
theorem Exclusive.move (h : Exclusive held) {o o' : Owner} (hne : o ≠ o') :
    Exclusive (Function.update (Function.update held o' (held o)) o none) := by
  cases ho : held o with
  | none => exact (h.drop o').drop o
  | some r =>
    intro p q x hp hq
    have hown : ∀ s, s ≠ o → s ≠ o' →
        Function.update (Function.update held o' (some r)) o none s = some x →
        held s = some x ∧ x ≠ r := by
      intro s hso hso' hs
      rw [Function.update_of_ne hso, Function.update_of_ne hso'] at hs
      refine ⟨hs, ?_⟩
      rintro rfl
      exact hso (h s o x hs ho)
    have hx : ∀ s, Function.update (Function.update held o' (some r)) o none s = some x →
        s ≠ o := by
      rintro s hs rfl
      simp at hs
    have hr : ∀ s, s = o' →
        Function.update (Function.update held o' (some r)) o none s = some x → x = r := by
      rintro s rfl hs
      rw [Function.update_of_ne (Ne.symm hne), Function.update_self] at hs
      exact (Option.some.inj hs).symm
    by_cases hpo : p = o'
    · by_cases hqo : q = o'
      · rw [hpo, hqo]
      · exact absurd (hr p hpo hp) (hown q (hx q hq) hqo hq).2
    · by_cases hqo : q = o'
      · exact absurd (hr q hqo hq) (hown p (hx p hp) hpo hp).2
      · exact h p q x (hown p (hx p hp) hpo hp).1 (hown q (hx q hq) hqo hq).1

end Ownership
