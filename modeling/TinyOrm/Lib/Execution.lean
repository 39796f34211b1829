set_option autoImplicit false

/-!
Finite executions of a labelled transition relation.
-/

/-- The steps with these labels lead from one state to the other. -/
inductive Execution {S L : Type} (step : S → L → S → Prop) : S → List L → S → Prop where
  | nil (s : S) : Execution step s [] s
  | cons {s s' t : S} {l : L} {ls : List L} (head : step s l s') (tail : Execution step s' ls t) :
      Execution step s (l :: ls) t

namespace Execution

variable {S L : Type} {step : S → L → S → Prop}

theorem split {s u : S} (ls : List L) {ms : List L} (h : Execution step s (ls ++ ms) u) :
    ∃ t, Execution step s ls t ∧ Execution step t ms u := by
  induction ls generalizing s with
  | nil => exact ⟨s, .nil s, h⟩
  | cons l ls ih =>
    cases h with
    | cons head tail =>
      obtain ⟨t, hl, hm⟩ := ih tail
      exact ⟨t, .cons head hl, hm⟩

/-- What every step keeps, every execution keeps. -/
theorem preserves {P : S → Prop} (hstep : ∀ s l s', P s → step s l s' → P s') {s t : S}
    {ls : List L} (h : Execution step s ls t) (hs : P s) : P t := by
  induction h with
  | nil => exact hs
  | cons head _ ih => exact ih (hstep _ _ _ hs head)

theorem append {s t u : S} {ls ms : List L} (h : Execution step s ls t)
    (h' : Execution step t ms u) : Execution step s (ls ++ ms) u := by
  induction h with
  | nil => exact h'
  | cons head _ ih => exact .cons head (ih h')

/-- Where each step stands for steps of the other relation, so does each execution. -/
theorem projects {T M : Type} {step' : T → M → T → Prop} {own : L → List M} {rel : S → T → Prop}
    (hstep : ∀ s l s' t, rel s t → step s l s' → ∃ t', Execution step' t (own l) t' ∧ rel s' t')
    {s s' : S} {ls : List L} (h : Execution step s ls s') {t : T} (hrel : rel s t) :
    ∃ t', Execution step' t (ls.flatMap own) t' ∧ rel s' t' := by
  induction h generalizing t with
  | nil => exact ⟨t, .nil t, hrel⟩
  | cons head _ ih =>
    obtain ⟨t₁, hhead, hrel₁⟩ := hstep _ _ _ _ hrel head
    obtain ⟨t', htail, hrel'⟩ := ih hrel₁
    exact ⟨t', hhead.append htail, hrel'⟩

/-- Where each step is one of the other relation as well, so is each execution. -/
theorem simulates {T : Type} {step' : T → L → T → Prop} {rel : S → T → Prop}
    (hstep : ∀ s l s' t, rel s t → step s l s' → ∃ t', step' t l t' ∧ rel s' t') {s s' : S}
    {ls : List L} (h : Execution step s ls s') {t : T} (hrel : rel s t) :
    ∃ t', Execution step' t ls t' ∧ rel s' t' := by
  have hone : ∀ s l s' t, rel s t → step s l s' →
      ∃ t', Execution step' t [l] t' ∧ rel s' t' := by
    intro s l s' t hrel hhead
    obtain ⟨t', hstep', hrel'⟩ := hstep s l s' t hrel hhead
    exact ⟨t', .cons hstep' (.nil t'), hrel'⟩
  simpa using h.projects hone hrel

end Execution
