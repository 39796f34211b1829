set_option autoImplicit false

/-!
A `while` loop whose body may be undefined, run with fuel.

`Loop.run` returns the state in which the loop ends. Its rules are those of
sequential execution: passes that lead from one state to another compose, and a
state in which the loop has ended is its result for all fuel from there on.
-/

namespace Loop

variable {σ : Type} (step : σ → Option σ) (ended : σ → Prop) [DecidablePred ended]

def run : Nat → σ → Option σ
  | 0, s => if ended s then some s else none
  | fuel + 1, s => if ended s then some s else (step s).bind (run fuel)

/-- Some number of passes leads from `s` to `s'`. -/
def Reaches (s s' : σ) : Prop := ∃ k, ∀ n, run step ended (n + k) s = run step ended n s'

variable {step ended}

theorem run_ended {s : σ} (h : ended s) (n : Nat) : run step ended n s = some s := by
  cases n <;> simp [run, h]

theorem Reaches.refl (s : σ) : Reaches step ended s s := ⟨0, fun _ => rfl⟩

theorem Reaches.trans {s₁ s₂ s₃ : σ} (h₁ : Reaches step ended s₁ s₂)
    (h₂ : Reaches step ended s₂ s₃) : Reaches step ended s₁ s₃ := by
  obtain ⟨k₁, h₁⟩ := h₁
  obtain ⟨k₂, h₂⟩ := h₂
  refine ⟨k₂ + k₁, fun n => ?_⟩
  rw [← Nat.add_assoc, h₁, h₂]

theorem Reaches.of_step {s s' : σ} (hs : ¬ ended s) (h : step s = some s') :
    Reaches step ended s s' := by
  refine ⟨1, fun n => ?_⟩
  simp [run, hs, h]

theorem run_of_reaches {s s' : σ} (h : Reaches step ended s s') (he : ended s') :
    ∃ k, ∀ n, k ≤ n → run step ended n s = some s' := by
  obtain ⟨k, h⟩ := h
  refine ⟨k, fun n hn => ?_⟩
  obtain ⟨m, rfl⟩ : ∃ m, n = m + k := ⟨n - k, by omega⟩
  rw [h, run_ended he]

theorem run_succ {n : Nat} {s s' : σ} (h : run step ended n s = some s') :
    run step ended (n + 1) s = some s' := by
  induction n generalizing s with
  | zero =>
    by_cases he : ended s
    · simpa [run, he] using h
    · simp [run, he] at h
  | succ n ih =>
    by_cases he : ended s
    · simpa [run, he] using h
    · cases hs : step s with
      | none => simp [run, he, hs] at h
      | some s₁ =>
        have h₁ : run step ended n s₁ = some s' := by simpa [run, he, hs] using h
        have h₂ := ih h₁
        rw [run]
        simpa [he, hs] using h₂

theorem run_mono {n m : Nat} {s s' : σ} (hnm : n ≤ m) (h : run step ended n s = some s') :
    run step ended m s = some s' := by
  induction hnm with
  | refl => exact h
  | step _ ih => exact run_succ ih

/-- The result does not depend on the fuel. -/
theorem run_unique {n m : Nat} {s a b : σ} (ha : run step ended n s = some a)
    (hb : run step ended m s = some b) : a = b := by
  have h₁ := run_mono (Nat.le_max_left n m) ha
  have h₂ := run_mono (Nat.le_max_right n m) hb
  rw [h₁] at h₂
  exact Option.some.inj h₂

/-- What every pass relates, the loop relates. -/
theorem run_rel {R : σ → σ → Prop} (hrefl : ∀ s, R s s) (htrans : ∀ s t u, R s t → R t u → R s u)
    (hstep : ∀ s t, ¬ ended s → step s = some t → R s t) {n : Nat} {s r : σ}
    (h : run step ended n s = some r) : R s r := by
  induction n generalizing s with
  | zero =>
    by_cases he : ended s
    · obtain rfl : s = r := by simpa [run, he] using h
      exact hrefl s
    · simp [run, he] at h
  | succ n ih =>
    by_cases he : ended s
    · obtain rfl : s = r := by simpa [run, he] using h
      exact hrefl s
    · rw [run, if_neg he, Option.bind_eq_some_iff] at h
      obtain ⟨t, ht, hrest⟩ := h
      exact htrans s t r (hstep s t he ht) (ih hrest)

end Loop
