import Mathlib.Data.List.Basic
import Mathlib.Logic.Function.Basic
set_option autoImplicit false

/-!
Partial maps changed one key at a time.

Every change reads and writes the entry of its own key and may be refused.
A list of changes succeeds exactly if the changes of each key succeed one after
another on the entry of that key.
-/

namespace Keyed

variable {K V A : Type} [DecidableEq K] (key : A → K) (act : A → Option V → Option (Option V))

def step (s : K → Option V) (a : A) : Option (K → Option V) :=
  (act a (s (key a))).map (Function.update s (key a))

def run (s : K → Option V) (as : List A) : Option (K → Option V) := as.foldlM (step key act) s

/-- The changes of one key on its entry. -/
def runAt (v : Option V) (as : List A) : Option (Option V) := as.foldlM (fun v a => act a v) v

variable {key act}

theorem run_cons (s : K → Option V) (a : A) (as : List A) :
    run key act s (a :: as) =
      (act a (s (key a))).bind fun v => run key act (Function.update s (key a) v) as := by
  cases h : act a (s (key a)) <;> simp [run, step, h]

theorem runAt_cons (v : Option V) (a : A) (as : List A) :
    runAt act v (a :: as) = (act a v).bind fun v => runAt act v as := by
  simp [runAt]

theorem run_eq_some_iff {s t : K → Option V} {as : List A} :
    run key act s as = some t ↔
      ∀ k, runAt act (s k) (as.filter fun a => key a = k) = some (t k) := by
  induction as generalizing s with
  | nil =>
    simp only [run, runAt, List.filter_nil, List.foldlM_nil, Option.pure_def, Option.some.injEq]
    exact funext_iff
  | cons a as ih =>
    rw [run_cons]
    cases hact : act a (s (key a)) with
    | none =>
      simp only [Option.bind_none, reduceCtorEq, false_iff, not_forall]
      refine ⟨key a, ?_⟩
      simp [runAt_cons, hact]
    | some v =>
      rw [Option.bind_some, ih]
      refine forall_congr' fun k => ?_
      by_cases hk : key a = k
      · subst hk
        simp [runAt_cons, hact]
      · simp [hk, Function.update_of_ne (Ne.symm hk)]

end Keyed
