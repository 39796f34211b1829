import Mathlib.Data.List.Basic
import Mathlib.Logic.Function.Basic
set_option autoImplicit false

/-!
Partial maps whose entries are added and renamed.

A change that adds what exists, that renames what does not exist or that renames
to another existing entry leaves the map as it is. What a list of changes does
to an entry is told from the changes that name it.
-/

namespace Renaming

variable {K V : Type} [DecidableEq K]

/-- `change k k` rewrites an entry in its place. -/
inductive Change (K : Type) where
  | add (k : K)
  | change (old new : K)
  deriving DecidableEq

namespace Change

def target : Change K → K
  | .add k => k
  | .change _ new => new

def source : Change K → Option K
  | .add _ => none
  | .change old _ => some old

end Change

variable (D : K → V)

/-- `D` gives the content that a change writes under its target. -/
def act (s : K → Option V) : Change K → K → Option V
  | .add k => if (s k).isSome then s else Function.update s k (some (D k))
  | .change old new =>
    if (s old).isNone ∨ (new ≠ old ∧ (s new).isSome) then s
    else Function.update (Function.update s old none) new (some (D new))

def run (s : K → Option V) (cs : List (Change K)) : K → Option V := cs.foldl (act D) s

variable {D} {s : K → Option V} {cs : List (Change K)} {k : K}

theorem run_append (cs ds : List (Change K)) : run D s (cs ++ ds) = run D (run D s cs) ds := by
  simp [run]

/-- A change touches its target and its source only. -/
theorem act_other {c : Change K} (ht : c.target ≠ k) (hs : c.source ≠ some k) :
    act D s c k = s k := by
  cases c with
  | add n =>
    have hne : k ≠ n := Ne.symm ht
    simp only [act]
    split
    · rfl
    · rw [Function.update_of_ne hne]
  | change old new =>
    have hnew : k ≠ new := Ne.symm ht
    have hold : k ≠ old := fun he => hs (by rw [he]; rfl)
    simp only [act]
    split
    · rfl
    · rw [Function.update_of_ne hnew, Function.update_of_ne hold]

/-- An entry that no change takes as its source is not overwritten. -/
theorem act_unsourced {c : Change K} {v : V} (hk : s k = some v) (hs : c.source ≠ some k) :
    act D s c k = some v := by
  by_cases ht : c.target = k
  · cases c with
    | add n =>
      obtain rfl : n = k := ht
      simp [act, hk]
    | change old new =>
      obtain rfl : new = k := ht
      have hne : new ≠ old := fun he => hs (by rw [he]; rfl)
      simp [act, hk, hne]
  · rw [act_other ht hs, hk]

theorem run_unsourced {v : V} (hk : s k = some v) (hs : ∀ c ∈ cs, c.source ≠ some k) :
    run D s cs k = some v := by
  induction cs generalizing s with
  | nil => exact hk
  | cons c cs ih =>
    exact ih (act_unsourced hk (hs c (by simp))) fun c' hc' => hs c' (by simp [hc'])

theorem run_untargeted (hk : s k = none) (ht : ∀ c ∈ cs, c.target ≠ k) : run D s cs k = none := by
  induction cs generalizing s with
  | nil => exact hk
  | cons c cs ih =>
    refine ih ?_ fun c' hc' => ht c' (by simp [hc'])
    have hne := Ne.symm (ht c (by simp))
    cases c with
    | add n =>
      have hne : k ≠ n := hne
      simp only [act]
      split
      · exact hk
      · rw [Function.update_of_ne hne, hk]
    | change old new =>
      have hne : k ≠ new := hne
      simp only [act]
      split
      · exact hk
      · rw [Function.update_of_ne hne]
        by_cases hold : k = old
        · rw [hold, Function.update_self]
        · rw [Function.update_of_ne hold, hk]

/-- An entry that is taken as a source only by its own rewriting, or by changes
whose target is another entry that stays. -/
def Kept (s : K → Option V) (cs : List (Change K)) (k : K) : Prop :=
  ∀ c ∈ cs, c.source = some k →
    c.target = k ∨ ((s c.target).isSome ∧ ∀ c' ∈ cs, c'.source ≠ some c.target)

theorem act_kept {c : Change K} {v : V} (hk : s k = some v)
    (hkept : c.source = some k → c.target = k ∨ (s c.target).isSome)
    (hown : c.target = k → c.source = some k) :
    act D s c k = if c.target = k then some (D k) else some v := by
  by_cases hs : c.source = some k
  · cases c with
    | add n => cases hs
    | change old new =>
      obtain rfl : old = k := Option.some.inj hs
      by_cases ht : new = old
      · subst ht
        simp [act, hk, Change.target]
      · have hsome := (hkept hs).resolve_left ht
        simp only [Change.target] at hsome
        simp [act, hk, Change.target, ht, hsome]
  · have ht : c.target ≠ k := fun he => hs (hown he)
    rw [act_other ht hs, hk, if_neg ht]

theorem run_kept {v : V} (hk : s k = some v) (hkept : Kept s cs k)
    (hown : ∀ c ∈ cs, c.target = k → c.source = some k) :
    run D s cs k = if ∃ c ∈ cs, c.target = k then some (D k) else some v := by
  induction cs generalizing s v with
  | nil => simpa [run] using hk
  | cons c cs ih =>
    have hact := act_kept (D := D) hk (fun hs => (hkept c (by simp) hs).imp_right And.left)
      (hown c (by simp))
    -- The entries that block a renaming are the sources of no change, so they stay.
    have hkept' : Kept (act D s c) cs k := by
      intro c' hc' hs'
      refine (hkept c' (by simp [hc']) hs').imp_right fun ⟨hsome, hblock⟩ => ⟨?_, ?_⟩
      · obtain ⟨v', hv'⟩ := Option.isSome_iff_exists.mp hsome
        rw [act_unsourced hv' (hblock c (by simp))]
        rfl
      · exact fun c'' hc'' => hblock c'' (by simp [hc''])
    have hrest {w : V} (hw : act D s c k = some w) :=
      ih hw hkept' fun c' hc' => hown c' (by simp [hc'])
    have hcons : run D s (c :: cs) = run D (act D s c) cs := rfl
    rw [hcons]
    by_cases ht : c.target = k
    · rw [if_pos ht] at hact
      have hex : ∃ c' ∈ c :: cs, c'.target = k := ⟨c, by simp, ht⟩
      rw [hrest hact]
      simp only [hex, if_true, ite_self]
    · rw [if_neg ht] at hact
      rw [hrest hact]
      simp [ht]

/-- An entry that is missing and is the target of one change alone gets its
content, if that change can be made. -/
theorem run_created {c : Change K} {before after : List (Change K)} (hk : s c.target = none)
    (hbefore : ∀ c' ∈ before, c'.target ≠ c.target)
    (hafter : ∀ c' ∈ after, c'.source ≠ some c.target)
    (hsource : ∀ old, c.source = some old → (run D s before old).isSome) :
    run D s (before ++ c :: after) c.target = some (D c.target) := by
  have hcons : run D (run D s before) (c :: after) = run D (act D (run D s before) c) after := rfl
  rw [run_append, hcons]
  have habsent : run D s before c.target = none := run_untargeted hk hbefore
  refine run_unsourced ?_ hafter
  cases c with
  | add n =>
    simp only [Change.target] at habsent ⊢
    simp [act, habsent]
  | change old new =>
    simp only [Change.target] at habsent ⊢
    have hold := hsource old rfl
    have hnot : ¬ ((run D s before old).isNone ∨ (new ≠ old ∧ (run D s before new).isSome)) := by
      rintro (h | ⟨-, h⟩)
      · rw [Option.isNone_iff_eq_none] at h
        rw [h] at hold
        cases hold
      · rw [habsent] at h
        cases h
    rw [act, if_neg hnot, Function.update_self]

end Renaming
