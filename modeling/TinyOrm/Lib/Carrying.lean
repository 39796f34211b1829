import TinyOrm.Lib.Renaming
set_option autoImplicit false

/-!
What becomes of contents that are stored under the entries of a partial map while its
entries are added and renamed.
-/

namespace Renaming

variable {K V U : Type} [DecidableEq K]

/-- Contents under the entries of a map. -/
structure Filled (K V U : Type) where
  entries : K → Option V
  contents : K → Option U

/-- The change is one that leaves the map as it is. -/
def Blocked (s : K → Option V) : Change K → Prop
  | .add k => (s k).isSome
  | .change old new => (s old).isNone ∨ (new ≠ old ∧ (s new).isSome)

instance (s : K → Option V) : (c : Change K) → Decidable (Blocked s c)
  | .add _ => inferInstanceAs (Decidable (_ = true))
  | .change _ _ => inferInstanceAs (Decidable (_ ∨ _ ∧ _))

/-- A new entry has the content `create`, and one that is changed takes its content along,
converted for the new entry. -/
def move (create : K → Option U) (convert : K → Option U → Option U) (r : K → Option U) :
    Change K → K → Option U
  | .add k => Function.update r k (create k)
  | .change old new => Function.update (Function.update r old none) new (convert new (r old))

variable (D : K → V) (create : K → Option U) (convert : K → Option U → Option U)

def carry (p : Filled K V U) (c : Change K) : Filled K V U :=
  ⟨act D p.entries c, if Blocked p.entries c then p.contents else move create convert p.contents c⟩

def carryAll (p : Filled K V U) (cs : List (Change K)) : Filled K V U :=
  cs.foldl (carry D create convert) p

variable {D create convert} {p : Filled K V U} {c : Change K} {cs : List (Change K)} {k : K}

theorem carry_entries : (carry D create convert p c).entries = act D p.entries c := rfl

theorem carry_contents : (carry D create convert p c).contents =
    if Blocked p.entries c then p.contents else move create convert p.contents c := rfl

theorem carryAll_entries : (carryAll D create convert p cs).entries = run D p.entries cs := by
  induction cs generalizing p with
  | nil => rfl
  | cons c cs ih => exact ih

theorem carryAll_append (ds : List (Change K)) : carryAll D create convert p (cs ++ ds) =
    carryAll D create convert (carryAll D create convert p cs) ds := by
  simp [carryAll]

/-! ## Contents without an entry -/

/-- There are no contents but under entries. -/
def Filled.Supported (p : Filled K V U) : Prop := ∀ k, p.entries k = none → p.contents k = none

theorem carry_supported (h : p.Supported) : (carry D create convert p c).Supported := by
  intro k hk
  rw [carry_entries] at hk
  rw [carry_contents]
  cases c with
  | add n =>
    by_cases hex : (p.entries n).isSome
    · have hblocked : Blocked p.entries (.add n) := hex
      rw [act, if_pos hex] at hk
      rw [if_pos hblocked]
      exact h k hk
    · have hfree : ¬ Blocked p.entries (.add n) := hex
      rw [act, if_neg hex] at hk
      rw [if_neg hfree, move]
      by_cases hkn : k = n
      · rw [hkn, Function.update_self] at hk
        cases hk
      · rw [Function.update_of_ne hkn] at hk ⊢
        exact h k hk
  | change old new =>
    by_cases hex : (p.entries old).isNone ∨ (new ≠ old ∧ (p.entries new).isSome)
    · have hblocked : Blocked p.entries (.change old new) := hex
      rw [act, if_pos hex] at hk
      rw [if_pos hblocked]
      exact h k hk
    · have hfree : ¬ Blocked p.entries (.change old new) := hex
      rw [act, if_neg hex] at hk
      rw [if_neg hfree, move]
      by_cases hkn : k = new
      · rw [hkn, Function.update_self] at hk
        cases hk
      · rw [Function.update_of_ne hkn] at hk ⊢
        by_cases hko : k = old
        · rw [hko, Function.update_self]
        · rw [Function.update_of_ne hko] at hk ⊢
          exact h k hk

theorem carryAll_supported (h : p.Supported) : (carryAll D create convert p cs).Supported := by
  induction cs generalizing p with
  | nil => exact h
  | cons c cs ih => exact ih (carry_supported h)

/-! ## Contents that stay -/

theorem move_other {r : K → Option U} (ht : c.target ≠ k) (hs : c.source ≠ some k) :
    move create convert r c k = r k := by
  cases c with
  | add n => exact Function.update_of_ne (Ne.symm ht) _ _
  | change old new =>
    have hnew : k ≠ new := Ne.symm ht
    have hold : k ≠ old := fun he => hs (by rw [he]; rfl)
    rw [move, Function.update_of_ne hnew, Function.update_of_ne hold]

theorem carry_other (ht : c.target ≠ k) (hs : c.source ≠ some k) :
    (carry D create convert p c).contents k = p.contents k := by
  rw [carry_contents]
  split
  · rfl
  · exact move_other ht hs

theorem carryAll_other (h : ∀ c ∈ cs, c.target ≠ k ∧ c.source ≠ some k) :
    (carryAll D create convert p cs).contents k = p.contents k := by
  induction cs generalizing p with
  | nil => rfl
  | cons c cs ih =>
    obtain ⟨ht, hs⟩ := h c (by simp)
    exact (ih fun c' hc' => h c' (by simp [hc'])).trans (carry_other ht hs)

omit [DecidableEq K] in
/-- A change with an existing entry as its target, and another source, is blocked. -/
theorem blocked_of_target (hk : (p.entries k).isSome) (ht : c.target = k)
    (hs : c.source ≠ some k) : Blocked p.entries c := by
  cases c with
  | add n =>
    obtain rfl : n = k := ht
    exact hk
  | change old new =>
    obtain rfl : new = k := ht
    exact .inr ⟨fun he => hs (by rw [he]; rfl), hk⟩

theorem carry_unsourced (hk : (p.entries k).isSome) (hs : c.source ≠ some k) :
    (carry D create convert p c).contents k = p.contents k := by
  by_cases ht : c.target = k
  · rw [carry_contents, if_pos (blocked_of_target hk ht hs)]
  · exact carry_other ht hs

theorem carryAll_unsourced (hk : (p.entries k).isSome) (hs : ∀ c ∈ cs, c.source ≠ some k) :
    (carryAll D create convert p cs).contents k = p.contents k := by
  induction cs generalizing p with
  | nil => rfl
  | cons c cs ih =>
    obtain ⟨v, hv⟩ := Option.isSome_iff_exists.mp hk
    have hk' : ((carry D create convert p c).entries k).isSome := by
      rw [carry_entries, act_unsourced hv (hs c (by simp))]
      rfl
    exact (ih hk' fun c' hc' => hs c' (by simp [hc'])).trans (carry_unsourced hk (hs c (by simp)))

/-! ## An entry that is kept -/

theorem carry_kept (hk : (p.entries k).isSome)
    (hkept : c.source = some k → c.target = k ∨ (p.entries c.target).isSome)
    (hown : c.target = k → c.source = some k) :
    (carry D create convert p c).contents k =
      if c.target = k then convert k (p.contents k) else p.contents k := by
  by_cases hs : c.source = some k
  · cases c with
    | add n => cases hs
    | change old new =>
      obtain rfl : old = k := Option.some.inj hs
      by_cases ht : new = old
      · subst ht
        have hfree : ¬ Blocked p.entries (.change new new) := by
          rintro (hnone | ⟨hne, -⟩)
          · rw [Option.isNone_iff_eq_none] at hnone
            rw [hnone] at hk
            cases hk
          · exact hne rfl
        rw [carry_contents, if_neg hfree, move, Function.update_self]
        exact (if_pos rfl).symm
      · have hblocked : Blocked p.entries (.change old new) :=
          .inr ⟨ht, (hkept hs).resolve_left ht⟩
        rw [carry_contents, if_pos hblocked]
        exact (if_neg ht).symm
  · have ht : c.target ≠ k := fun he => hs (hown he)
    rw [carry_other ht hs, if_neg ht]

/-- Each target is that of one change, so that a content is converted once. -/
theorem carryAll_kept (hk : (p.entries k).isSome) (hkept : Kept p.entries cs k)
    (hown : ∀ c ∈ cs, c.target = k → c.source = some k) (honce : (cs.map Change.target).Nodup) :
    (carryAll D create convert p cs).contents k =
      if ∃ c ∈ cs, c.target = k then convert k (p.contents k) else p.contents k := by
  induction cs generalizing p with
  | nil => simp [carryAll]
  | cons c cs ih =>
    have hact : (carry D create convert p c).contents k = _ := carry_kept hk
      (fun hs => (hkept c (by simp) hs).imp_right And.left) (hown c (by simp))
    obtain ⟨hfirst, honce⟩ := List.nodup_cons.mp honce
    obtain ⟨v, hv⟩ := Option.isSome_iff_exists.mp hk
    have hk' : ((carry D create convert p c).entries k).isSome := by
      rw [carry_entries, act_kept hv (fun hs => (hkept c (by simp) hs).imp_right And.left)
        (hown c (by simp))]
      split <;> rfl
    -- The entries that block a renaming are the sources of no change, so they stay.
    have hkept' : Kept (carry D create convert p c).entries cs k := by
      intro c' hc' hs'
      refine (hkept c' (by simp [hc']) hs').imp_right fun ⟨hsome, hblock⟩ => ⟨?_, ?_⟩
      · obtain ⟨v', hv'⟩ := Option.isSome_iff_exists.mp hsome
        rw [carry_entries, act_unsourced hv' (hblock c (by simp))]
        rfl
      · exact fun c'' hc'' => hblock c'' (by simp [hc''])
    have hrest := ih hk' hkept' (fun c' hc' => hown c' (by simp [hc'])) honce
    have hcons : carryAll D create convert p (c :: cs) =
        carryAll D create convert (carry D create convert p c) cs := rfl
    rw [hcons, hrest, hact]
    by_cases ht : c.target = k
    · have hlater : ¬ ∃ c' ∈ cs, c'.target = k := by
        intro ⟨c', hc', ht'⟩
        exact hfirst (List.mem_map.mpr ⟨c', hc', ht'.trans ht.symm⟩)
      have hex : ∃ c' ∈ c :: cs, c'.target = k := ⟨c, by simp, ht⟩
      rw [if_neg hlater, if_pos ht, if_pos hex]
    · rw [if_neg ht]
      refine if_congr ?_ rfl rfl
      simp [ht]

/-! ## An entry that is made -/

/-- What a change that is made writes under its target. -/
def made (create : K → Option U) (convert : K → Option U → Option U) (r : K → Option U) :
    Change K → Option U
  | .add k => create k
  | .change old new => convert new (r old)

/-- An entry that is missing and is the target of one change alone gets the content of that
change's source, if the source is there and has been left alone. -/
theorem carryAll_created {before after : List (Change K)} (hk : p.entries c.target = none)
    (hbefore : ∀ c' ∈ before, c'.target ≠ c.target)
    (hafter : ∀ c' ∈ after, c'.source ≠ some c.target)
    (hsource : ∀ old, c.source = some old → (run D p.entries before old).isSome ∧
      ∀ c' ∈ before, c'.target ≠ old ∧ c'.source ≠ some old) :
    (carryAll D create convert p (before ++ c :: after)).contents c.target =
      made create convert p.contents c := by
  have hcons : carryAll D create convert (carryAll D create convert p before) (c :: after) =
      carryAll D create convert (carry D create convert (carryAll D create convert p before) c)
        after := rfl
  have habsent : (carryAll D create convert p before).entries c.target = none := by
    rw [carryAll_entries]
    exact run_untargeted hk hbefore
  have hfree : ¬ Blocked (carryAll D create convert p before).entries c := by
    cases c with
    | add n =>
      simp only [Change.target] at habsent
      simp [Blocked, habsent]
    | change old new =>
      simp only [Change.target] at habsent
      have hentries : (carryAll D create convert p before).entries = run D p.entries before :=
        carryAll_entries
      have hold := (hsource old rfl).1
      rw [← hentries] at hold
      simp [Blocked, habsent, Option.isSome_iff_ne_none.mp hold]
  have hpresent : ((carry D create convert (carryAll D create convert p before) c).entries
      c.target).isSome := by
    rw [carry_entries]
    cases c with
    | add n =>
      simp only [Change.target] at habsent ⊢
      simp [act, habsent]
    | change old new =>
      have hact : act D (carryAll D create convert p before).entries (.change old new) =
          Function.update (Function.update (carryAll D create convert p before).entries old none)
            new (some (D new)) := if_neg hfree
      rw [hact, Change.target, Function.update_self]
      rfl
  rw [carryAll_append, hcons, carryAll_unsourced hpresent hafter, carry_contents, if_neg hfree]
  cases c with
  | add n => exact Function.update_self _ _ _
  | change old new =>
    rw [move, Change.target, Function.update_self, made,
      carryAll_other (hsource old rfl).2]

end Renaming
