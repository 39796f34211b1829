import Mathlib.Data.Fintype.Card
import Mathlib.Data.Set.Finite.Basic
import Mathlib.Logic.Relation
set_option autoImplicit false

/-!
Walks along a partial function.

From a place `p` the walk goes on to `next p`, and stops where that is `none`. If
only finitely many places have a next one, it stops exactly if it never returns to
a place.
-/

namespace Walk

variable {P : Type} (next : P → Option P)

def Go (p q : P) : Prop := next p = some q

/-- The walk from `p` comes to an end. -/
inductive Stops : P → Prop where
  | stop {p : P} (h : next p = none) : Stops p
  | go {p q : P} (h : next p = some q) (rest : Stops q) : Stops p

def Visits (p q : P) : Prop := Relation.ReflTransGen (Go next) p q

def Returns (q : P) : Prop := Relation.TransGen (Go next) q q

variable {next}

theorem Visits.refl (p : P) : Visits next p p := Relation.ReflTransGen.refl

theorem Visits.go {p q r : P} (h : next p = some q) (hv : Visits next q r) : Visits next p r :=
  Relation.ReflTransGen.head h hv

/-- What is visited is the place itself or visited from the next one. -/
theorem Visits.cases {p r : P} (h : Visits next p r) :
    r = p ∨ ∃ q, next p = some q ∧ Visits next q r := by
  rcases Relation.ReflTransGen.cases_head h with rfl | ⟨q, hq, hv⟩
  · exact Or.inl rfl
  · exact Or.inr ⟨q, hq, hv⟩

/-- Whoever returns to a place returns to the next one. -/
theorem Returns.goes_on {p q : P} (h : Returns next p) (hq : next p = some q) : Returns next q := by
  obtain ⟨r, hr, hv⟩ := Relation.TransGen.head'_iff.mp h
  have hqr : q = r := Option.some.inj (hq.symm.trans hr)
  rw [← hqr] at hv
  exact Relation.TransGen.tail' hv hq

theorem Stops.not_returns {p : P} (h : Stops next p) : ¬ Returns next p := by
  induction h with
  | stop hnone =>
    intro hret
    obtain ⟨r, hr, -⟩ := Relation.TransGen.head'_iff.mp hret
    rw [Go, hnone] at hr
    cases hr
  | go hq _ ih => exact fun hret => ih (Returns.goes_on hret hq)

theorem Stops.of_visits {p q : P} (h : Stops next p) (hv : Visits next p q) : Stops next q := by
  induction h with
  | stop hnone =>
    rcases hv.cases with rfl | ⟨r, hr, -⟩
    · exact .stop hnone
    · rw [hnone] at hr
      cases hr
  | go hnext rest ih =>
    rcases hv.cases with rfl | ⟨r, hr, hv⟩
    · exact .go hnext rest
    · rw [hnext] at hr
      obtain rfl := Option.some.inj hr
      exact ih hv

theorem stops_of_no_return {S : Set P} (hS : S.Finite)
    (hsource : ∀ p q, next p = some q → p ∈ S) {p : P}
    (h : ∀ q, Visits next p q → ¬ Returns next q) : Stops next p := by
  have hoff {q : P} (hq : q ∉ S) : Stops next q := by
    cases hnext : next q with
    | none => exact .stop hnext
    | some r => exact absurd (hsource q r hnext) hq
  -- among the places visited, one comes below another if the walk leads to it
  let T := { q : P // q ∈ S ∧ Visits next p q }
  let below (a b : T) : Prop := Relation.TransGen (Go next) b.1 a.1
  have hfinite : Finite T :=
    hS.subset (s := S) (t := { q : P | q ∈ S ∧ Visits next p q }) fun q hq => hq.1
  have htrans : IsTrans T below := ⟨fun _ _ _ hab hbc => hbc.trans hab⟩
  have hirrefl : Std.Irrefl below := ⟨fun a => h a.1 a.2.2⟩
  have hwf := Finite.wellFounded_of_trans_of_irrefl below
  have hstops : ∀ a : T, Stops next a.1 := by
    intro a
    induction a using hwf.induction with
    | _ a ih =>
      cases hnext : next a.1 with
      | none => exact .stop hnext
      | some q =>
        by_cases hq : q ∈ S
        · have hv : Visits next p q := Relation.ReflTransGen.tail a.2.2 hnext
          exact .go hnext (ih ⟨q, hq, hv⟩ (Relation.TransGen.single hnext))
        · exact .go hnext (hoff hq)
  by_cases hp : p ∈ S
  · exact hstops ⟨p, hp, .refl p⟩
  · exact hoff hp

theorem stops_iff {S : Set P} (hS : S.Finite) (hsource : ∀ p q, next p = some q → p ∈ S) (p : P) :
    Stops next p ↔ ∀ q, Visits next p q → ¬ Returns next q :=
  ⟨fun h _ hv => (h.of_visits hv).not_returns, stops_of_no_return hS hsource⟩

/-- Whoever returns has somewhere taken a step that does not go up in `rank`. -/
theorem Returns.back {p : P} (h : Returns next p) (rank : P → Nat) :
    ∃ q r, Visits next p q ∧ next q = some r ∧ rank r ≤ rank q ∧ Visits next r q := by
  by_contra hup
  have hrank : ∀ q, Relation.TransGen (Go next) p q → Visits next q p → rank p < rank q := by
    intro q hq
    induction hq with
    | single hnext =>
      intro hv
      have hlt : ¬ rank _ ≤ rank p := fun hle => hup ⟨p, _, .refl p, hnext, hle, hv⟩
      omega
    | @tail q r hpq hnext ih =>
      intro hv
      have hrq : Visits next r q := hv.trans hpq.to_reflTransGen
      have hlt : ¬ rank r ≤ rank q := fun hle => hup ⟨q, r, hpq.to_reflTransGen, hnext, hle, hrq⟩
      have hlow := ih (.go hnext hv)
      omega
  exact Nat.lt_irrefl _ (hrank p h (.refl p))

/-- It is enough to look at the steps that do not go up. -/
theorem stops_iff_back {S : Set P} (hS : S.Finite) (hsource : ∀ p q, next p = some q → p ∈ S)
    (rank : P → Nat) (p : P) : Stops next p ↔
      ∀ q r, Visits next p q → next q = some r → rank r ≤ rank q → ¬ Visits next r q := by
  rw [stops_iff hS hsource]
  constructor
  · intro h q r hv hnext _ hback
    exact h q hv (Relation.TransGen.head' hnext hback)
  · intro h q hv hret
    obtain ⟨q', r, hv', hnext, hle, hback⟩ := hret.back rank
    exact h q' r (Relation.ReflTransGen.trans hv hv') hnext hle hback

end Walk
