import Mathlib.Data.List.Basic
set_option autoImplicit false

/-!
States with a part for each key, and programs on them that stay within one part.
-/

/-- A state has a part for each key, and the parts can be set one by one. -/
structure Parts (S K V : Type) where
  get : S → K → V
  set : S → K → V → S
  get_set : ∀ s k v, get (set s k v) k = v
  get_set_of_ne : ∀ s k v j, j ≠ k → get (set s k v) j = get s j
  set_get : ∀ s k, set s k (get s k) = s
  set_set : ∀ s k v v', set (set s k v) k v' = set s k v'

namespace Parts

variable {S K V A : Type} (P : Parts S K V)

/-- The program reads and changes the part of one key only; it may fail. -/
def Local (k : K) (f : S → Option S) : Prop :=
  ∃ act : V → Option V, ∀ s, f s = (act (P.get s k)).map (P.set s k)

/-- The other parts are those of `base`. -/
def only (base s : S) (k : K) : S := P.set base k (P.get s k)

theorem only_get (base s : S) (k : K) : P.get (P.only base s k) k = P.get s k := P.get_set _ _ _

theorem only_congr {base s s' : S} {k : K} (h : P.get s k = P.get s' k) :
    P.only base s k = P.only base s' k := by rw [only, only, h]

variable {P} {k : K} {f g : S → Option S}

theorem local_some : P.Local k some :=
  ⟨some, fun s => by rw [Option.map_some, P.set_get]⟩

theorem Local.bind (hf : P.Local k f) (hg : P.Local k g) : P.Local k fun s => (f s).bind g := by
  obtain ⟨actf, hf⟩ := hf
  obtain ⟨actg, hg⟩ := hg
  refine ⟨fun v => (actf v).bind actg, fun s => ?_⟩
  simp only [hf]
  cases actf (P.get s k) with
  | none => rfl
  | some v =>
    have hset : P.set (P.set s k v) k = P.set s k := funext fun v' => P.set_set s k v v'
    rw [Option.map_some, Option.bind_some, hg, P.get_set, hset, Option.bind_some]

/-- A program that is passed over where it fails. -/
theorem Local.getD (hf : P.Local k f) : P.Local k fun s => some ((f s).getD s) := by
  obtain ⟨act, hf⟩ := hf
  refine ⟨fun v => some ((act v).getD v), fun s => ?_⟩
  simp only [hf]
  cases act (P.get s k) with
  | none => rw [Option.map_none, Option.getD_none, Option.getD_none, Option.map_some, P.set_get]
  | some v => rfl

theorem Local.foldlM {f : S → A → Option S} {as : List A} (h : ∀ a ∈ as, P.Local k (f · a)) :
    P.Local k fun s => as.foldlM f s := by
  induction as with
  | nil => exact local_some
  | cons a as ih => exact (h a (.head as)).bind (ih fun b hb => h b (.tail a hb))

theorem Local.other (hf : P.Local k f) {s s' : S} (h : f s = some s') {j : K} (hj : j ≠ k) :
    P.get s' j = P.get s j := by
  obtain ⟨act, hf⟩ := hf
  rw [hf, Option.map_eq_some_iff] at h
  obtain ⟨v, -, rfl⟩ := h
  exact P.get_set_of_ne s k v j hj

/-- What the program does can be seen on its part alone. -/
theorem Local.only (hf : P.Local k f) (base s : S) :
    f (P.only base s k) = (f s).map fun s' => P.only base s' k := by
  obtain ⟨act, hf⟩ := hf
  rw [hf, hf, Parts.only, P.get_set, Option.map_map]
  refine congrArg (Option.map · (act (P.get s k))) (funext fun v => ?_)
  rw [Function.comp_apply, Parts.only, P.get_set, P.set_set]

end Parts
