import Mathlib.Data.List.Basic
import Mathlib.Data.List.Infix
import Mathlib.Logic.Nontrivial.Defs
set_option autoImplicit false

/-!
Patterns of letters, single wildcards and wildcards for any text, over any alphabet:
the texts that a pattern accepts, and which patterns accept one text only.
-/

namespace Like

variable {α : Type}

inductive Tok (α : Type) where
  | lit (c : α)
  | one
  | many
  deriving DecidableEq, Repr

def accepts [DecidableEq α] : List (Tok α) → List α → Bool
  | [], s => s.isEmpty
  | .lit _ :: _, [] => false
  | .lit c :: p, d :: s => c = d && accepts p s
  | .one :: _, [] => false
  | .one :: p, _ :: s => accepts p s
  | .many :: p, s => s.tails.any (accepts p)

theorem exists_map_lit {p : List (Tok α)} (hmany : Tok.many ∉ p) (hone : Tok.one ∉ p) :
    ∃ w : List α, p = w.map .lit := by
  induction p with
  | nil => exact ⟨[], rfl⟩
  | cons tok p ih =>
    obtain ⟨w, rfl⟩ := ih (fun h => hmany (by simp [h])) (fun h => hone (by simp [h]))
    cases tok with
    | lit c => exact ⟨c :: w, rfl⟩
    | one => exact absurd (by simp) hone
    | many => exact absurd (by simp) hmany

section

variable [DecidableEq α]

@[simp] theorem accepts_nil (s : List α) : accepts [] s = true ↔ s = [] := by
  cases s <;> simp [accepts]

@[simp] theorem accepts_lit (c : α) (p : List (Tok α)) (s : List α) :
    accepts (.lit c :: p) s = true ↔ ∃ rest, s = c :: rest ∧ accepts p rest = true := by
  cases s with
  | nil => simp [accepts]
  | cons d s =>
    simp only [accepts, Bool.and_eq_true, decide_eq_true_eq, List.cons.injEq]
    constructor
    · exact fun ⟨hc, hs⟩ => ⟨s, ⟨hc.symm, rfl⟩, hs⟩
    · exact fun ⟨rest, ⟨hc, hrest⟩, hs⟩ => ⟨hc.symm, hrest ▸ hs⟩

@[simp] theorem accepts_one (p : List (Tok α)) (s : List α) :
    accepts (.one :: p) s = true ↔ ∃ c rest, s = c :: rest ∧ accepts p rest = true := by
  cases s <;> simp [accepts]

@[simp] theorem accepts_many (p : List (Tok α)) (s : List α) :
    accepts (.many :: p) s = true ↔ ∃ rest, rest <:+ s ∧ accepts p rest = true := by
  simp [accepts, List.mem_tails]

/-- A pattern of wildcards for any text accepts every text. -/
theorem accepts_replicate_many (n : Nat) (s : List α) :
    accepts (List.replicate (n + 1) .many) s = true := by
  induction n with
  | zero => exact (accepts_many [] s).mpr ⟨[], List.nil_suffix, rfl⟩
  | succ n ih => exact (accepts_many _ s).mpr ⟨s, List.suffix_rfl, ih⟩

theorem accepts_map_lit (w s : List α) : accepts (w.map .lit) s = true ↔ s = w := by
  induction w generalizing s with
  | nil => simp
  | cons c w ih => simp [ih]

/-- What stands at a wildcard for any text may be repeated. -/
theorem accepts_repeat {p : List (Tok α)} (hmany : Tok.many ∈ p) {s : List α}
    (h : accepts p s = true) (u : List α) : accepts p (s ++ u ++ s) = true := by
  induction p generalizing s u with
  | nil => cases hmany
  | cons tok p ih =>
    cases tok with
    | lit c =>
      obtain ⟨rest, rfl, hrest⟩ := (accepts_lit c p s).mp h
      have hp : Tok.many ∈ p := by simpa using hmany
      refine (accepts_lit c p _).mpr ⟨rest ++ (u ++ [c]) ++ rest, by simp, ih hp hrest _⟩
    | one =>
      obtain ⟨c, rest, rfl, hrest⟩ := (accepts_one p s).mp h
      have hp : Tok.many ∈ p := by simpa using hmany
      refine (accepts_one p _).mpr ⟨c, rest ++ (u ++ [c]) ++ rest, by simp, ih hp hrest _⟩
    | many =>
      obtain ⟨rest, hsuffix, hrest⟩ := (accepts_many p s).mp h
      exact (accepts_many p _).mpr ⟨rest, hsuffix.trans (List.suffix_append _ _), hrest⟩

/-- What stands at a single wildcard may be another letter. -/
theorem accepts_other [Nontrivial α] {p : List (Tok α)} (hmany : Tok.many ∉ p)
    (hone : Tok.one ∈ p) {s : List α} (h : accepts p s = true) :
    ∃ s', s' ≠ s ∧ accepts p s' = true := by
  induction p generalizing s with
  | nil => cases hone
  | cons tok p ih =>
    have hp : Tok.many ∉ p := fun hmem => hmany (by simp [hmem])
    cases tok with
    | lit c =>
      obtain ⟨rest, rfl, hrest⟩ := (accepts_lit c p s).mp h
      obtain ⟨s', hne, hs'⟩ := ih hp (by simpa using hone) hrest
      exact ⟨c :: s', by simpa using hne, (accepts_lit c p _).mpr ⟨s', rfl, hs'⟩⟩
    | one =>
      obtain ⟨c, rest, rfl, hrest⟩ := (accepts_one p s).mp h
      obtain ⟨d, hd⟩ := exists_ne c
      exact ⟨d :: rest, by simp [hd], (accepts_one p _).mpr ⟨d, rest, rfl, hrest⟩⟩
    | many => exact absurd (by simp) hmany

/-- The patterns that accept a single text are the texts themselves. -/
theorem accepts_only_iff [Nontrivial α] (p : List (Tok α)) (w : List α) :
    (∀ s, accepts p s = true ↔ s = w) ↔ p = w.map .lit := by
  constructor
  · intro h
    have hw := (h w).mpr rfl
    have hmany : Tok.many ∉ p := by
      intro hmem
      obtain ⟨c, -⟩ := exists_pair_ne α
      have hrepeat := (h _).mp (accepts_repeat hmem hw [c])
      have hlength := congrArg List.length hrepeat
      simp only [List.length_append, List.length_singleton] at hlength
      omega
    have hone : Tok.one ∉ p := by
      intro hmem
      obtain ⟨s, hne, hs⟩ := accepts_other hmany hmem hw
      exact hne ((h s).mp hs)
    obtain ⟨v, rfl⟩ := exists_map_lit hmany hone
    rw [(accepts_map_lit v w).mp hw]
  · intro h s
    rw [h, accepts_map_lit]

end

end Like
