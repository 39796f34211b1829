import Mathlib.Algebra.BigOperators.Group.List.Basic
import Mathlib.Algebra.BigOperators.Group.Multiset.Basic
import Mathlib.Algebra.Order.Group.Multiset
set_option autoImplicit false

/-!
Programs over a memory of cells, and rules for the cells they own.

A triple names all the cells that a program starts with and ends with, so that what it
gives up and what it loses are told apart. The rest of the memory is left alone.
-/

namespace Memory

variable {V α β : Type}

/-- The cells in use, with their addresses, and the next address. -/
structure Mem (V : Type) where
  cells : List (Nat × V)
  next : Nat

def Mem.empty : Mem V := ⟨[], 0⟩

/-- `none` is behaviour that is not defined. -/
abbrev Prog (V α : Type) := StateT (Mem V) Option α

def undefined : Prog V α := fun _ => none

def alloc (v : V) : Prog V Nat := fun m => some (m.next, ⟨(m.next, v) :: m.cells, m.next + 1⟩)

def load (a : Nat) : Prog V V := fun m => (m.cells.lookup a).map fun v => (v, m)

/-- `ok` is what the deallocator is for. -/
def free (ok : V → Bool) (a : Nat) : Prog V Unit := fun m =>
  match m.cells.lookup a with
  | none => none
  | some v => if ok v then some ((), { m with cells := m.cells.filter fun c => c.1 ≠ a }) else none

/-- An address is that of one cell. -/
structure Mem.Valid (m : Mem V) : Prop where
  below : ∀ c ∈ m.cells, c.1 < m.next
  nodup : (m.cells.map Prod.fst).Nodup

theorem Mem.valid_empty : (empty : Mem V).Valid := ⟨by simp [empty], by simp [empty]⟩

abbrev Cells (V : Type) := Multiset (Nat × V)

def Triple (pre : Cells V) (p : Prog V α) (post : α → Cells V → Prop) : Prop :=
  ∀ (m : Mem V) (frame : Cells V), m.Valid → (m.cells : Cells V) = pre + frame →
    ∃ a m' own, p m = some (a, m') ∧ m'.Valid ∧ (m'.cells : Cells V) = own + frame ∧ post a own

/-- With these cells the program is not defined. -/
def Stuck (pre : Cells V) (p : Prog V α) : Prop :=
  ∀ (m : Mem V) (frame : Cells V), m.Valid → (m.cells : Cells V) = pre + frame → p m = none

/-! ## Structural rules -/

theorem Triple.pure {pre : Cells V} {a : α} {post : α → Cells V → Prop} (h : post a pre) :
    Triple pre (pure a) post :=
  fun m _ hvalid hcells => ⟨a, m, pre, rfl, hvalid, hcells, h⟩

theorem Triple.mono {pre : Cells V} {p : Prog V α} {post post' : α → Cells V → Prop}
    (h : Triple pre p post) (himp : ∀ a own, post a own → post' a own) : Triple pre p post' := by
  intro m frame hvalid hcells
  obtain ⟨a, m', own, hrun, hvalid', hcells', hpost⟩ := h m frame hvalid hcells
  exact ⟨a, m', own, hrun, hvalid', hcells', himp a own hpost⟩

/-- A program in front of another, which takes the cells that the first one does not need. -/
theorem Triple.bind {pre extra : Cells V} {p : Prog V α} {f : α → Prog V β}
    {mid : α → Cells V → Prop} {post : β → Cells V → Prop} (h : Triple pre p mid)
    (hf : ∀ a own, mid a own → Triple (own + extra) (f a) post) :
    Triple (pre + extra) (p >>= f) post := by
  intro m frame hvalid hcells
  rw [add_assoc] at hcells
  obtain ⟨a, m₁, own, hrun, hvalid₁, hcells₁, hmid⟩ := h m (extra + frame) hvalid hcells
  rw [← add_assoc] at hcells₁
  obtain ⟨b, m₂, own₂, hrun₂, hvalid₂, hcells₂, hpost⟩ := hf a own hmid m₁ frame hvalid₁ hcells₁
  refine ⟨b, m₂, own₂, ?_, hvalid₂, hcells₂, hpost⟩
  have hbind : (p >>= f) m = (p m).bind fun r => f r.1 r.2 := rfl
  rw [hbind, hrun]
  exact hrun₂

/-- The rest of the memory is left alone. -/
theorem Triple.frame {pre : Cells V} {p : Prog V α} {post : α → Cells V → Prop}
    (h : Triple pre p post) (extra : Cells V) :
    Triple (pre + extra) p fun a own => ∃ own', own = own' + extra ∧ post a own' := by
  intro m frame hvalid hcells
  rw [add_assoc] at hcells
  obtain ⟨a, m', own, hrun, hvalid', hcells', hpost⟩ := h m (extra + frame) hvalid hcells
  rw [← add_assoc] at hcells'
  exact ⟨a, m', own + extra, hrun, hvalid', hcells', own, rfl, hpost⟩

theorem Stuck.bind {pre : Cells V} {p : Prog V α} (h : Stuck pre p) (f : α → Prog V β) :
    Stuck pre (p >>= f) := by
  intro m frame hvalid hcells
  have hbind : (p >>= f) m = (p m).bind fun r => f r.1 r.2 := rfl
  rw [hbind, h m frame hvalid hcells]
  rfl

theorem Stuck.frame {pre : Cells V} {p : Prog V α} (h : Stuck pre p) (extra : Cells V) :
    Stuck (pre + extra) p := by
  intro m frame hvalid hcells
  rw [add_assoc] at hcells
  exact h m (extra + frame) hvalid hcells

theorem Triple.bind_stuck {pre : Cells V} {p : Prog V α} {f : α → Prog V β}
    {mid : α → Cells V → Prop} (h : Triple pre p mid)
    (hf : ∀ a own, mid a own → Stuck own (f a)) : Stuck pre (p >>= f) := by
  intro m frame hvalid hcells
  obtain ⟨a, m', own, hrun, hvalid', hcells', hmid⟩ := h m frame hvalid hcells
  have hbind : (p >>= f) m = (p m).bind fun r => f r.1 r.2 := rfl
  rw [hbind, hrun]
  exact hf a own hmid m' frame hvalid' hcells'

/-- A loop keeps what each of its rounds keeps. -/
theorem Triple.foldlM {γ : Type} {f : β → γ → Prog V β} {I : List γ → β → Cells V → Prop}
    (hstep : ∀ x l b p, I (x :: l) b p → Triple p (f b x) (I l)) {l : List γ} {b : β}
    {p : Cells V} (h : I l b p) : Triple p (l.foldlM f b) (I []) := by
  induction l generalizing b p with
  | nil => exact Triple.pure h
  | cons x l ih =>
    have hfirst := hstep x l b p h
    rw [List.foldlM_cons, ← add_zero p]
    refine hfirst.bind fun b' own' hinv => ?_
    rw [add_zero]
    exact ih hinv

theorem Stuck.run {p : Prog V α} (h : Stuck 0 p) : p Mem.empty = none :=
  h Mem.empty 0 Mem.valid_empty rfl

/-- What runs on the empty memory. -/
theorem Triple.run {p : Prog V α} {post : α → Cells V → Prop} (h : Triple 0 p post) :
    ∃ a m, p Mem.empty = some (a, m) ∧ m.Valid ∧ post a m.cells := by
  obtain ⟨a, m, own, hrun, hvalid, hcells, hpost⟩ := h Mem.empty 0 Mem.valid_empty rfl
  rw [add_zero] at hcells
  exact ⟨a, m, hrun, hvalid, hcells ▸ hpost⟩

/-! ## Cells -/

theorem Triple.alloc (v : V) : Triple 0 (alloc v) fun a own => own = {(a, v)} := by
  intro m frame hvalid hcells
  refine ⟨m.next, _, {(m.next, v)}, rfl, ⟨?_, ?_⟩, ?_, rfl⟩
  · intro c hc
    rcases List.mem_cons.mp hc with rfl | hc
    · exact Nat.lt_succ_self _
    · exact Nat.lt_succ_of_lt (hvalid.below c hc)
  · refine List.nodup_cons.mpr ⟨fun hmem => ?_, hvalid.nodup⟩
    obtain ⟨c, hc, heq⟩ := List.mem_map.mp hmem
    exact Nat.lt_irrefl _ (heq ▸ hvalid.below c hc)
  · rw [zero_add] at hcells
    rw [← hcells]
    rfl

theorem Mem.Valid.lookup {m : Mem V} (h : m.Valid) {a : Nat} {v : V} (hmem : (a, v) ∈ m.cells) :
    m.cells.lookup a = some v := by
  obtain ⟨-, hnodup⟩ := h
  generalize m.cells = cells at hnodup hmem
  induction cells with
  | nil => cases hmem
  | cons c cells ih =>
    obtain ⟨hnew, hrest⟩ := List.nodup_cons.mp hnodup
    rcases List.mem_cons.mp hmem with rfl | hmem
    · simp
    · have hne : (a == c.1) = false := by
        rw [beq_eq_false_iff_ne]
        intro heq
        exact hnew (heq ▸ List.mem_map_of_mem hmem)
      rw [List.lookup_cons, hne]
      exact ih hrest hmem

theorem Triple.load {pre : Cells V} {a : Nat} {v : V} (h : (a, v) ∈ pre) :
    Triple pre (load a) fun w own => w = v ∧ own = pre := by
  intro m frame hvalid hcells
  have hmem : (a, v) ∈ m.cells := by
    rw [← Multiset.mem_coe, hcells]
    exact Multiset.mem_add.mpr (.inl h)
  refine ⟨v, m, pre, ?_, hvalid, hcells, rfl, rfl⟩
  rw [Memory.load, hvalid.lookup hmem]
  rfl

/-- The cell is the only one at its address. -/
theorem filter_ne {cells : List (Nat × V)} (h : (cells.map Prod.fst).Nodup) {a : Nat} {v : V}
    (hmem : (a, v) ∈ cells) :
    (cells : Cells V) =
      {(a, v)} + ((cells.filter fun c => c.1 ≠ a : List (Nat × V)) : Cells V) := by
  induction cells with
  | nil => cases hmem
  | cons c cells ih =>
    obtain ⟨hnew, hrest⟩ := List.nodup_cons.mp h
    rcases List.mem_cons.mp hmem with rfl | hmem
    · have hall : cells.filter (fun c => decide (c.1 ≠ a)) = cells := by
        refine List.filter_eq_self.mpr fun c hc => ?_
        simp only [ne_eq, decide_not, Bool.not_eq_eq_eq_not, Bool.not_true, decide_eq_false_iff_not]
        intro heq
        exact hnew (List.mem_map.mpr ⟨c, hc, heq⟩)
      rw [List.filter_cons_of_neg (by simp), hall]
      rfl
    · have hne : c.1 ≠ a := by
        intro heq
        exact hnew (heq ▸ List.mem_map_of_mem hmem)
      rw [List.filter_cons_of_pos (by simpa using hne), ← Multiset.cons_coe, ih hrest hmem,
        ← Multiset.cons_coe, Multiset.singleton_add, Multiset.singleton_add, Multiset.cons_swap]

theorem Triple.free {ok : V → Bool} {a : Nat} {v : V} (hok : ok v = true) :
    Triple {(a, v)} (free ok a) fun _ own => own = 0 := by
  intro m frame hvalid hcells
  have hmem : (a, v) ∈ m.cells := by
    rw [← Multiset.mem_coe, hcells]
    exact Multiset.mem_add.mpr (.inl (Multiset.mem_singleton_self _))
  have hsplit := filter_ne hvalid.nodup hmem
  refine ⟨(), { m with cells := m.cells.filter fun c => c.1 ≠ a }, 0, ?_, ⟨?_, ?_⟩, ?_, rfl⟩
  · rw [Memory.free, hvalid.lookup hmem]
    simp only [hok, if_true]
  · exact fun c hc => hvalid.below c (List.mem_of_mem_filter hc)
  · exact hvalid.nodup.sublist (List.filter_sublist.map _)
  · rw [hsplit] at hcells
    rw [zero_add]
    exact add_left_cancel hcells

/-- One of the parts of a whole is exchanged. -/
theorem sum_map_set {γ M : Type} [AddCommMonoid M] (f : γ → M) {xs : List γ} {i : Nat} {y : γ}
    (h : xs[i]? = some y) (x : γ) :
    ((xs.set i x).map f).sum + f y = (xs.map f).sum + f x := by
  induction xs generalizing i with
  | nil => simp at h
  | cons z xs ih =>
    cases i with
    | zero =>
      obtain rfl : z = y := by simpa using h
      simp only [List.set_cons_zero, List.map_cons, List.sum_cons]
      rw [add_right_comm, add_comm (f x), add_right_comm]
    | succ i =>
      have hmore := ih (i := i) (by simpa using h)
      simp only [List.set_cons_succ, List.map_cons, List.sum_cons]
      rw [add_assoc, hmore, add_assoc]

/-! ## Cells in front of a program -/

theorem Triple.alloc_bind {pre : Cells V} {v : V} {f : Nat → Prog V β}
    {post : β → Cells V → Prop} (h : ∀ a, Triple ({(a, v)} + pre) (f a) post) :
    Triple pre (Memory.alloc v >>= f) post := by
  rw [← zero_add pre]
  refine (Triple.alloc v).bind fun a own hown => ?_
  rw [hown]
  exact h a

theorem Triple.load_bind {pre : Cells V} {a : Nat} {v : V} (hmem : (a, v) ∈ pre)
    {f : V → Prog V β} {post : β → Cells V → Prop} (h : Triple pre (f v) post) :
    Triple pre (Memory.load a >>= f) post := by
  rw [← add_zero pre]
  refine (Triple.load hmem).bind fun w own hown => ?_
  rw [hown.1, hown.2, add_zero]
  exact h

theorem Triple.free_bind {pre : Cells V} {ok : V → Bool} {a : Nat} {v : V} (hok : ok v = true)
    {f : Unit → Prog V β} {post : β → Cells V → Prop} (h : Triple pre (f ()) post) :
    Triple ({(a, v)} + pre) (Memory.free ok a >>= f) post := by
  refine (Triple.free hok).bind fun _ own hown => ?_
  rw [hown, zero_add]
  exact h

end Memory
