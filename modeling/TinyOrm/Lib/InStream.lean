import Mathlib.Data.List.Basic
set_option autoImplicit false

/-!
Sequential input over an arbitrary alphabet, with the behaviour of a C++ input
file stream: a read that finds too few elements delivers what is there and
leaves the stream failed, and a failed stream ignores every later operation.
-/

/-- The data, the read position (which may lie past the end after a seek) and
the failure flag. -/
structure InStream (α : Type) where
  data : List α
  pos : Nat
  fail : Bool
  deriving DecidableEq, Repr

namespace InStream
variable {α : Type}

def ofList (data : List α) : InStream α := ⟨data, 0, false⟩

/-- `read(buf, n)`: the elements delivered (their number is `gcount()`). -/
def read (s : InStream α) (n : Nat) : List α × InStream α :=
  if s.fail then ([], s)
  else
    let got := (s.data.drop s.pos).take n
    (got, { s with pos := s.pos + got.length, fail := decide (got.length < n) })

/-- `seekg(off, cur)`. -/
def seekCur (s : InStream α) (off : Int) : InStream α :=
  if s.fail then s
  else if (s.pos : Int) + off < 0 then { s with fail := true }
  else { s with pos := ((s.pos : Int) + off).toNat }

def advance (s : InStream α) (n : Nat) : InStream α := { s with pos := s.pos + n }

/-- The stream is good and `rest` is what it has still to deliver. -/
def At (s : InStream α) (rest : List α) : Prop :=
  s.fail = false ∧ s.data.drop s.pos = rest

theorem at_ofList (data : List α) : (ofList data).At data := ⟨rfl, rfl⟩

theorem at_advance {s : InStream α} {a b : List α} (h : s.At (a ++ b)) :
    (s.advance a.length).At b := by
  obtain ⟨hf, hd⟩ := h
  refine ⟨hf, ?_⟩
  simp only [advance, ← List.drop_drop, hd, List.drop_left]

/-- A read of exactly what was written next takes it and nothing else. -/
theorem read_append {s : InStream α} {a b : List α} (h : s.At (a ++ b)) :
    s.read a.length = (a, s.advance a.length) := by
  obtain ⟨hf, hd⟩ := h
  simp [read, hf, hd, advance]

theorem read_one {s : InStream α} {c : α} {b : List α} (h : s.At (c :: b)) :
    s.read 1 = ([c], s.advance 1) :=
  read_append (a := [c]) h

theorem read_end {s : InStream α} {n : Nat} (h : s.At []) : (s.read n).1 = [] := by
  obtain ⟨hf, hd⟩ := h
  simp [read, hf, hd]

/-- What reading makes of a stream: it is over the same data, no less far. -/
structure Ahead (s s' : InStream α) : Prop where
  data : s'.data = s.data
  pos : s.pos ≤ s'.pos

theorem Ahead.refl (s : InStream α) : Ahead s s := ⟨rfl, Nat.le_refl _⟩

theorem Ahead.trans {s s' s'' : InStream α} (h : Ahead s s') (h' : Ahead s' s'') : Ahead s s'' :=
  ⟨h'.data.trans h.data, Nat.le_trans h.pos h'.pos⟩

theorem read_ahead (s : InStream α) (n : Nat) : Ahead s (s.read n).2 := by
  unfold read
  split
  · exact .refl s
  · exact ⟨rfl, Nat.le_add_right _ _⟩

theorem seekCur_data (s : InStream α) (off : Int) : (s.seekCur off).data = s.data := by
  unfold seekCur
  split
  · rfl
  · split <;> rfl

theorem seekCur_ahead {s : InStream α} {off : Int} (h : 0 ≤ off) : Ahead s (s.seekCur off) := by
  refine ⟨s.seekCur_data off, ?_⟩
  unfold seekCur
  split
  · exact Nat.le_refl _
  · split
    · exact Nat.le_refl _
    · show s.pos ≤ ((s.pos : Int) + off).toNat
      omega

theorem read_length_le (s : InStream α) (n : Nat) : (s.read n).1.length ≤ n := by
  unfold read
  split
  · simp
  · simp only [List.length_take]
    omega

theorem read_of_fail {s : InStream α} (h : s.fail = true) (n : Nat) : s.read n = ([], s) := by
  simp [read, h]

/-- A read that delivers too few elements fails the stream. -/
theorem read_short {s : InStream α} {n : Nat} (h : (s.read n).1.length < n) :
    (s.read n).2.fail = true := by
  unfold read at h ⊢
  split
  · assumption
  · rename_i hfail
    simpa [hfail] using h

theorem seekCur_append {s : InStream α} {a b : List α} (h : s.At (a ++ b)) :
    s.seekCur a.length = s.advance a.length := by
  have hpos : ¬ (s.pos : Int) + a.length < 0 := by omega
  simp only [seekCur, h.1, hpos, advance, Bool.false_eq_true, if_false]
  congr 1

end InStream
