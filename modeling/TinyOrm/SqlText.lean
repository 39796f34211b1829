import TinyOrm.Text
set_option autoImplicit false

/-!
Texts of SQL statements.

The strings that end up in a statement are made of characters and of stretches
that the program hands on as they came: a name, or an atomic predicate of a
condition such as `age BETWEEN ? AND ?`. A reader of the statement takes such a
stretch as one word; `text` is the string that is sent.
-/

namespace TinyOrm

inductive Sym where
  | ch (c : Char)
  | word (s : Str)
  deriving DecidableEq, Repr

abbrev Sql := List Sym

def ofStr (s : Str) : Sql := s.map .ch

def lit (s : String) : Sql := ofStr s.toList

def word (s : Str) : Sql := [.word s]

def Sym.text : Sym → Str
  | .ch c => [c]
  | .word s => s

def text (sql : Sql) : Str := sql.flatMap Sym.text

@[simp] theorem text_nil : text [] = [] := rfl

@[simp] theorem text_append (a b : Sql) : text (a ++ b) = text a ++ text b := by
  simp [text]

@[simp] theorem text_ofStr (s : Str) : text (ofStr s) = s := by
  induction s with
  | nil => rfl
  | cons c s ih =>
    have hcons : text (ofStr (c :: s)) = c :: text (ofStr s) := rfl
    rw [hcons, ih]

@[simp] theorem text_lit (s : String) : text (lit s) = s.toList := text_ofStr _

@[simp] theorem text_word (s : Str) : text (word s) = s := by
  simp [text, word, Sym.text]

/-! ## Numbers in a stream -/

def decimal (n : Nat) : Str := Nat.toDigits 10 n

def showInt : Int → Str
  | .ofNat n => decimal n
  | .negSucc n => '-' :: decimal (n + 1)

/-- A non-empty run of digits. -/
def Digits (s : Str) : Prop := s ≠ [] ∧ ∀ c ∈ s, c.isDigit = true

instance (s : Str) : Decidable (Digits s) :=
  inferInstanceAs (Decidable (s ≠ [] ∧ ∀ c ∈ s, c.isDigit = true))

theorem digits_decimal (n : Nat) : Digits (decimal n) := by
  constructor
  · exact Nat.toDigits_ne_nil
  · intro c hc
    exact Nat.isDigit_of_mem_toDigits (by decide) (by decide) hc

theorem digits_showInt {i : Int} (h : 0 ≤ i) : Digits (showInt i) := by
  cases i with
  | ofNat n => exact digits_decimal n
  | negSucc n => omega

theorem showInt_of_neg {i : Int} (h : i < 0) : ∃ s, showInt i = '-' :: s := by
  cases i with
  | ofNat n => simp only [Int.ofNat_eq_natCast] at h; omega
  | negSucc n => exact ⟨_, rfl⟩

theorem Digits.not_mem {s : Str} (h : Digits s) {c : Char} (hc : c.isDigit = false) : c ∉ s := by
  intro hmem
  simp [h.2 c hmem] at hc

/-! ## Placeholders -/

def placeholders (sql : Sql) : Nat := (text sql).count '?'

@[simp] theorem placeholders_append (a b : Sql) :
    placeholders (a ++ b) = placeholders a + placeholders b := by
  simp [placeholders]

theorem placeholders_showInt (i : Int) : (showInt i).count '?' = 0 := by
  have hd (n : Nat) : '?' ∉ decimal n := (digits_decimal n).not_mem rfl
  cases i with
  | ofNat n => exact List.count_eq_zero.mpr (hd n)
  | negSucc n => exact List.count_eq_zero.mpr (by simp [showInt, hd])

end TinyOrm
