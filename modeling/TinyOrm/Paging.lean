import TinyOrm.SelectGrammar
import TinyOrm.ResultForms
set_option autoImplicit false

/-!
The rows that a `Page` selects (model.h).
-/

namespace TinyOrm

/-! ## The server -/

def readNumber (s : Str) : Option (Nat × Str) :=
  let digits := s.takeWhile Char.isDigit
  if digits = [] then none else some (Nat.ofDigitChars 10 digits 0, s.dropWhile Char.isDigit)

/-- The numbers of ` LIMIT n OFFSET m`. -/
def readLimit (clause : Str) : Option (Nat × Nat) := do
  let s ← clause.dropPrefix? " LIMIT ".toList
  let (limit, s) ← readNumber s
  let s ← s.dropPrefix? " OFFSET ".toList
  let (offset, s) ← readNumber s
  if s = [] then some (limit, offset) else none

/-- What is returned of the rows that a query without the clause returns; `none`: the
clause is refused. -/
def pageRows {α : Type} (pageNum pageSize : Int32) (rows : List α) : Option (List α) :=
  (readLimit (text (Model.pageText pageNum pageSize))).map fun (limit, offset) =>
    (rows.drop offset).take limit

/-- The rows with the positions from `lo` up to `hi`. -/
def rowsBetween {α : Type} (lo hi : Nat) (rows : List α) : List α := (rows.take hi).drop lo

/-- The clause stands at the end of the query, its numbers are those of the page, and so
are the rows that it selects. -/
structure SelectsPage (pageNum pageSize : Int32) : Prop where
  added : ∀ m : Model, text (Model.pageText pageNum pageSize) <:+
    text ((m.Page pageNum pageSize).queryText (ReadOp.limit .All))
  offset : ((pageNum - 1) * pageSize).toInt = (pageNum.toInt - 1) * pageSize.toInt
  rows : ∀ {α : Type} (rows : List α), pageRows pageNum pageSize rows =
    some (rowsBetween ((pageNum.toInt.toNat - 1) * pageSize.toInt.toNat)
      (pageNum.toInt.toNat * pageSize.toInt.toNat) rows)

/-! ## Reading the clause -/

theorem readNumber_digits {s rest : Str} (hs : Digits s) (hrest : NoDigit rest) :
    readNumber (s ++ rest) = some (Nat.ofDigitChars 10 s 0, rest) := by
  have hdrop : (s ++ rest).dropWhile Char.isDigit = rest := by
    rw [List.dropWhile_append_of_pos hs.2]
    cases rest with
    | nil => rfl
    | cons c rest => rw [List.dropWhile_cons_of_neg (by simp [hrest c rfl])]
  rw [readNumber, takeWhile_digits hs hrest, if_neg hs.1, hdrop]

theorem dropPrefix?_front (front s : Str) : (front ++ s).dropPrefix? front = some s :=
  List.dropPrefix?_eq_some_iff.mpr ⟨front, rfl, beq_self_eq_true front⟩

theorem ofDigitChars_showInt {i : Int} (h : 0 ≤ i) :
    Nat.ofDigitChars 10 (showInt i) 0 = i.toNat := by
  cases i with
  | ofNat n => exact Nat.ofDigitChars_toDigits (by decide) (by decide)
  | negSucc n => omega

variable {pageNum pageSize : Int32}

/-- A negative offset is no number of the clause. -/
theorem readLimit_pageText (hsize : 0 < pageSize.toInt) :
    readLimit (text (Model.pageText pageNum pageSize)) =
      if 0 ≤ ((pageNum - 1) * pageSize).toInt then
        some (pageSize.toInt.toNat, ((pageNum - 1) * pageSize).toInt.toNat)
      else none := by
  have hlimit := digits_showInt (Int.le_of_lt hsize)
  have hnext {s : Str} : NoDigit (" OFFSET ".toList ++ s) := by
    intro c hc
    obtain rfl : ' ' = c := Option.some.inj hc
    rfl
  rw [text_pageText, readLimit, List.append_assoc, List.append_assoc, dropPrefix?_front]
  simp only [Option.bind_eq_bind, Option.bind_some, readNumber_digits hlimit hnext,
    dropPrefix?_front, ofDigitChars_showInt (Int.le_of_lt hsize)]
  split
  · rename_i hoff
    have hread := readNumber_digits (digits_showInt hoff) noDigit_nil
    rw [List.append_nil] at hread
    rw [hread, Option.bind_some, ofDigitChars_showInt hoff]
    rfl
  · rename_i hoff
    obtain ⟨s, hs⟩ := showInt_of_neg (Int.not_le.mp hoff)
    have hminus : '-'.isDigit = false := rfl
    rw [hs, readNumber, List.takeWhile_cons_of_neg (by simp [hminus])]
    rfl

theorem offset_eq (hnum : 0 < pageNum.toInt) : ((pageNum - 1) * pageSize).toInt =
    ((pageNum.toInt - 1) * pageSize.toInt).bmod (2 ^ 32) := by
  have hone : (1 : Int32).toInt = 1 := by decide
  have hlt := pageNum.toInt_lt
  have hsub : (pageNum.toInt - 1).bmod (2 ^ 32) = pageNum.toInt - 1 :=
    Int.bmod_eq_of_le (by omega) (by omega)
  rw [Int32.toInt_mul, Int32.toInt_sub, hone, hsub]

/-! ## The clause in the query -/

theorem queryConditions_append (i : Nat) (cs : List Constraint) (c : Constraint)
    (hc : c.conj = .LIMIT) :
    Model.queryConditions i (cs ++ [c]) = Model.queryConditions i cs ++ c.condition := by
  induction cs generalizing i with
  | nil => simp [Model.queryConditions, hc]
  | cons d cs ih => simp [Model.queryConditions, ih]

theorem Page_of_pos (hnum : 0 < pageNum.toInt) (hsize : 0 < pageSize.toInt) (m : Model) :
    m.Page pageNum pageSize = { m with
      constraints := m.constraints ++ [⟨Model.pageText pageNum pageSize, .LIMIT, []⟩] } := by
  rw [Model.Page, if_neg]
  simp only [not_or, Int32.le_iff_toInt_le, Int32.toInt_zero]
  omega

theorem queryWhere_append (cs : List Constraint) (c : Constraint) (hc : c.conj = .LIMIT) :
    text (Model.queryWhere (cs ++ [c])) =
      " WHERE ".toList ++ text (Model.queryConditions 0 cs) ++ text c.condition := by
  rw [Model.queryWhere, if_neg (by simp), queryConditions_append _ _ _ hc, text_append, text_append,
    text_lit, List.append_assoc]

theorem pageText_added (hnum : 0 < pageNum.toInt) (hsize : 0 < pageSize.toInt) (m : Model) :
    text (Model.pageText pageNum pageSize) <:+
      text ((m.Page pageNum pageSize).queryText (ReadOp.limit .All)) := by
  have hlimit : ReadOp.limitText .All = [] := rfl
  rw [Page_of_pos hnum hsize, text_queryText, queryWhere_append _ _ rfl, hlimit, List.append_nil,
    ← List.append_assoc]
  exact List.suffix_append _ _

/-! ## The rows of a page -/

theorem drop_take_page {α : Type} (q s : Nat) (rows : List α) :
    (rows.drop (q * s)).take s = rowsBetween (q * s) ((q + 1) * s) rows := by
  rw [rowsBetween, List.drop_take, Nat.add_mul, Nat.one_mul, Nat.add_sub_cancel_left]

theorem toNat_pageStart (hnum : 0 < pageNum.toInt) (hsize : 0 < pageSize.toInt) :
    ((pageNum.toInt - 1) * pageSize.toInt).toNat =
      (pageNum.toInt.toNat - 1) * pageSize.toInt.toNat := by
  rw [Int.toNat_mul (by omega) (by omega)]
  congr 1
  omega

/-- A page is selected exactly when its first position fits an `int`. -/
theorem selectsPage_iff (hnum : 0 < pageNum.toInt) (hsize : 0 < pageSize.toInt) :
    SelectsPage pageNum pageSize ↔ (pageNum.toInt - 1) * pageSize.toInt < 2 ^ 31 := by
  constructor
  · intro h
    rw [← h.offset]
    exact Int32.toInt_lt _
  · intro hlt
    have hnonneg : 0 ≤ (pageNum.toInt - 1) * pageSize.toInt := Int.mul_nonneg (by omega) (by omega)
    have hoffset : ((pageNum - 1) * pageSize).toInt = (pageNum.toInt - 1) * pageSize.toInt := by
      rw [offset_eq hnum]
      exact Int.bmod_eq_of_le (by omega) (by omega)
    refine ⟨pageText_added hnum hsize, hoffset, fun rows => ?_⟩
    obtain ⟨q, hq⟩ : ∃ q, pageNum.toInt.toNat = q + 1 := ⟨pageNum.toInt.toNat - 1, by omega⟩
    rw [pageRows, readLimit_pageText hsize, hoffset, if_pos hnonneg, toNat_pageStart hnum hsize, hq,
      Nat.add_sub_cancel, Option.map_some]
    exact congrArg some (drop_take_page q _ rows)

/-- Pages one after another are the rows up to the end of the last one. -/
theorem flatMap_pages {α : Type} (n s : Nat) (rows : List α) :
    ((List.range n).flatMap fun i => rowsBetween (i * s) ((i + 1) * s) rows) =
      rows.take (n * s) := by
  induction n with
  | zero => simp
  | succ n ih =>
    rw [List.range_succ, List.flatMap_append, ih, List.flatMap_singleton, ← drop_take_page,
      Nat.add_mul, Nat.one_mul, List.take_add]

end TinyOrm
