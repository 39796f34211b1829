import Mathlib.Data.List.Basic
set_option autoImplicit false

/-!
The Gregorian calendar, carried on in both directions without an end.

A day is its number, counted from the first of January 1970, or its year, month and
day of the month. The two are the same: `Day.ofNumber` and `Day.number` are inverse.
Months are counted from 0, days of a month from 1.
-/

namespace Calendar

/-! ## Greatest index below a bound -/

/-- The greatest of `0`, …, `n` at which `f` is not above `x`. -/
def locate (f : Nat → Int) (x : Int) : Nat → Nat
  | 0 => 0
  | n + 1 => if f (n + 1) ≤ x then n + 1 else locate f x n

theorem locate_le (f : Nat → Int) (x : Int) (n : Nat) : locate f x n ≤ n := by
  induction n with
  | zero => exact Nat.le_refl 0
  | succ n ih =>
    rw [locate]
    split <;> omega

theorem locate_below {f : Nat → Int} {x : Int} (h : f 0 ≤ x) (n : Nat) :
    f (locate f x n) ≤ x := by
  induction n with
  | zero => exact h
  | succ n ih =>
    rw [locate]
    split
    · assumption
    · exact ih

theorem locate_above {f : Nat → Int} {x : Int} {n : Nat} (h : x < f (n + 1)) :
    x < f (locate f x n + 1) := by
  induction n with
  | zero => exact h
  | succ n ih =>
    rw [locate]
    split
    · exact h
    · exact ih (by omega)

/-! ## Years -/

def IsLeap (y : Int) : Prop := y % 4 = 0 ∧ (y % 100 ≠ 0 ∨ y % 400 = 0)

instance (y : Int) : Decidable (IsLeap y) := inferInstanceAs (Decidable (_ ∧ _))

def daysInYear (y : Int) : Int := if IsLeap y then 366 else 365

/-- The number of the first of January. -/
def daysBeforeYear (y : Int) : Int :=
  365 * (y - 1970) + (y - 1) / 4 - (y - 1) / 100 + (y - 1) / 400 - 477

theorem daysBeforeYear_succ (y : Int) :
    daysBeforeYear (y + 1) = daysBeforeYear y + daysInYear y := by
  unfold daysBeforeYear daysInYear
  by_cases hleap : IsLeap y
  · rw [if_pos hleap]
    unfold IsLeap at hleap
    omega
  · rw [if_neg hleap]
    unfold IsLeap at hleap
    omega

/-- 400 years have 146097 days, evenly spread up to a day and a half. -/
theorem daysBeforeYear_bounds (y : Int) :
    146097 * (y - 1970) - 600 ≤ 400 * daysBeforeYear y ∧
      400 * daysBeforeYear y ≤ 146097 * (y - 1970) + 600 := by
  unfold daysBeforeYear
  omega

/-- The first guess is off by one year at most. -/
def yearOf (n : Int) : Int :=
  let y := 1970 + 400 * n / 146097
  if n < daysBeforeYear y then y - 1 else if daysBeforeYear (y + 1) ≤ n then y + 1 else y

theorem yearOf_bounds (n : Int) :
    daysBeforeYear (yearOf n) ≤ n ∧ n < daysBeforeYear (yearOf n + 1) := by
  have hbefore := daysBeforeYear_bounds (1970 + 400 * n / 146097 - 1)
  have hbehind := daysBeforeYear_bounds (1970 + 400 * n / 146097 + 1 + 1)
  unfold yearOf
  dsimp only
  split
  · rw [Int.sub_add_cancel]
    omega
  · split
    · omega
    · omega

theorem daysInYear_pos (y : Int) : 0 < daysInYear y := by
  unfold daysInYear
  split <;> decide

theorem daysInYear_le (y : Int) : daysInYear y ≤ 366 := by
  unfold daysInYear
  split <;> decide

theorem daysBeforeYear_mono {y y' : Int} (h : y ≤ y') : daysBeforeYear y ≤ daysBeforeYear y' := by
  obtain ⟨k, rfl⟩ := Int.le.dest h
  induction k with
  | zero => simp
  | succ k ih =>
    have hpos := daysInYear_pos (y + k)
    have hstep := daysBeforeYear_succ (y + k)
    rw [Int.natCast_succ, ← Int.add_assoc]
    have := ih (by omega)
    omega

theorem yearOf_eq {n y : Int} (hle : daysBeforeYear y ≤ n) (hlt : n < daysBeforeYear (y + 1)) :
    yearOf n = y := by
  obtain ⟨hle', hlt'⟩ := yearOf_bounds n
  rcases Int.lt_trichotomy (yearOf n) y with h | h | h
  · have := daysBeforeYear_mono (show yearOf n + 1 ≤ y by omega)
    omega
  · exact h
  · have := daysBeforeYear_mono (show y + 1 ≤ yearOf n by omega)
    omega

/-! ## Months -/

def daysInMonth (y : Int) : Nat → Int
  | 1 => if IsLeap y then 29 else 28
  | 3 | 5 | 8 | 10 => 30
  | _ => 31

theorem daysInMonth_le (y : Int) (m : Nat) : daysInMonth y m ≤ 31 := by
  unfold daysInMonth
  split
  · split <;> decide
  all_goals decide

theorem le_daysInMonth (y : Int) (m : Nat) : 28 ≤ daysInMonth y m := by
  unfold daysInMonth
  split
  · split <;> decide
  all_goals decide

/-- The days of the year before the month. -/
def daysBeforeMonth (y : Int) : Nat → Int
  | 0 => 0
  | m + 1 => daysBeforeMonth y m + daysInMonth y m

theorem daysBeforeMonth_succ (y : Int) (m : Nat) :
    daysBeforeMonth y (m + 1) = daysBeforeMonth y m + daysInMonth y m := rfl

theorem daysBeforeMonth_year (y : Int) : daysBeforeMonth y 12 = daysInYear y := by
  simp only [daysBeforeMonth, daysInMonth, daysInYear]
  split <;> decide

theorem daysBeforeMonth_mono (y : Int) {m m' : Nat} (h : m ≤ m') :
    daysBeforeMonth y m ≤ daysBeforeMonth y m' := by
  obtain ⟨k, rfl⟩ := Nat.le.dest h
  induction k with
  | zero => exact Int.le_refl _
  | succ k ih =>
    have hlast := le_daysInMonth y (m + k)
    have hbefore := ih (by omega)
    rw [← Nat.add_assoc, daysBeforeMonth_succ]
    omega

def monthOf (y d : Int) : Nat := locate (daysBeforeMonth y) d 11

theorem monthOf_bounds {y d : Int} (hd : 0 ≤ d) (hlt : d < daysInYear y) :
    monthOf y d < 12 ∧ daysBeforeMonth y (monthOf y d) ≤ d ∧
      d < daysBeforeMonth y (monthOf y d) + daysInMonth y (monthOf y d) := by
  refine ⟨Nat.lt_succ_of_le (locate_le _ _ _), locate_below (f := daysBeforeMonth y) hd 11, ?_⟩
  rw [← daysBeforeMonth_succ]
  exact locate_above (by rwa [daysBeforeMonth_year])

theorem monthOf_eq {y d : Int} {m : Nat} (hm : m < 12) (hle : daysBeforeMonth y m ≤ d)
    (hlt : d < daysBeforeMonth y m + daysInMonth y m) : monthOf y d = m := by
  have hfirst := daysBeforeMonth_mono y (Nat.zero_le m)
  have hlast := daysBeforeMonth_mono y (show m + 1 ≤ 12 by omega)
  rw [daysBeforeMonth_year, daysBeforeMonth_succ] at hlast
  rw [daysBeforeMonth] at hfirst
  obtain ⟨-, hle', hlt'⟩ := monthOf_bounds (y := y) (d := d) (by omega) (by omega)
  rw [← daysBeforeMonth_succ] at hlt hlt'
  rcases Nat.lt_trichotomy (monthOf y d) m with h | h | h
  · have := daysBeforeMonth_mono y (show monthOf y d + 1 ≤ m by omega)
    omega
  · exact h
  · have := daysBeforeMonth_mono y (show m + 1 ≤ monthOf y d by omega)
    omega

/-! ## Days -/

/-- A day of the calendar. -/
@[ext]
structure Day where
  year : Int
  month : Nat
  mday : Int
  month_lt : month < 12
  one_le : 1 ≤ mday
  le : mday ≤ daysInMonth year month

/-- The number of the day before the first of the month, also where the month is not one
of the year's. -/
def daysBefore (y m : Int) : Int :=
  daysBeforeYear (y + m / 12) + daysBeforeMonth (y + m / 12) (m % 12).toNat - 1

theorem daysBefore_of_lt (y : Int) {m : Nat} (hm : m < 12) :
    daysBefore y m = daysBeforeYear y + daysBeforeMonth y m - 1 := by
  have hdiv : (m : Int) / 12 = 0 := by omega
  have hmod : (m : Int) % 12 = m := by omega
  rw [daysBefore, hdiv, hmod, Int.add_zero, Int.toNat_natCast]

def Day.number (d : Day) : Int := daysBefore d.year d.month + d.mday

theorem Day.number_bounds (d : Day) : daysBeforeYear d.year ≤ d.number ∧
    d.number < daysBeforeYear (d.year + 1) ∧
    d.number - daysBeforeYear d.year = daysBeforeMonth d.year d.month + (d.mday - 1) := by
  obtain ⟨y, m, mday, hm, hone, hle⟩ := d
  have hfirst := daysBeforeMonth_mono y (Nat.zero_le m)
  have hlast := daysBeforeMonth_mono y (show m + 1 ≤ 12 by omega)
  rw [daysBeforeMonth_year, daysBeforeMonth_succ] at hlast
  rw [daysBeforeMonth] at hfirst
  simp only [Day.number, daysBefore_of_lt y hm, daysBeforeYear_succ]
  omega

theorem day_bounds (n : Int) : 0 ≤ n - daysBeforeYear (yearOf n) ∧
    n - daysBeforeYear (yearOf n) < daysInYear (yearOf n) := by
  have hyear := yearOf_bounds n
  rw [daysBeforeYear_succ] at hyear
  omega

def Day.ofNumber (n : Int) : Day where
  year := yearOf n
  month := monthOf (yearOf n) (n - daysBeforeYear (yearOf n))
  mday := n - daysBeforeYear (yearOf n) -
    daysBeforeMonth (yearOf n) (monthOf (yearOf n) (n - daysBeforeYear (yearOf n))) + 1
  month_lt := (monthOf_bounds (day_bounds n).1 (day_bounds n).2).1
  one_le := by
    have hmonth := monthOf_bounds (day_bounds n).1 (day_bounds n).2
    omega
  le := by
    have hmonth := monthOf_bounds (day_bounds n).1 (day_bounds n).2
    omega

@[simp] theorem Day.number_ofNumber (n : Int) : (Day.ofNumber n).number = n := by
  have hnumber := (Day.ofNumber n).number_bounds.2.2
  simp only [Day.ofNumber] at hnumber ⊢
  omega

@[simp] theorem Day.ofNumber_number (d : Day) : Day.ofNumber d.number = d := by
  obtain ⟨hle, hlt, hday⟩ := d.number_bounds
  have hyear : yearOf d.number = d.year := yearOf_eq hle hlt
  have hone := d.one_le
  have hlast := d.le
  have hmonth : monthOf d.year (d.number - daysBeforeYear d.year) = d.month :=
    monthOf_eq d.month_lt (by omega) (by omega)
  refine Day.ext hyear ?_ ?_
  · simp only [Day.ofNumber, hyear, hmonth]
  · simp only [Day.ofNumber, hyear, hmonth]
    omega

/-- The days within 10⁹ of the first are those of some three million years. -/
theorem Day.year_bounds {d : Day} (h : -1000000000 ≤ d.number ∧ d.number ≤ 1000000000) :
    -3000000 ≤ d.year ∧ d.year ≤ 3000000 := by
  have hbounds := d.number_bounds
  have hfirst := daysBeforeYear_bounds d.year
  have hlast := daysBeforeYear_bounds (d.year + 1)
  omega

example : (Day.ofNumber 11016).number = 11016 ∧ (Day.ofNumber 11016).year = 2000 ∧
    (Day.ofNumber 11016).month = 1 ∧ (Day.ofNumber 11016).mday = 29 := by decide

end Calendar
