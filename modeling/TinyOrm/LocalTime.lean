import TinyOrm.Lib.Calendar
import TinyOrm.Timestamp
set_option autoImplicit false

/-!
Broken-down time in a zone whose clocks are `gmtoff` seconds ahead, as the C library
has it.
-/

namespace TinyOrm

open Calendar

/-! ## Seconds of the local clock -/

namespace Tm

/-- The seconds from the first of January 1970 to `tm`. Fields may leave their ranges. -/
def seconds (tm : Tm) : Int :=
  (daysBefore (tm.tm_year + 1900) tm.tm_mon + tm.tm_mday) * 86400 +
    tm.tm_hour * 3600 + tm.tm_min * 60 + tm.tm_sec

def ofDay (d : Day) (rest : Int) : Tm where
  tm_year := d.year - 1900
  tm_mon := d.month
  tm_mday := d.mday
  tm_hour := rest / 3600
  tm_min := rest % 3600 / 60
  tm_sec := rest % 60

def ofSeconds (n : Int) : Tm := ofDay (Day.ofNumber (n / 86400)) (n % 86400)

/-- A time of a day that the calendar has. -/
structure Valid (tm : Tm) : Prop where
  mon : 0 ≤ tm.tm_mon ∧ tm.tm_mon < 12
  one_le : 1 ≤ tm.tm_mday
  mday_le : tm.tm_mday ≤ daysInMonth (tm.tm_year + 1900) tm.tm_mon.toNat
  hour : 0 ≤ tm.tm_hour ∧ tm.tm_hour < 24
  min : 0 ≤ tm.tm_min ∧ tm.tm_min < 60
  sec : 0 ≤ tm.tm_sec ∧ tm.tm_sec < 60

instance (tm : Tm) : Decidable tm.Valid :=
  decidable_of_iff
    ((0 ≤ tm.tm_mon ∧ tm.tm_mon < 12) ∧ 1 ≤ tm.tm_mday ∧
      tm.tm_mday ≤ daysInMonth (tm.tm_year + 1900) tm.tm_mon.toNat ∧
      (0 ≤ tm.tm_hour ∧ tm.tm_hour < 24) ∧ (0 ≤ tm.tm_min ∧ tm.tm_min < 60) ∧
      0 ≤ tm.tm_sec ∧ tm.tm_sec < 60)
    ⟨fun ⟨h1, h2, h3, h4, h5, h6⟩ => ⟨h1, h2, h3, h4, h5, h6⟩,
      fun ⟨h1, h2, h3, h4, h5, h6⟩ => ⟨h1, h2, h3, h4, h5, h6⟩⟩

theorem valid_ofDay (d : Day) {rest : Int} (h : 0 ≤ rest ∧ rest < 86400) :
    (ofDay d rest).Valid where
  mon := by
    have := d.month_lt
    simp only [ofDay]
    omega
  one_le := d.one_le
  mday_le := by
    have := d.le
    simp only [ofDay, Int.sub_add_cancel, Int.toNat_natCast]
    omega
  hour := by
    simp only [ofDay]
    omega
  min := by
    simp only [ofDay]
    omega
  sec := by
    simp only [ofDay]
    omega

theorem valid_ofSeconds (n : Int) : (ofSeconds n).Valid := valid_ofDay _ (by omega)

theorem seconds_ofDay (d : Day) (rest : Int) : (ofDay d rest).seconds =
    d.number * 86400 + rest := by
  simp only [seconds, ofDay, Int.sub_add_cancel, Day.number]
  omega

@[simp] theorem seconds_ofSeconds (n : Int) : (ofSeconds n).seconds = n := by
  rw [ofSeconds, seconds_ofDay, Day.number_ofNumber]
  omega

/-- The day of a valid time. -/
def Valid.day {tm : Tm} (h : tm.Valid) : Day where
  year := tm.tm_year + 1900
  month := tm.tm_mon.toNat
  mday := tm.tm_mday
  month_lt := by
    have := h.mon
    omega
  one_le := h.one_le
  le := h.mday_le

theorem Valid.seconds_eq {tm : Tm} (h : tm.Valid) : tm.seconds =
    h.day.number * 86400 + (tm.tm_hour * 3600 + tm.tm_min * 60 + tm.tm_sec) := by
  have hmon : ((tm.tm_mon.toNat : Nat) : Int) = tm.tm_mon := Int.toNat_of_nonneg h.mon.1
  simp only [seconds, Valid.day, Day.number, hmon]
  omega

@[simp] theorem Valid.ofSeconds_seconds {tm : Tm} (h : tm.Valid) : ofSeconds tm.seconds = tm := by
  have hhour := h.hour
  have hmin := h.min
  have hsec := h.sec
  have hday : tm.seconds / 86400 = h.day.number := by
    rw [h.seconds_eq]
    omega
  have hrest : tm.seconds % 86400 = tm.tm_hour * 3600 + tm.tm_min * 60 + tm.tm_sec := by
    rw [h.seconds_eq]
    omega
  have hmon : ((tm.tm_mon.toNat : Nat) : Int) = tm.tm_mon := Int.toNat_of_nonneg h.mon.1
  have hhour' : tm.seconds % 86400 / 3600 = tm.tm_hour := by omega
  have hmin' : tm.seconds % 86400 % 3600 / 60 = tm.tm_min := by omega
  have hsec' : tm.seconds % 86400 % 60 = tm.tm_sec := by omega
  rw [ofSeconds, hday, Day.ofNumber_number, ofDay, hhour', hmin', hsec']
  simp only [Valid.day, Int.add_sub_cancel, hmon]

/-- Four digits show the year, and two digits each of the other fields. -/
structure Printable (tm : Tm) : Prop where
  year : 0 ≤ tm.tm_year + 1900 ∧ tm.tm_year + 1900 ≤ 9999
  mon : 0 ≤ tm.tm_mon ∧ tm.tm_mon < 12
  mday : 1 ≤ tm.tm_mday ∧ tm.tm_mday ≤ 31
  hour : 0 ≤ tm.tm_hour ∧ tm.tm_hour < 24
  min : 0 ≤ tm.tm_min ∧ tm.tm_min < 60
  sec : 0 ≤ tm.tm_sec ∧ tm.tm_sec < 60

theorem Valid.printable {tm : Tm} (h : tm.Valid)
    (hyear : 0 ≤ tm.tm_year + 1900 ∧ tm.tm_year + 1900 ≤ 9999) : tm.Printable where
  year := hyear
  mon := h.mon
  mday := ⟨h.one_le, Int.le_trans h.mday_le (daysInMonth_le _ _)⟩
  hour := h.hour
  min := h.min
  sec := h.sec

/-- Seconds that reach three hundred thousand years in both directions. -/
theorem year_ofSeconds {n : Int} (h : -10 ^ 13 ≤ n ∧ n ≤ 10 ^ 13) :
    -2 ^ 31 ≤ (ofSeconds n).tm_year ∧ (ofSeconds n).tm_year < 2 ^ 31 := by
  have hyear := (Day.ofNumber (n / 86400)).year_bounds (by
    rw [Day.number_ofNumber]
    omega)
  simp only [ofSeconds, ofDay]
  omega

end Tm

/-! ## The zone -/

/-- `tm` stays as it was where no `int` holds the year. -/
def localtime_r (gmtoff : Int32) (t : Int64) (tm : Tm) : Tm :=
  let shown := Tm.ofSeconds (t.toInt + gmtoff.toInt)
  if -2 ^ 31 ≤ shown.tm_year ∧ shown.tm_year < 2 ^ 31 then shown else tm

def mktime (gmtoff : Int32) (tm : Tm) : Int64 :=
  let shown := Tm.ofSeconds tm.seconds
  if -2 ^ 31 ≤ shown.tm_year ∧ shown.tm_year < 2 ^ 31 then Int64.ofInt (tm.seconds - gmtoff.toInt)
  else -1

/-- The library in the zone. -/
def CLib.inZone (lib : CLib) (gmtoff : Int32) : CLib := { lib with mktime := TinyOrm.mktime gmtoff }

section Zone

variable {gmtoff : Int32}

theorem localtime_r_eq {t : Int64} (h : -95 * 10 ^ 11 ≤ t.toInt ∧ t.toInt ≤ 95 * 10 ^ 11)
    (tm : Tm) :
    localtime_r gmtoff t tm = Tm.ofSeconds (t.toInt + gmtoff.toInt) := by
  have hlt := gmtoff.toInt_lt
  have hle := gmtoff.le_toInt
  exact if_pos (Tm.year_ofSeconds (by omega))

theorem toInt_mktime {tm : Tm} (h : -95 * 10 ^ 11 ≤ tm.seconds ∧ tm.seconds ≤ 95 * 10 ^ 11) :
    (mktime gmtoff tm).toInt = tm.seconds - gmtoff.toInt := by
  have hlt := gmtoff.toInt_lt
  have hle := gmtoff.le_toInt
  rw [mktime, if_pos (Tm.year_ofSeconds (by omega))]
  exact Int64.toInt_ofInt_of_le (by omega) (by omega)

/-- The two functions are inverse, as far as times of a `Timestamp` reach. -/
theorem mktime_localtime_r {t : Int64} (h : -94 * 10 ^ 11 ≤ t.toInt ∧ t.toInt ≤ 94 * 10 ^ 11)
    (tm : Tm) : mktime gmtoff (localtime_r gmtoff t tm) = t := by
  have hlt := gmtoff.toInt_lt
  have hle := gmtoff.le_toInt
  rw [localtime_r_eq (by omega), ← Int64.toInt_inj, toInt_mktime, Tm.seconds_ofSeconds,
    Int.add_sub_cancel]
  rw [Tm.seconds_ofSeconds]
  omega

theorem localtime_r_mktime {tm : Tm} (hvalid : tm.Valid)
    (h : -94 * 10 ^ 11 ≤ tm.seconds ∧ tm.seconds ≤ 94 * 10 ^ 11) (tm' : Tm) :
    localtime_r gmtoff (mktime gmtoff tm) tm' = tm := by
  have hlt := gmtoff.toInt_lt
  have hle := gmtoff.le_toInt
  have hmktime := @toInt_mktime gmtoff tm (by omega)
  rw [localtime_r_eq (by omega), hmktime, Int.sub_add_cancel, hvalid.ofSeconds_seconds]

end Zone

namespace Timestamp

def isValid (t : Int64) : Bool := t > 0

/-- The fields of `t` without its microseconds. -/
def localTime (gmtoff : Int32) (t : Int64) : Tm :=
  localtime_r gmtoff (t / microSecondsPerSecond) {}

theorem toInt_microSecondsPerSecond : microSecondsPerSecond.toInt = 10 ^ 6 := by decide

theorem isValid_iff (t : Int64) : isValid t = true ↔ 0 < t.toInt := by
  rw [isValid, decide_eq_true_iff, gt_iff_lt, Int64.lt_iff_toInt_lt]
  exact Iff.rfl

theorem toInt_seconds (t : Int64) : (t / microSecondsPerSecond).toInt = t.toInt.tdiv (10 ^ 6) := by
  rw [Int64.toInt_div_of_ne_right _ _ (by decide), toInt_microSecondsPerSecond]

/-- The quotient is rounded towards the epoch. -/
theorem tdiv_million (n : Int) : n.tdiv (10 ^ 6) =
    if 0 ≤ n ∨ (10 : Int) ^ 6 ∣ n then n / 10 ^ 6 else n / 10 ^ 6 + 1 := by
  rw [Int.tdiv_eq_ediv]
  split <;> simp

theorem seconds_bounds (t : Int64) :
    -94 * 10 ^ 11 ≤ t.toInt.tdiv (10 ^ 6) ∧ t.toInt.tdiv (10 ^ 6) ≤ 94 * 10 ^ 11 := by
  have hlt := t.toInt_lt
  have hle := t.le_toInt
  rw [tdiv_million]
  split <;> omega

variable {gmtoff : Int32}

theorem localTime_eq (t : Int64) : localTime gmtoff t =
    Tm.ofSeconds (t.toInt.tdiv (10 ^ 6) + gmtoff.toInt) := by
  have hseconds := toInt_seconds t
  have hbounds := seconds_bounds t
  rw [← hseconds] at hbounds
  rw [localTime, localtime_r_eq (by omega), hseconds]

theorem mktime_localTime (t : Int64) :
    mktime gmtoff (localTime gmtoff t) = t / microSecondsPerSecond := by
  have hbounds := seconds_bounds t
  rw [← toInt_seconds t] at hbounds
  exact mktime_localtime_r hbounds _

theorem toInt_mktime_mul {tm : Tm} (hle : -2 ^ 63 ≤ (tm.seconds - gmtoff.toInt) * 10 ^ 6)
    (hlt : (tm.seconds - gmtoff.toInt) * 10 ^ 6 < 2 ^ 63) :
    (mktime gmtoff tm * microSecondsPerSecond).toInt = (tm.seconds - gmtoff.toInt) * 10 ^ 6 := by
  have hlt' := gmtoff.toInt_lt
  have hle' := gmtoff.le_toInt
  rw [Int64.toInt_mul, toInt_mktime (by omega), toInt_microSecondsPerSecond]
  exact Int.bmod_eq_of_le (by omega) (by omega)

end Timestamp

end TinyOrm
