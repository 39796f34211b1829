import TinyOrm.LocalTime
set_option autoImplicit false

/-!
`Timestamp::toMysqlTime` and `Timestamp::addTime` (mysql4cpp/timestamp.cpp).
-/

namespace TinyOrm

open Calendar

/-! ## MYSQL_TIME -/

inductive TimestampType where
  | MYSQL_TIMESTAMP_NONE
  | MYSQL_TIMESTAMP_ERROR
  | MYSQL_TIMESTAMP_DATE
  | MYSQL_TIMESTAMP_DATETIME
  | MYSQL_TIMESTAMP_TIME
  deriving DecidableEq, Repr

/-- `MYSQL_TIME` with the members that no reader of a time looks at. -/
structure TypedTime extends MysqlTime where
  neg : Bool := false
  time_type : TimestampType
  deriving DecidableEq, Repr

/-- An assignment to an `unsigned int`. -/
def toUInt32 (n : Int) : Nat := (n % 2 ^ 32).toNat

/-- `second_part` is an `unsigned long`. -/
def Timestamp.toMysqlTime (gmtoff : Int32) (t : Int64) (type : TimestampType) : TypedTime :=
  let tm := localTime gmtoff t
  { year := toUInt32 (tm.tm_year + 1900)
    month := toUInt32 (tm.tm_mon + 1)
    day := toUInt32 tm.tm_mday
    hour := toUInt32 tm.tm_hour
    minute := toUInt32 tm.tm_min
    second := toUInt32 tm.tm_sec
    second_part := (t % microSecondsPerSecond).toUInt64.toNat
    time_type := type }

/-- The members name an instant of the zone, in microseconds. -/
structure MysqlTime.Denotes (gmtoff : Int32) (m : MysqlTime) (instant : Int) : Prop where
  date : ∃ d : Day, d.year = m.year ∧ d.month + 1 = m.month ∧ d.mday = m.day ∧
    instant =
      (d.number * 86400 + m.hour * 3600 + m.minute * 60 + m.second - gmtoff.toInt) * 10 ^ 6 +
      m.second_part
  hour_lt : m.hour < 24
  minute_lt : m.minute < 60
  second_lt : m.second < 60

/-- The year of the instant in the zone. -/
def Timestamp.yearOf (gmtoff : Int32) (t : Int64) : Int :=
  (Day.ofNumber ((t.toInt / 10 ^ 6 + gmtoff.toInt) / 86400)).year

/-- The conversion to a `MYSQL_TIME` and back is exact. -/
structure Timestamp.Exact (lib : CLib) (gmtoff : Int32) (t : Int64) : Prop where
  second_part : (toMysqlTime gmtoff t .MYSQL_TIMESTAMP_DATETIME).second_part < 10 ^ 6
  denotes : (toMysqlTime gmtoff t .MYSQL_TIMESTAMP_DATETIME).Denotes gmtoff t.toInt
  back : ofMysqlTime (lib.inZone gmtoff)
    (toMysqlTime gmtoff t .MYSQL_TIMESTAMP_DATETIME).toMysqlTime = t

namespace Timestamp

variable {lib : CLib} {gmtoff : Int32} {t : Int64}

theorem toUInt32_of_lt {n : Int} (hle : 0 ≤ n) (hlt : n < 2 ^ 32) : ((toUInt32 n : Nat) : Int) =
    n := by
  rw [toUInt32]
  omega

theorem toInt32_of_lt {n : Int} (hle : -2 ^ 31 ≤ n) (hlt : n < 2 ^ 31) : toInt32 n = n :=
  Int.bmod_eq_of_le (by omega) (by omega)

/-! ## The microseconds -/

/-- At or after the epoch, or on a whole second. -/
def Whole (t : Int64) : Prop := 0 ≤ t.toInt ∨ (10 : Int) ^ 6 ∣ t.toInt

theorem Whole.tdiv (h : Whole t) : t.toInt.tdiv (10 ^ 6) = t.toInt / 10 ^ 6 :=
  (tdiv_million _).trans (if_pos h)

theorem toNat_toUInt64 (n : Int64) : ((n.toUInt64.toNat : Nat) : Int) = n.toInt % 2 ^ 64 := by
  have hbmod : n.toInt = (n.toUInt64.toNat : Int).bmod (2 ^ 64) := BitVec.toInt_eq_toNat_bmod _
  have hemod : (n.toUInt64.toNat : Int).bmod (2 ^ 64) % (2 ^ 64 : Nat) =
      n.toUInt64.toNat % (2 ^ 64 : Nat) := Int.bmod_emod
  have hlt := n.toUInt64.toNat_lt
  rw [← hbmod] at hemod
  omega

/-- What `%` leaves; it is negative where the quotient was rounded up. -/
theorem second_part_eq (t : Int64) :
    (((t % microSecondsPerSecond).toUInt64.toNat : Nat) : Int) =
      (t.toInt - 10 ^ 6 * t.toInt.tdiv (10 ^ 6)) % 2 ^ 64 := by
  rw [toNat_toUInt64, Int64.toInt_mod, toInt_microSecondsPerSecond, Int.tmod_def]

theorem second_part_lt_iff :
    (t % microSecondsPerSecond).toUInt64.toNat < 10 ^ 6 ↔ Whole t := by
  have hmicro := second_part_eq t
  have hle := t.le_toInt
  constructor
  · intro hlt
    by_contra hwhole
    have htdiv := (tdiv_million t.toInt).trans (if_neg hwhole)
    simp only [Whole, not_or, Int.not_le] at hwhole
    omega
  · intro hwhole
    rw [hwhole.tdiv] at hmicro
    omega

theorem Whole.second_part (h : Whole t) :
    (((t % microSecondsPerSecond).toUInt64.toNat : Nat) : Int) = t.toInt % 10 ^ 6 := by
  have hmicro := second_part_eq t
  rw [h.tdiv] at hmicro
  omega

/-! ## The fields -/

/-- The second that the instant lies in, on the local clock. -/
def localSecond (gmtoff : Int32) (t : Int64) : Int := t.toInt / 10 ^ 6 + gmtoff.toInt

theorem Whole.localTime (h : Whole t) :
    Timestamp.localTime gmtoff t = Tm.ofSeconds (localSecond gmtoff t) := by
  rw [localTime_eq, h.tdiv, localSecond]

theorem printable_localSecond (hyear : 0 ≤ yearOf gmtoff t ∧ yearOf gmtoff t ≤ 9999) :
    (Tm.ofSeconds (localSecond gmtoff t)).Printable := by
  have hyear' : (Tm.ofSeconds (localSecond gmtoff t)).tm_year + 1900 = yearOf gmtoff t :=
    Int.sub_add_cancel _ _
  exact (Tm.valid_ofSeconds _).printable (hyear' ▸ hyear)

/-- The members are the fields of the local clock. -/
theorem Whole.members (h : Whole t) (hyear : 0 ≤ yearOf gmtoff t ∧ yearOf gmtoff t ≤ 9999)
    (type : TimestampType) :
    let m := toMysqlTime gmtoff t type
    let tm := Tm.ofSeconds (localSecond gmtoff t)
    (m.year : Int) = tm.tm_year + 1900 ∧ (m.month : Int) = tm.tm_mon + 1 ∧
    (m.day : Int) = tm.tm_mday ∧
      (m.hour : Int) = tm.tm_hour ∧ (m.minute : Int) = tm.tm_min ∧ (m.second : Int) = tm.tm_sec ∧
      (m.second_part : Int) = t.toInt % 10 ^ 6 := by
  obtain ⟨hyear', hmon, hmday, hhour, hmin, hsec⟩ := printable_localSecond hyear
  simp only [toMysqlTime, h.localTime]
  exact ⟨toUInt32_of_lt (by omega) (by omega), toUInt32_of_lt (by omega) (by omega),
    toUInt32_of_lt (by omega) (by omega), toUInt32_of_lt (by omega) (by omega),
    toUInt32_of_lt (by omega) (by omega), toUInt32_of_lt (by omega) (by omega), h.second_part⟩

theorem Whole.denotes (h : Whole t) (hyear : 0 ≤ yearOf gmtoff t ∧ yearOf gmtoff t ≤ 9999)
    (type : TimestampType) : (toMysqlTime gmtoff t type).Denotes gmtoff t.toInt := by
  obtain ⟨hy, hmon, hday, hhour, hmin, hsec, hpart⟩ := h.members hyear type
  have hvalid := Tm.valid_ofSeconds (localSecond gmtoff t)
  have hseconds := hvalid.seconds_eq
  rw [Tm.seconds_ofSeconds] at hseconds
  have hsecond : localSecond gmtoff t = t.toInt / 10 ^ 6 + gmtoff.toInt := rfl
  have hhour' := hvalid.hour
  have hmin' := hvalid.min
  have hsec' := hvalid.sec
  have hnat := Int.toNat_of_nonneg hvalid.mon.1
  refine ⟨⟨hvalid.day, ?_, ?_, ?_, ?_⟩, ?_, ?_, ?_⟩
  · exact hy.symm
  · simp only [Tm.Valid.day]
    omega
  · exact hday.symm
  · rw [hhour, hmin, hsec, hpart]
    omega
  · omega
  · omega
  · omega

theorem Whole.tm_eq (h : Whole t) (hyear : 0 ≤ yearOf gmtoff t ∧ yearOf gmtoff t ≤ 9999)
    (type : TimestampType) :
    (toMysqlTime gmtoff t type).tm = Tm.ofSeconds (localSecond gmtoff t) := by
  obtain ⟨hy, hmon, hday, hhour, hmin, hsec, -⟩ := h.members hyear type
  obtain ⟨hyear', hmon', hmday', hhour', hmin', hsec'⟩ := printable_localSecond hyear
  rw [MysqlTime.tm, hy, hmon, hday, hhour, hmin, hsec, Int.add_sub_cancel, Int.add_sub_cancel,
    toInt32_of_lt (by omega) (by omega), toInt32_of_lt (by omega) (by omega),
    toInt32_of_lt (by omega) (by omega), toInt32_of_lt (by omega) (by omega),
    toInt32_of_lt (by omega) (by omega), toInt32_of_lt (by omega) (by omega)]

theorem ofNat_toUInt64 (n : Int64) : Int64.ofNat n.toUInt64.toNat = n := by
  show (UInt64.ofNat n.toUInt64.toNat).toInt64 = n
  rw [UInt64.ofNat_toNat, Int64.toInt64_toUInt64]

/-- What `/` and `%` divide adds up again, also before the epoch. -/
theorem seconds_add_micro (t : Int64) :
    t / microSecondsPerSecond * microSecondsPerSecond + t % microSecondsPerSecond = t := by
  have hdef := Int.mul_tdiv_add_tmod t.toInt (10 ^ 6)
  rw [← Int64.toInt_inj, Int64.toInt_add, Int64.toInt_mul, toInt_seconds, Int64.toInt_mod,
    toInt_microSecondsPerSecond, Int.bmod_add_bmod, Int.mul_comm, hdef]
  exact Int64.toInt_bmod t

theorem Whole.back (h : Whole t) (hyear : 0 ≤ yearOf gmtoff t ∧ yearOf gmtoff t ≤ 9999)
    (type : TimestampType) :
    ofMysqlTime (lib.inZone gmtoff) (toMysqlTime gmtoff t type).toMysqlTime = t := by
  have htm : (toMysqlTime gmtoff t type).tm = Timestamp.localTime gmtoff t :=
    (h.tm_eq hyear type).trans h.localTime.symm
  have hmktime : (lib.inZone gmtoff).mktime (Timestamp.localTime gmtoff t) =
      t / microSecondsPerSecond := mktime_localTime t
  rw [ofMysqlTime, htm, hmktime]
  calc t / microSecondsPerSecond * microSecondsPerSecond +
        Int64.ofNat (t % microSecondsPerSecond).toUInt64.toNat
      = t / microSecondsPerSecond * microSecondsPerSecond + t % microSecondsPerSecond := by
        rw [ofNat_toUInt64]
    _ = t := seconds_add_micro t

/-! ## Exact conversions -/

/-- The conversion is exact at and after the epoch and on whole seconds. -/
theorem exact_iff (hyear : 1 ≤ yearOf gmtoff t ∧ yearOf gmtoff t ≤ 9999) :
    Exact lib gmtoff t ↔ 0 ≤ t.toInt ∨ (10 : Int) ^ 6 ∣ t.toInt := by
  have hyear' : 0 ≤ yearOf gmtoff t ∧ yearOf gmtoff t ≤ 9999 := by omega
  constructor
  · intro h
    exact second_part_lt_iff.mp h.second_part
  · intro h
    have hwhole : Whole t := h
    exact ⟨second_part_lt_iff.mpr hwhole, hwhole.denotes hyear' _, hwhole.back hyear' _⟩

theorem exact_before_epoch :
    Exact { mktime := fun _ => 0, atof := fun _ => 0, toFloat := fun _ => 0 } 3600 (-1000000) :=
  (exact_iff (by decide)).mpr (Or.inr (by decide))

/-- A microsecond before the epoch. -/
theorem micro_before_epoch :
    (toMysqlTime 0 (-1) .MYSQL_TIMESTAMP_DATETIME).second_part = 18446744073709551615 ∧
      ¬ ∀ (lib : CLib) (gmtoff : Int32) (t : Int64),
        1 ≤ yearOf gmtoff t ∧ yearOf gmtoff t ≤ 9999 → Exact lib gmtoff t := by
  have hpart : (toMysqlTime 0 (-1) .MYSQL_TIMESTAMP_DATETIME).second_part =
      18446744073709551615 := by decide
  refine ⟨hpart, fun h => ?_⟩
  have hexact := h { mktime := fun _ => 0, atof := fun _ => 0, toFloat := fun _ => 0 } 0 (-1)
    (by decide)
  have hlt := hexact.second_part
  rw [hpart] at hlt
  omega

/-! ## addTime -/

/-- A sum of `int`s; `none`: it overflows. -/
def checkedInt (n : Int) : Option Int := if -2 ^ 31 ≤ n ∧ n < 2 ^ 31 then some n else none

def checkedTime (n : Int) : Option Int64 :=
  if -2 ^ 63 ≤ n ∧ n < 2 ^ 63 then some (Int64.ofInt n) else none

theorem checkedTime_eq_some {n : Int} {t : Int64} : checkedTime n = some t ↔ t.toInt = n := by
  unfold checkedTime
  split
  · rename_i h
    rw [Option.some.injEq, ← Int64.toInt_inj, Int64.toInt_ofInt_of_le h.1 h.2]
    exact eq_comm
  · rename_i h
    have hle := t.le_toInt
    have hlt := t.toInt_lt
    exact ⟨fun heq => by contradiction, fun heq => absurd ⟨heq ▸ hle, heq ▸ hlt⟩ h⟩

/-- One `case` of the `switch`. -/
def moved (field : Int) (value : Int32) (unit : TimeUnit) : Option Int := do
  let sum ← checkedInt (field + value.toInt)
  pure (if _isvalid_tm_field sum unit then sum else field)

/-- `none`: a signed sum or product overflows. -/
def addTime (gmtoff : Int32) (t : Int64) (value : Int32) (unit : TimeUnit) : Option Int64 := do
  let _tm := localTime gmtoff t
  let _tm ← match unit with
    | .year => do pure { _tm with tm_year := ← moved _tm.tm_year value .year }
    | .month => do pure { _tm with tm_mon := ← moved _tm.tm_mon value .month }
    | .day => do pure { _tm with tm_mday := ← moved _tm.tm_mday value .day }
    | .hour => do pure { _tm with tm_hour := ← moved _tm.tm_hour value .hour }
    | .minute => do pure { _tm with tm_min := ← moved _tm.tm_min value .minute }
    | .second => do pure { _tm with tm_sec := ← moved _tm.tm_sec value .second }
    | .microsecond => pure _tm
  checkedTime ((mktime gmtoff _tm).toInt * microSecondsPerSecond.toInt)

/-- The units of one length. -/
inductive FixedUnit where
  | second
  | minute
  | hour
  | day
  deriving DecidableEq, Repr

namespace FixedUnit

def unit : FixedUnit → TimeUnit
  | .second => .second
  | .minute => .minute
  | .hour => .hour
  | .day => .day

def seconds : FixedUnit → Int
  | .second => 1
  | .minute => 60
  | .hour => 3600
  | .day => 86400

def field (tm : Tm) : FixedUnit → Int
  | .second => tm.tm_sec
  | .minute => tm.tm_min
  | .hour => tm.tm_hour
  | .day => tm.tm_mday

def set (tm : Tm) (n : Int) : FixedUnit → Tm
  | .second => { tm with tm_sec := n }
  | .minute => { tm with tm_min := n }
  | .hour => { tm with tm_hour := n }
  | .day => { tm with tm_mday := n }

theorem seconds_set (u : FixedUnit) (tm : Tm) (n : Int) :
    (u.set tm n).seconds = tm.seconds + (n - u.field tm) * u.seconds := by
  cases u with
  | second | minute | hour | day =>
    simp only [set, Tm.seconds, field, seconds]
    omega

theorem field_bounds (u : FixedUnit) {tm : Tm} (h : tm.Valid) :
    _isvalid_tm_field (u.field tm) u.unit = true := by
  have hlast := Int.le_trans h.mday_le (daysInMonth_le _ _)
  have hone := h.one_le
  have hhour := h.hour
  have hmin := h.min
  have hsec := h.sec
  cases u with
  | second | minute | hour | day =>
    simp only [unit, field]
    simp only [_isvalid_tm_field, Bool.and_eq_true, decide_eq_true_eq]
    omega

theorem bounds_of_valid {u : FixedUnit} {n : Int} (h : _isvalid_tm_field n u.unit = true) :
    0 ≤ n ∧ n ≤ 60 := by
  cases u with
  | second | minute | hour | day =>
    simp only [unit, _isvalid_tm_field, Bool.and_eq_true, decide_eq_true_eq] at h
    omega

theorem shift_bounds (u : FixedUnit) {n k : Int} (hn : 0 ≤ n ∧ n ≤ 60) (hk : 0 ≤ k ∧ k ≤ 60) :
    -60 * 86400 ≤ (n - k) * u.seconds ∧ (n - k) * u.seconds ≤ 60 * 86400 := by
  cases u with
  | second | minute | hour | day =>
    simp only [seconds]
    omega

end FixedUnit

/-- `t` stays where the field would leave its range, and moves by whole units elsewhere. -/
structure Moves (gmtoff : Int32) (t : Int64) (value : Int32) (u : FixedUnit) (t' : Int64) :
    Prop where
  result : addTime gmtoff t value u.unit = some t'
  stays : _isvalid_tm_field (u.field (localTime gmtoff t) + value.toInt) u.unit = false → t' = t
  adds : _isvalid_tm_field (u.field (localTime gmtoff t) + value.toInt) u.unit = true →
    t'.toInt = t.toInt + value.toInt * u.seconds * 10 ^ 6
  micro : t'.toInt % 10 ^ 6 = t.toInt % 10 ^ 6
  zero : value = 0 → t' = t

variable {value : Int32} {u : FixedUnit}

theorem addTime_eq : addTime gmtoff t value u.unit =
    (moved (u.field (localTime gmtoff t)) value u.unit).bind fun n =>
      checkedTime ((mktime gmtoff (u.set (localTime gmtoff t) n)).toInt *
        microSecondsPerSecond.toInt) := by
  cases u with
  | second | minute | hour | day =>
    simp only [addTime, FixedUnit.unit, FixedUnit.field, FixedUnit.set, Option.bind_eq_bind,
      Option.pure_def, Option.bind_some]

theorem localField_valid (gmtoff : Int32) (t : Int64) (u : FixedUnit) :
    _isvalid_tm_field (u.field (localTime gmtoff t)) u.unit = true := by
  rw [localTime_eq]
  exact u.field_bounds (Tm.valid_ofSeconds _)

/-- What is returned for the field `n`, counted from the truncated second. -/
theorem toInt_mktime_set {n : Int} (hn : _isvalid_tm_field n u.unit = true) :
    (mktime gmtoff (u.set (localTime gmtoff t) n)).toInt =
      t.toInt.tdiv (10 ^ 6) + (n - u.field (localTime gmtoff t)) * u.seconds := by
  have hgmt := gmtoff.toInt_lt
  have hgmt' := gmtoff.le_toInt
  have hlt := t.toInt_lt
  have hle := t.le_toInt
  have hseconds : (localTime gmtoff t).seconds = t.toInt.tdiv (10 ^ 6) + gmtoff.toInt := by
    rw [localTime_eq, Tm.seconds_ofSeconds]
  have hshift := u.shift_bounds (FixedUnit.bounds_of_valid hn)
    (FixedUnit.bounds_of_valid (localField_valid gmtoff t u))
  have hrange : -93 * 10 ^ 11 ≤ t.toInt.tdiv (10 ^ 6) ∧ t.toInt.tdiv (10 ^ 6) ≤ 93 * 10 ^ 11 := by
    rw [tdiv_million]
    split <;> omega
  have hset := u.seconds_set (localTime gmtoff t) n
  rw [toInt_mktime (by omega), hset]
  omega

theorem moved_eq {field : Int} {unit : TimeUnit} : moved field value unit =
    if -2 ^ 31 ≤ field + value.toInt ∧ field + value.toInt < 2 ^ 31 then
      some (if _isvalid_tm_field (field + value.toInt) unit then field + value.toInt else field)
    else none := by
  rw [moved, checkedInt]
  split <;> rfl

/-- A result is that of the field that the `switch` leaves. -/
theorem addTime_eq_some {t' : Int64} : addTime gmtoff t value u.unit = some t' ↔
    (-2 ^ 31 ≤ u.field (localTime gmtoff t) + value.toInt ∧
      u.field (localTime gmtoff t) + value.toInt < 2 ^ 31) ∧
    t'.toInt = (t.toInt.tdiv (10 ^ 6) +
      (if _isvalid_tm_field (u.field (localTime gmtoff t) + value.toInt) u.unit then value.toInt
        else 0) * u.seconds) * 10 ^ 6 := by
  rw [addTime_eq, moved_eq]
  by_cases hint : -2 ^ 31 ≤ u.field (localTime gmtoff t) + value.toInt ∧
      u.field (localTime gmtoff t) + value.toInt < 2 ^ 31
  · rw [if_pos hint, Option.bind_some, checkedTime_eq_some, and_iff_right hint,
      toInt_microSecondsPerSecond]
    split
    · rename_i hvalid
      rw [toInt_mktime_set hvalid, Int.add_comm (u.field _), Int.add_sub_cancel]
    · rw [toInt_mktime_set (localField_valid gmtoff t u), Int.sub_self]
  · rw [if_neg hint]
    exact ⟨fun h => by contradiction, fun h => absurd h.1 hint⟩

/-- Whole seconds move as they should, as far as the numbers fit; no other instant keeps
its microseconds. -/
theorem moves_iff : (∃ t', Moves gmtoff t value u t') ↔
    (10 : Int) ^ 6 ∣ t.toInt ∧
      (-2 ^ 31 ≤ u.field (localTime gmtoff t) + value.toInt ∧
        u.field (localTime gmtoff t) + value.toInt < 2 ^ 31) ∧
      (_isvalid_tm_field (u.field (localTime gmtoff t) + value.toInt) u.unit = true →
        -2 ^ 63 ≤ t.toInt + value.toInt * u.seconds * 10 ^ 6 ∧
          t.toInt + value.toInt * u.seconds * 10 ^ 6 < 2 ^ 63) := by
  constructor
  · rintro ⟨t', h⟩
    obtain ⟨hint, ht'⟩ := addTime_eq_some.mp h.result
    have hmicro := h.micro
    refine ⟨by omega, hint, fun hvalid => ?_⟩
    rw [← h.adds hvalid]
    exact ⟨t'.le_toInt, t'.toInt_lt⟩
  · rintro ⟨hwhole, hint, hlong⟩
    have hle := t.le_toInt
    have hlt := t.toInt_lt
    have htdiv := Whole.tdiv (Or.inr hwhole)
    cases hvalid : _isvalid_tm_field (u.field (localTime gmtoff t) + value.toInt) u.unit with
    | true =>
      obtain ⟨hlow, hhigh⟩ := hlong hvalid
      have hsum := Int64.toInt_ofInt_of_le hlow hhigh
      refine ⟨Int64.ofInt (t.toInt + value.toInt * u.seconds * 10 ^ 6), ?_, ?_, ?_, ?_, ?_⟩
      · rw [addTime_eq_some, htdiv, if_pos hvalid, hsum]
        exact ⟨hint, by omega⟩
      · intro hstay
        rw [hvalid] at hstay
        contradiction
      · exact fun _ => hsum
      · rw [hsum]
        omega
      · rintro rfl
        rw [← Int64.toInt_inj, hsum, Int32.toInt_zero]
        omega
    | false =>
      refine ⟨t, ?_, fun _ => rfl, ?_, rfl, fun _ => rfl⟩
      · rw [addTime_eq_some, htdiv, if_neg (by simp [hvalid])]
        exact ⟨hint, by omega⟩
      · intro hadd
        rw [hvalid] at hadd
        contradiction

/-- A time of 1 µs moved by nothing. -/
theorem micro_lost : addTime 0 1 0 .second = some 0 ∧
    ¬ ∀ (gmtoff : Int32) (t : Int64) (value : Int32) (u : FixedUnit),
      ∃ t', Moves gmtoff t value u t' := by
  have hlost : addTime 0 1 0 FixedUnit.second.unit = some 0 := by decide
  refine ⟨hlost, fun h => ?_⟩
  obtain ⟨t', ht'⟩ := h 0 1 0 .second
  have hresult := ht'.result
  rw [ht'.zero rfl, hlost] at hresult
  exact absurd hresult (by decide)

end Timestamp

end TinyOrm
