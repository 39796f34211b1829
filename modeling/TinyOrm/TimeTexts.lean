import TinyOrm.LocalTime
import TinyOrm.ResultForms
set_option autoImplicit false

/-!
`Timestamp::toFormattedString` and the texts that `Timestamp(const string&)` reads
(mysql4cpp/timestamp.cpp).
-/

namespace TinyOrm

open Calendar

/-! ## toFormattedString -/

/-- A number printed with `%0wd`. -/
def printInt (w : Nat) : Int → Str
  | .ofNat n => padded w n
  | .negSucc n => '-' :: padded (w - 1) (n + 1)

def formatTm (_tm : Tm) : Str :=
  printInt 4 (_tm.tm_year + 1900) ++ '-' :: (printInt 2 (_tm.tm_mon + 1) ++
    '-' :: (printInt 2 _tm.tm_mday ++ ' ' :: (printInt 2 _tm.tm_hour ++
      ':' :: (printInt 2 _tm.tm_min ++ ':' :: printInt 2 _tm.tm_sec))))

def Timestamp.toFormattedString (gmtoff : Int32) (t : Int64) : Str :=
  if isValid t then formatTm (localTime gmtoff t) else []

theorem printInt_natCast (w n : Nat) : printInt w n = padded w n := rfl

/-- A number ends where no digit follows it. -/
theorem digits_append_inj {a b r r' : Str} (ha : Digits a) (hb : Digits b) (hr : NoDigit r)
    (hr' : NoDigit r') (h : a ++ r = b ++ r') : a = b ∧ r = r' := by
  have hab : a = b := by rw [← takeWhile_digits ha hr, h, takeWhile_digits hb hr']
  subst hab
  exact ⟨rfl, List.append_cancel_left h⟩

theorem padded_append_inj {w n m : Nat} {r r' : Str} (hr : NoDigit r) (hr' : NoDigit r')
    (h : padded w n ++ r = padded w m ++ r') : n = m ∧ r = r' := by
  obtain ⟨hpadded, hrest⟩ :=
    digits_append_inj (digits_padded w n) (digits_padded w m) hr hr' h
  refine ⟨?_, hrest⟩
  rw [← ofDigitChars_padded w n, hpadded, ofDigitChars_padded]

theorem padded_ne_minus {w n : Nat} {r r' : Str} : padded w n ++ r ≠ '-' :: r' := by
  have hdigits := digits_padded w n
  cases hpadded : padded w n with
  | nil => exact absurd hpadded hdigits.1
  | cons c s =>
    intro h
    have hc : c.isDigit = true := hdigits.2 c (by simp [hpadded])
    rw [(List.cons.inj h).1] at hc
    contradiction

theorem printInt_inj {w : Nat} {a b : Int} {r r' : Str} (hr : NoDigit r) (hr' : NoDigit r')
    (h : printInt w a ++ r = printInt w b ++ r') : a = b ∧ r = r' := by
  cases a with
  | ofNat n =>
    cases b with
    | ofNat m =>
      obtain ⟨rfl, hrest⟩ := padded_append_inj hr hr' h
      exact ⟨rfl, hrest⟩
    | negSucc m => exact absurd h padded_ne_minus
  | negSucc n =>
    cases b with
    | ofNat m => exact absurd h.symm padded_ne_minus
    | negSucc m =>
      obtain ⟨hnm, hrest⟩ := padded_append_inj hr hr' (List.cons.inj h).2
      obtain rfl : n = m := by omega
      exact ⟨rfl, hrest⟩

theorem noDigit_cons {c : Char} (hc : c.isDigit = false) (s : Str) : NoDigit (c :: s) := by
  intro d hd
  obtain rfl : c = d := Option.some.inj hd
  exact hc

theorem formatTm_inj {tm tm' : Tm} (h : formatTm tm = formatTm tm') : tm = tm' := by
  have hdash (s : Str) : NoDigit ('-' :: s) := noDigit_cons rfl s
  have hblank (s : Str) : NoDigit (' ' :: s) := noDigit_cons rfl s
  have hcolon (s : Str) : NoDigit (':' :: s) := noDigit_cons rfl s
  obtain ⟨hyear, h⟩ := printInt_inj (hdash _) (hdash _) h
  obtain ⟨hmon, h⟩ := printInt_inj (hdash _) (hdash _) (List.cons.inj h).2
  obtain ⟨hmday, h⟩ := printInt_inj (hblank _) (hblank _) (List.cons.inj h).2
  obtain ⟨hhour, h⟩ := printInt_inj (hcolon _) (hcolon _) (List.cons.inj h).2
  obtain ⟨hmin, h⟩ := printInt_inj (hcolon _) (hcolon _) (List.cons.inj h).2
  have hlast := (List.cons.inj h).2
  rw [← List.append_nil (printInt 2 tm.tm_sec), ← List.append_nil (printInt 2 tm'.tm_sec)] at hlast
  obtain ⟨hsec, -⟩ := printInt_inj noDigit_nil noDigit_nil hlast
  cases tm
  cases tm'
  simp only [Tm.mk.injEq] at hyear hmon hmday hhour hmin hsec ⊢
  omega

section Printable

variable {tm : Tm}

def Tm.Printable.date (h : tm.Printable) : Date where
  year := (tm.tm_year + 1900).toNat
  month := (tm.tm_mon + 1).toNat
  day := tm.tm_mday.toNat
  year_lt := by
    have := h.year
    omega
  month_le := by
    have := h.mon
    omega
  day_le := by
    have := h.mday
    omega

def Tm.Printable.clock (h : tm.Printable) : Clock 24 where
  hour := tm.tm_hour.toNat
  minute := tm.tm_min.toNat
  second := tm.tm_sec.toNat
  second_part := 0
  decimals := 0
  hour_lt := by
    have := h.hour
    omega
  minute_lt := by
    have := h.min
    omega
  second_lt := by
    have := h.sec
    omega
  second_part_lt := by decide
  decimals_le := by decide
  stored := by decide

theorem printInt_toNat {n : Int} (w : Nat) (h : 0 ≤ n) : printInt w n = padded w n.toNat := by
  rw [← printInt_natCast, Int.toNat_of_nonneg h]

theorem Tm.Printable.text (h : tm.Printable) :
    formatTm tm = h.date.text ++ ' ' :: h.clock.text := by
  have hyear := h.year
  have hmon := h.mon
  have hmday := h.mday
  have hhour := h.hour
  have hmin := h.min
  have hsec := h.sec
  rw [formatTm, printInt_toNat 4 (by omega), printInt_toNat 2 (by omega),
    printInt_toNat 2 (by omega),
    printInt_toNat 2 (by omega), printInt_toNat 2 (by omega), printInt_toNat 2 (by omega)]
  simp [Date.text, Clock.text, Clock.fraction, Tm.Printable.date, Tm.Printable.clock, Util.join]

theorem Tm.Printable.tm_eq (h : tm.Printable) : h.clock.tm h.date.tm = tm := by
  have hyear := h.year
  have hmon := h.mon
  have hmday := h.mday
  have hhour := h.hour
  have hmin := h.min
  have hsec := h.sec
  cases tm
  simp only [Clock.tm, Date.tm, Tm.Printable.date, Tm.Printable.clock, Tm.mk.injEq] at *
  omega

/-- What is printed is read again. -/
theorem parseTimeStr_formatTm (h : tm.Printable) :
    Timestamp.parseTimeStr (formatTm tm) = .ok tm := by
  have hmon := h.mon
  have hmday := h.mday
  have hdate : h.date.Valid := by
    simp only [Date.Valid, Tm.Printable.date]
    omega
  rw [h.text, parseTimeStr_dateTime, if_pos hdate, h.tm_eq]

end Printable

/-! ## Reading a formatted time -/

namespace Timestamp

variable {lib : CLib} {gmtoff : Int32} {t : Int64}

theorem ofString_ok {s : Str} {tm : Tm} (h : parseTimeStr s = .ok tm) :
    ofString (lib.inZone gmtoff) s = some (mktime gmtoff tm * microSecondsPerSecond) := by
  rw [ofString, h]
  rfl

/-- Times from 68 years before the epoch on. -/
theorem year_nonneg {tm : Tm} (hvalid : tm.Valid) (h : -2 ^ 31 ≤ tm.seconds) :
    0 ≤ tm.tm_year + 1900 := by
  have hseconds := hvalid.seconds_eq
  have hhour := hvalid.hour
  have hmin := hvalid.min
  have hsec := hvalid.sec
  have hnumber := hvalid.day.number_bounds.2.1
  have hyear := (daysBeforeYear_bounds (hvalid.day.year + 1)).2
  have hday : hvalid.day.year = tm.tm_year + 1900 := rfl
  omega

theorem length_printInt_le {w k : Nat} {n : Int} (hw : w ≤ k) (hk : 0 < k) (hn : 0 ≤ n)
    (hlt : n.toNat < 10 ^ k) : (printInt w n).length ≤ k := by
  have hle : (decimal n.toNat).length ≤ k := (Nat.length_toDigits_le_iff (by decide) hk).mpr hlt
  rw [printInt_toNat w hn]
  simp only [padded, List.leftpad, List.length_append, List.length_replicate]
  omega

theorem length_formatTm {tm : Tm} (h : tm.Valid)
    (hyear : 0 ≤ tm.tm_year + 1900 ∧ tm.tm_year + 1900 < 10 ^ 7) : (formatTm tm).length < 25 := by
  have hmon := h.mon
  have hone := h.one_le
  have hmday := Int.le_trans h.mday_le (daysInMonth_le _ _)
  have hhour := h.hour
  have hmin := h.min
  have hsec := h.sec
  have hfirst := @length_printInt_le 4 7 (tm.tm_year + 1900) (by decide) (by decide) (by omega)
    (by omega)
  have htwo {n : Int} (hn : 0 ≤ n) (hlt : n.toNat < 10 ^ 2) : (printInt 2 n).length ≤ 2 :=
    length_printInt_le (Nat.le_refl 2) (by decide) hn hlt
  have hmon' := @htwo (tm.tm_mon + 1) (by omega) (by omega)
  have hmday' := @htwo tm.tm_mday (by omega) (by omega)
  have hhour' := @htwo tm.tm_hour (by omega) (by omega)
  have hmin' := @htwo tm.tm_min (by omega) (by omega)
  have hsec' := @htwo tm.tm_sec (by omega) (by omega)
  simp only [formatTm, List.length_append, List.length_cons]
  omega

/-- The 25 bytes of `buf` hold the text and the zero behind it. -/
theorem length_toFormattedString (gmtoff : Int32) (t : Int64) :
    (toFormattedString gmtoff t).length < 25 := by
  unfold toFormattedString
  split
  · rename_i hvalid
    have hpos := (isValid_iff t).mp hvalid
    have hgmt := gmtoff.le_toInt
    have hgmt' := gmtoff.toInt_lt
    have hrange := seconds_bounds t
    have htdiv : t.toInt.tdiv (10 ^ 6) = t.toInt / 10 ^ 6 := Int.tdiv_eq_ediv_of_nonneg (by omega)
    rw [localTime_eq]
    have htm := Tm.valid_ofSeconds (t.toInt.tdiv (10 ^ 6) + gmtoff.toInt)
    have hseconds := Tm.seconds_ofSeconds (t.toInt.tdiv (10 ^ 6) + gmtoff.toInt)
    have hday :=
      Day.year_bounds (d := Day.ofNumber ((t.toInt.tdiv (10 ^ 6) + gmtoff.toInt) / 86400))
      (by
        rw [Day.number_ofNumber]
        omega)
    refine length_formatTm htm ⟨year_nonneg htm (by omega), ?_⟩
    simp only [Tm.ofSeconds, Tm.ofDay]
    omega
  · simp

/-- The text of a time after the epoch is read as the time without its microseconds. -/
theorem parse_format (hvalid : isValid t = true)
    (hyear : (localTime gmtoff t).tm_year + 1900 ≤ 9999) :
    parseTimeStr (toFormattedString gmtoff t) = .ok (localTime gmtoff t) ∧
      ofString (lib.inZone gmtoff) (toFormattedString gmtoff t) =
        some (t / microSecondsPerSecond * microSecondsPerSecond) := by
  have hpos := (isValid_iff t).mp hvalid
  have hgmt := gmtoff.le_toInt
  have htdiv : t.toInt.tdiv (10 ^ 6) = t.toInt / 10 ^ 6 := Int.tdiv_eq_ediv_of_nonneg (by omega)
  have hseconds : (localTime gmtoff t).seconds = t.toInt / 10 ^ 6 + gmtoff.toInt := by
    rw [localTime_eq, Tm.seconds_ofSeconds, htdiv]
  have htm : (localTime gmtoff t).Valid := by
    rw [localTime_eq]
    exact Tm.valid_ofSeconds _
  have hprintable := htm.printable ⟨year_nonneg htm (by omega), hyear⟩
  have hparse : parseTimeStr (toFormattedString gmtoff t) = .ok (localTime gmtoff t) := by
    rw [toFormattedString, if_pos hvalid, parseTimeStr_formatTm hprintable]
  exact ⟨hparse, by rw [ofString_ok hparse, mktime_localTime]⟩

theorem parse_format_second :
    parseTimeStr (toFormattedString 3600 1000001) = .ok (localTime 3600 1000001) ∧
      ofString (CLib.inZone { mktime := fun _ => 0, atof := fun _ => 0, toFloat :=
        fun _ => 0 } 3600)
        (toFormattedString 3600 1000001) =
        some (1000001 / microSecondsPerSecond * microSecondsPerSecond) :=
  parse_format (by decide) (by decide)

end Timestamp

end TinyOrm
