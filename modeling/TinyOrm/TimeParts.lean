import TinyOrm.StringLoops
import TinyOrm.TimeTexts
set_option autoImplicit false

/-!
Which texts `Timestamp(const string&)` accepts: the parts of a text, in the order in which
`parseTimeStr` checks them.
-/

namespace TinyOrm

open Calendar

/-- A part of a time text. `less` is taken from its number, and the rest checked as a
field of the unit. -/
structure TimePart where
  text : Str
  less : Int
  unit : TimeUnit

namespace TimePart

def read (p : TimePart) : Except ParseError Int := readField p.text p.less p.unit

/-- What is written is a number of the field's range. -/
def Fits (p : TimePart) (n : Int) : Prop :=
  stoi p.text = .ok (n + p.less) ∧ _isvalid_tm_field n p.unit = true

/-- What is written is a number, and out of the range. -/
def Leaves (p : TimePart) : Prop :=
  ∃ n, stoi p.text = .ok (n + p.less) ∧ _isvalid_tm_field n p.unit = false

theorem read_of_ok {p : TimePart} {m : Int} (h : stoi p.text = .ok m) : p.read =
    if _isvalid_tm_field (m - p.less) p.unit then .ok (m - p.less) else .error .fail := by
  rw [read, readField, h]
  rfl

theorem read_of_error {p : TimePart} {e : ParseError} (h : stoi p.text = .error e) :
    p.read = .error .throws := by
  rw [read, readField, h]
  unfold stoi at h
  split at h
  · cases h
    rfl
  · split at h
    · contradiction
    · cases h
      rfl

theorem read_eq_ok {p : TimePart} {n : Int} : p.read = .ok n ↔ p.Fits n := by
  unfold Fits
  cases hstoi : stoi p.text with
  | error e => simp [read_of_error hstoi]
  | ok m =>
    rw [read_of_ok hstoi, Except.ok.injEq]
    constructor
    · intro h
      split at h
      · cases h
        exact ⟨by omega, by assumption⟩
      · contradiction
    · rintro ⟨rfl, hvalid⟩
      rw [Int.add_sub_cancel, if_pos hvalid]

theorem read_eq_fail {p : TimePart} : p.read = .error .fail ↔ p.Leaves := by
  unfold Leaves
  cases hstoi : stoi p.text with
  | error e => simp [read_of_error hstoi]
  | ok m =>
    rw [read_of_ok hstoi]
    constructor
    · intro h
      split at h
      · contradiction
      · rename_i hvalid
        exact ⟨m - p.less, by rw [Int.sub_add_cancel], by simpa using hvalid⟩
    · rintro ⟨n, hn, hvalid⟩
      obtain rfl : m = n + p.less := Except.ok.inj hn
      rw [Int.add_sub_cancel, if_neg (by simp [hvalid])]

/-- The first part that does not fit is a number. -/
def Rejected : List TimePart → Prop
  | [] => False
  | p :: ps => p.Leaves ∨ (∃ n, p.Fits n) ∧ Rejected ps

theorem mapM_read_ok {ps : List TimePart} {ns : List Int} :
    ps.mapM read = .ok ns ↔ List.Forall₂ Fits ps ns := by
  induction ps generalizing ns with
  | nil => cases ns <;> simp [pure, Except.pure]
  | cons p ps ih =>
    rw [List.mapM_cons]
    cases hread : p.read with
    | error e =>
      have hnot (n : Int) : ¬ p.Fits n := by simp [← read_eq_ok, hread]
      cases ns <;> simp [bind, Except.bind, hnot]
    | ok n =>
      have hfits (m : Int) : p.Fits m ↔ n = m := by simp [← read_eq_ok, hread]
      cases hrest : ps.mapM read with
      | error e => cases ns <;> simp [bind, Except.bind, ← ih, hrest]
      | ok ms => cases ns <;> simp [bind, Except.bind, pure, Except.pure, ← ih, hrest, hfits]

theorem mapM_read_fail {ps : List TimePart} : ps.mapM read = .error .fail ↔ Rejected ps := by
  induction ps with
  | nil => simp [Rejected, pure, Except.pure]
  | cons p ps ih =>
    rw [List.mapM_cons, Rejected, ← read_eq_fail, ← ih]
    cases hread : p.read with
    | error e =>
      have hnot (n : Int) : ¬ p.Fits n := by simp [← read_eq_ok, hread]
      simp [bind, Except.bind, hnot]
    | ok n =>
      have hfits : ∃ n, p.Fits n := ⟨n, read_eq_ok.mp hread⟩
      cases hrest : ps.mapM read with
      | error e => simp [bind, Except.bind, hfits]
      | ok ms => simp [bind, Except.bind, pure, Except.pure]

end TimePart

/-! ## The parts of a text -/

namespace Timestamp

/-- What stands before the first blank. -/
def dateText (str : Str) : Str :=
  let time := Util.strip str
  time.take ((time.findIdx? (· = ' ')).getD str.length)

/-- What stands behind the first blank, and the white space after it. -/
def clockText (str : Str) : Option Str :=
  let time := Util.strip str
  (time.findIdx? (· = ' ')).map fun i => (time.drop (i + 1)).dropWhile isspace

def clockParts (texts : List Str) : List TimePart :=
  texts.zipWith (fun text unit => ⟨text, 0, unit⟩) [.hour, .minute, .second]

/-- `none`: the date is not made of three parts of which the first has four characters. -/
def partsOf (clock : List TimePart) : List Str → Option (List TimePart)
  | [y, m, d] =>
    if y.length = 4 then
      some (⟨y, 1900, .year⟩ :: ⟨m, 1, .month⟩ :: ⟨d, 0, .day⟩ :: clock)
    else none
  | _ => none

def parts (str : Str) : Option (List TimePart) :=
  partsOf (((clockText str).map fun hms => clockParts (Util.split hms [':'])).getD [])
    (Util.split (dateText str) ['-', '/'])

/-- The fields in the order of the parts; those without a part stay zero. -/
def tmOf (ns : List Int) : Tm where
  tm_year := ns.getD 0 0
  tm_mon := ns.getD 1 0
  tm_mday := ns.getD 2 0
  tm_hour := ns.getD 3 0
  tm_min := ns.getD 4 0
  tm_sec := ns.getD 5 0

theorem bare_strip (s : Str) : Util.Bare (Util.strip s) := by
  rw [Util.strip_eq]
  split
  · constructor <;> simp
  · exact Util.bare_trim s

/-- A stripped text does not end with white space. -/
theorem clockText_ne_nil {str hms : Str} (h : clockText str = some hms) : hms ≠ [] := by
  rintro rfl
  obtain ⟨i, hi, hdrop⟩ := Option.map_eq_some_iff.mp h
  obtain ⟨hlt, hblank, -⟩ := List.findIdx?_eq_some_iff_getElem.mp hi
  have hall : ∀ c ∈ (Util.strip str).drop i, isspace c = true := by
    rw [List.drop_eq_getElem_cons hlt]
    refine List.forall_mem_cons.mpr ⟨?_, List.dropWhile_eq_nil_iff.mp hdrop⟩
    rw [of_decide_eq_true hblank]
    rfl
  have hne : (Util.strip str).drop i ≠ [] := by
    rw [List.drop_eq_getElem_cons hlt]
    exact List.cons_ne_nil _ _
  have hlast := List.getLast?_append_of_ne_nil ((Util.strip str).take i) hne
  rw [List.take_append_drop, List.getLast?_eq_getLast_of_ne_nil hne] at hlast
  have hbare := (bare_strip str).last _ hlast
  rw [hall _ (List.getLast_mem hne)] at hbare
  contradiction

theorem parseHms_eq (year mon mday : Int) (texts : List Str) :
    parseHms { tm_year := year, tm_mon := mon, tm_mday := mday } texts =
      (fun ns => tmOf (year :: mon :: mday :: ns)) <$> (clockParts texts).mapM TimePart.read := by
  rcases texts with _ | ⟨h, _ | ⟨m, _ | ⟨s, rest⟩⟩⟩
  · simp [parseHms, clockParts, tmOf]
  · simp [parseHms, clockParts, tmOf, TimePart.read]
  · simp [parseHms, clockParts, tmOf, TimePart.read]
  · simp [parseHms, clockParts, tmOf, TimePart.read]

theorem readField_year (y : Str) : readField y 1900 .year =
    stoi y >>= fun year => pure (year - 1900) := by
  simp [readField, _isvalid_tm_field]

/-- The parts are read one after another. -/
theorem parseTimeStr_eq (str : Str) : parseTimeStr str =
    match parts str with
    | none => .error .fail
    | some ps => tmOf <$> ps.mapM TimePart.read := by
  unfold parseTimeStr parts dateText
  dsimp only
  generalize Util.split ((Util.strip str).take _) ['-', '/'] = date
  rcases date with _ | ⟨y, _ | ⟨m, _ | ⟨d, _ | ⟨e, rest⟩⟩⟩⟩
  · rfl
  · rfl
  · rfl
  · by_cases hlen : y.length = 4
    · simp only [partsOf, if_pos hlen, if_neg (not_not.mpr hlen)]
      cases hi : (Util.strip str).findIdx? (· = ' ') with
      | none =>
        have hclock : clockText str = none := by rw [clockText, hi]; rfl
        rw [hclock]
        simp [readField_year, TimePart.read, tmOf]
      | some i =>
        have hclock : clockText str =
            some (((Util.strip str).drop (i + 1)).dropWhile isspace) := by rw [clockText, hi]; rfl
        have hne := clockText_ne_nil hclock
        rw [hclock]
        cases hhms : ((Util.strip str).drop (i + 1)).dropWhile isspace with
        | nil => exact absurd hhms hne
        | cons c hms =>
          simp [readField_year, TimePart.read, parseHms_eq, hhms]
    · simp only [partsOf, if_neg hlen]
      exact if_pos hlen
  · rfl

/-! ## The ranges of the fields -/

theorem ofDigitChars_lt {s : Str} (h : ∀ c ∈ s, c.isDigit = true) (init : Nat) :
    Nat.ofDigitChars 10 s init < (init + 1) * 10 ^ s.length := by
  induction s generalizing init with
  | nil => simp
  | cons c s ih =>
    have hc : c.toNat - '0'.toNat < 10 := by
      have hdigit := h c (by simp)
      simp only [Char.isDigit, Bool.and_eq_true, decide_eq_true_eq] at hdigit
      have hhi : c.toNat ≤ 57 := hdigit.2
      have hzero : '0'.toNat = 48 := rfl
      omega
    have hrest :=
      ih (fun d hd => h d (List.mem_cons_of_mem c hd)) (10 * init + (c.toNat - '0'.toNat))
    rw [Nat.ofDigitChars_cons, List.length_cons, Nat.pow_succ]
    calc _ < (10 * init + (c.toNat - '0'.toNat) + 1) * 10 ^ s.length := hrest
      _ ≤ (10 * (init + 1)) * 10 ^ s.length := Nat.mul_le_mul_right _ (by omega)
      _ = (init + 1) * (10 ^ s.length * 10) := by
        rw [Nat.mul_comm 10, Nat.mul_assoc, Nat.mul_comm 10]

/-- A number is as small as its digits allow. -/
theorem strtol_bounds {s : Str} {n : Int} (h : strtol s = some n) :
    ∃ k : Nat, k < 10 ^ s.length ∧ -(k : Int) ≤ n ∧ n ≤ k := by
  have hskip := (List.dropWhile_suffix isspace (l := s)).length_le
  unfold strtol at h
  split at h
  rename_i neg rest heq
  have hrest : rest.length ≤ s.length := by
    split at heq
    · cases heq
      simp_all only [List.length_cons]
      omega
    · cases heq
      simp_all only [List.length_cons]
      omega
    · cases heq
      exact hskip
  have hdigits := ofDigitChars_lt (s := rest.takeWhile Char.isDigit)
    (fun c hc => List.mem_takeWhile_imp hc) 0
  have hle := (List.takeWhile_prefix Char.isDigit (l := rest)).length_le
  have hpow : 10 ^ (rest.takeWhile Char.isDigit).length ≤ 10 ^ s.length :=
    Nat.pow_le_pow_right (by decide) (by omega)
  split at h
  · contradiction
  · refine ⟨Nat.ofDigitChars 10 (rest.takeWhile Char.isDigit) 0, by omega, ?_⟩
    cases h
    split <;> omega

theorem stoi_bounds {s : Str} {n : Int} (h : stoi s = .ok n) (hlen : s.length = 4) :
    -10 ^ 4 < n ∧ n < 10 ^ 4 := by
  unfold stoi at h
  split at h
  · contradiction
  · rename_i m hm
    obtain ⟨k, hk, hle, hge⟩ := strtol_bounds hm
    rw [hlen] at hk
    split at h
    · cases h
      omega
    · contradiction

/-- The ranges that are checked. -/
structure Checked (tm : Tm) : Prop where
  year : -10 ^ 4 < tm.tm_year + 1900 ∧ tm.tm_year + 1900 < 10 ^ 4
  mon : 0 ≤ tm.tm_mon ∧ tm.tm_mon < 12
  mday : 1 ≤ tm.tm_mday ∧ tm.tm_mday ≤ 31
  hour : 0 ≤ tm.tm_hour ∧ tm.tm_hour < 24
  min : 0 ≤ tm.tm_min ∧ tm.tm_min < 60
  sec : 0 ≤ tm.tm_sec ∧ tm.tm_sec ≤ 60

theorem parts_eq_some {str : Str} {ps : List TimePart} (h : parts str = some ps) :
    ∃ y m d : Str, ∃ texts : List Str, y.length = 4 ∧
      ps = ⟨y, 1900, .year⟩ :: ⟨m, 1, .month⟩ :: ⟨d, 0, .day⟩ :: clockParts texts := by
  have hclock : ∃ texts, ((clockText str).map fun hms =>
      clockParts (Util.split hms [':'])).getD [] = clockParts texts := by
    cases clockText str with
    | none => exact ⟨[], rfl⟩
    | some hms => exact ⟨_, rfl⟩
  obtain ⟨texts, htexts⟩ := hclock
  rw [parts, htexts] at h
  unfold partsOf at h
  split at h
  · rename_i y m d _
    split at h
    · rename_i hlen
      exact ⟨y, m, d, texts, hlen, (Option.some.inj h).symm⟩
    · contradiction
  · contradiction

/-- A part that is left out counts as 0, which every check of a clock admits. -/
theorem clock_checked {texts : List Str} {ns : List Int}
    (h : List.Forall₂ TimePart.Fits (clockParts texts) ns) :
    _isvalid_tm_field (ns.getD 0 0) .hour = true ∧
      _isvalid_tm_field (ns.getD 1 0) .minute = true ∧
      _isvalid_tm_field (ns.getD 2 0) .second = true := by
  rcases texts with _ | ⟨hour, _ | ⟨min, _ | ⟨sec, rest⟩⟩⟩
  · obtain rfl := List.forall₂_nil_left_iff.mp h
    decide
  · obtain ⟨n, _, hn, h₁, rfl⟩ := List.forall₂_cons_left_iff.mp h
    obtain rfl := List.forall₂_nil_left_iff.mp h₁
    exact ⟨hn.2, rfl, rfl⟩
  · obtain ⟨n, _, hn, h₁, rfl⟩ := List.forall₂_cons_left_iff.mp h
    obtain ⟨m, _, hm, h₂, rfl⟩ := List.forall₂_cons_left_iff.mp h₁
    obtain rfl := List.forall₂_nil_left_iff.mp h₂
    exact ⟨hn.2, hm.2, rfl⟩
  · obtain ⟨n, _, hn, h₁, rfl⟩ := List.forall₂_cons_left_iff.mp h
    obtain ⟨m, _, hm, h₂, rfl⟩ := List.forall₂_cons_left_iff.mp h₁
    obtain ⟨k, _, hk, -, rfl⟩ := List.forall₂_cons_left_iff.mp h₂
    exact ⟨hn.2, hm.2, hk.2⟩

theorem checked_tmOf {str : Str} {ps : List TimePart} {ns : List Int} (hps : parts str = some ps)
    (hfits : List.Forall₂ TimePart.Fits ps ns) : Checked (tmOf ns) := by
  obtain ⟨y, m, d, texts, hlen, rfl⟩ := parts_eq_some hps
  obtain ⟨year, _, hyear, h₁, rfl⟩ := List.forall₂_cons_left_iff.mp hfits
  obtain ⟨mon, _, hmon, h₂, rfl⟩ := List.forall₂_cons_left_iff.mp h₁
  obtain ⟨mday, clock, hmday, h₃, rfl⟩ := List.forall₂_cons_left_iff.mp h₂
  obtain ⟨hhour, hmin, hsec⟩ := clock_checked h₃
  have hmon' := hmon.2
  have hmday' := hmday.2
  simp only [_isvalid_tm_field, Bool.and_eq_true, decide_eq_true_eq] at hhour hmin hsec hmon' hmday'
  have hyear' := stoi_bounds hyear.1 hlen
  constructor
  · exact hyear'
  · exact hmon'
  · simp only [tmOf, List.getD_cons_succ, List.getD_cons_zero]
    omega
  · exact hhour
  · simp only [tmOf, List.getD_cons_succ]
    omega
  · exact hsec

/-! ## What is shown -/

/-- The month has the day. -/
def DayExists (tm : Tm) : Prop :=
  tm.tm_mday ≤ daysInMonth (tm.tm_year + 1900) tm.tm_mon.toNat

theorem Checked.seconds_bounds {tm : Tm} (h : Checked tm) :
    -10 ^ 12 ≤ tm.seconds ∧ tm.seconds ≤ 10 ^ 12 := by
  have hyear := h.year
  have hmon := h.mon
  have hmday := h.mday
  have hhour := h.hour
  have hmin := h.min
  have hsec := h.sec
  have hnat : ((tm.tm_mon.toNat : Nat) : Int) = tm.tm_mon := Int.toNat_of_nonneg hmon.1
  have hbefore := daysBefore_of_lt (tm.tm_year + 1900) (show tm.tm_mon.toNat < 12 by omega)
  have hyears := daysBeforeYear_bounds (tm.tm_year + 1900)
  have hfirst := daysBeforeMonth_mono (tm.tm_year + 1900) (Nat.zero_le tm.tm_mon.toNat)
  have hlast := daysBeforeMonth_mono (tm.tm_year + 1900) (show tm.tm_mon.toNat ≤ 12 by omega)
  have hlength := daysInYear_le (tm.tm_year + 1900)
  rw [daysBeforeMonth_year] at hlast
  rw [daysBeforeMonth] at hfirst
  rw [hnat] at hbefore
  rw [Tm.seconds, hbefore]
  omega

theorem Checked.valid {tm : Tm} (h : Checked tm) (hday : DayExists tm) (hsec : tm.tm_sec < 60) :
    tm.Valid :=
  ⟨h.mon, h.mday.1, hday, h.hour, h.min, h.sec.1, hsec⟩

variable {lib : CLib} {gmtoff : Int32} {str : Str}

/-- The text shows the numbers up to the minute. -/
def Shows (text : Str) (tm : Tm) : Prop := ∃ sec : Int, text = formatTm { tm with tm_sec := sec }

/-- A text is read without an exception; where it is refused the result is 0, and where it
is accepted the day exists and a valid result shows the numbers that are written. -/
structure ReadWell (lib : CLib) (gmtoff : Int32) (str : Str) : Prop where
  returns : parseTimeStr str ≠ .error .throws
  refused : parseTimeStr str = .error .fail → ofString (lib.inZone gmtoff) str = some 0
  accepted : ∀ tm, parseTimeStr str = .ok tm → ∃ ps ns t, parts str = some ps ∧
    List.Forall₂ (fun p n => stoi p.text = .ok (n + p.less)) ps ns ∧ DayExists (tmOf ns) ∧
    ofString (lib.inZone gmtoff) str = some t ∧
    (isValid t = true → Shows (toFormattedString gmtoff t) (tmOf ns))

/-- The instant of checked fields, and what is shown of it. -/
theorem Checked.instant {tm : Tm} (h : Checked tm) (hparse : parseTimeStr str = .ok tm) :
    ∃ t, ofString (lib.inZone gmtoff) str = some t ∧
      (isValid t = true ↔ gmtoff.toInt < tm.seconds) ∧
      (isValid t = true → toFormattedString gmtoff t = formatTm (Tm.ofSeconds tm.seconds)) := by
  have hbounds := h.seconds_bounds
  have hlt := gmtoff.toInt_lt
  have hle := gmtoff.le_toInt
  have hinstant := @toInt_mktime_mul gmtoff tm (by omega) (by omega)
  refine ⟨_, ofString_ok hparse, ?_, fun hvalid => ?_⟩
  · rw [isValid_iff, hinstant]
    omega
  · rw [toFormattedString, if_pos hvalid, localTime_eq, hinstant, Int.mul_tdiv_cancel _ (by decide),
      Int.sub_add_cancel]

/-- The second 60 is shown as the next minute. -/
theorem Checked.shows_iff {tm : Tm} (h : Checked tm) (hday : DayExists tm) :
    Shows (formatTm (Tm.ofSeconds tm.seconds)) tm ↔ tm.tm_sec < 60 := by
  constructor
  · rintro ⟨sec, hsec⟩
    have hshown := formatTm_inj hsec
    have hvalid := Tm.valid_ofSeconds tm.seconds
    have hseconds := Tm.seconds_ofSeconds tm.seconds
    rw [hshown] at hvalid hseconds
    have hlt := hvalid.sec.2
    simp only [Tm.seconds] at hseconds hlt
    omega
  · intro hsec
    rw [(h.valid hday hsec).ofSeconds_seconds]
    exact ⟨tm.tm_sec, rfl⟩

/-- Every part up to the first that does not fit is a number, and accepted numbers are
those of an existing time. -/
def Sound (gmtoff : Int32) (str : Str) : Prop :=
  ∀ ps, parts str = some ps → TimePart.Rejected ps ∨
    ∃ ns, List.Forall₂ TimePart.Fits ps ns ∧ DayExists (tmOf ns) ∧
      ((tmOf ns).tm_sec < 60 ∨ (tmOf ns).seconds ≤ gmtoff.toInt)

theorem parseTimeStr_some {ps : List TimePart} (hps : parts str = some ps) :
    parseTimeStr str = tmOf <$> ps.mapM TimePart.read := by
  rw [parseTimeStr_eq, hps]

theorem parseTimeStr_rejected {ps : List TimePart} (hps : parts str = some ps)
    (h : TimePart.Rejected ps) : parseTimeStr str = .error .fail := by
  rw [parseTimeStr_some hps, TimePart.mapM_read_fail.mpr h]
  rfl

theorem parseTimeStr_fits {ps : List TimePart} {ns : List Int} (hps : parts str = some ps)
    (h : List.Forall₂ TimePart.Fits ps ns) : parseTimeStr str = .ok (tmOf ns) := by
  rw [parseTimeStr_some hps, TimePart.mapM_read_ok.mpr h]
  rfl

/-- A text that is refused is read well. -/
theorem readWell_of_fail (h : parseTimeStr str = .error .fail) : ReadWell lib gmtoff str where
  returns := by simp [h]
  refused := fun _ => by rw [ofString, h]
  accepted := fun tm htm => by
    rw [h] at htm
    contradiction

theorem numbers_unique {ps : List TimePart} {ns ms : List Int}
    (hns : List.Forall₂ (fun p n => stoi p.text = .ok (n + p.less)) ps ns)
    (hms : List.Forall₂ TimePart.Fits ps ms) : ns = ms := by
  induction hns generalizing ms with
  | nil => exact (List.forall₂_nil_left_iff.mp hms).symm
  | cons hn _ ih =>
    obtain ⟨m, ms', hm, hrest, rfl⟩ := List.forall₂_cons_left_iff.mp hms
    have heq := Except.ok.inj (hn.symm.trans hm.1)
    rw [ih hrest]
    congr 1
    omega

/-- Accepted numbers are read well where the day exists and the second is shown. -/
theorem readWell_fits_iff {ps : List TimePart} {ns : List Int} (hps : parts str = some ps)
    (hfits : List.Forall₂ TimePart.Fits ps ns) : ReadWell lib gmtoff str ↔
      DayExists (tmOf ns) ∧ ((tmOf ns).tm_sec < 60 ∨ (tmOf ns).seconds ≤ gmtoff.toInt) := by
  have hparse := parseTimeStr_fits hps hfits
  have hchecked := checked_tmOf hps hfits
  obtain ⟨t, ht, hvalid, hshown⟩ := @Checked.instant lib gmtoff str _ hchecked hparse
  constructor
  · intro h
    obtain ⟨ps', ns', t', hps', hns, hday, ht', hshows⟩ := h.accepted _ hparse
    obtain rfl : ps' = ps := Option.some.inj (hps'.symm.trans hps)
    obtain rfl := numbers_unique hns hfits
    obtain rfl : t' = t := Option.some.inj (ht'.symm.trans ht)
    refine ⟨hday, ?_⟩
    by_cases hafter : isValid t' = true
    · have hshows' := hshows hafter
      rw [hshown hafter] at hshows'
      exact Or.inl ((hchecked.shows_iff hday).mp hshows')
    · rw [hvalid] at hafter
      exact Or.inr (Int.not_lt.mp hafter)
  · rintro ⟨hday, hsec⟩
    refine ⟨by simp [hparse], fun h => by rw [hparse] at h; contradiction, fun tm htm => ?_⟩
    obtain rfl : tmOf ns = tm := Except.ok.inj (hparse.symm.trans htm)
    refine ⟨ps, ns, t, hps, hfits.imp fun _ _ h => h.1, hday, ht, fun hafter => ?_⟩
    rw [hshown hafter, hchecked.shows_iff hday]
    rcases hsec with hsec | hsec
    · exact hsec
    · have hlt := hvalid.mp hafter
      omega

/-- The texts that are read well are those without a date of three parts, those that
are refused for a number out of its range, and existing times. -/
theorem readWell_iff (lib : CLib) (gmtoff : Int32) (str : Str) :
    ReadWell lib gmtoff str ↔ Sound gmtoff str := by
  cases hps : parts str with
  | none =>
    have hsound : Sound gmtoff str := by
      intro ps h
      rw [hps] at h
      contradiction
    have hfail : parseTimeStr str = .error .fail := by rw [parseTimeStr_eq, hps]
    exact ⟨fun _ => hsound, fun _ => readWell_of_fail hfail⟩
  | some ps =>
    constructor
    · rintro h ps' hps'
      obtain rfl : ps = ps' := Option.some.inj (hps.symm.trans hps')
      cases hread : ps.mapM TimePart.read with
      | error e =>
        cases e with
        | fail => exact Or.inl (TimePart.mapM_read_fail.mp hread)
        | throws =>
          have hthrows := parseTimeStr_some hps
          rw [hread] at hthrows
          exact absurd hthrows h.returns
      | ok ns =>
        have hfits := TimePart.mapM_read_ok.mp hread
        exact Or.inr ⟨ns, hfits, (readWell_fits_iff hps hfits).mp h⟩
    · intro h
      rcases h ps hps with hrejected | ⟨ns, hfits, hsound⟩
      · exact readWell_of_fail (parseTimeStr_rejected hps hrejected)
      · exact (readWell_fits_iff hps hfits).mpr hsound

/-- A number that is none throws, and a day too many is moved to the next month. -/
theorem written_badly : parseTimeStr "abcd-01-01".toList = .error .throws ∧
    parseTimeStr "2023-02-30".toList = .ok { tm_year := 123, tm_mon := 1, tm_mday := 30 } ∧
    toFormattedString 0 (mktime 0 { tm_year := 123, tm_mon := 1, tm_mday := 30 } *
      microSecondsPerSecond) = "2023-03-02 00:00:00".toList ∧
    ¬ ∀ lib gmtoff str, ReadWell lib gmtoff str := by
  have hthrows : parseTimeStr "abcd-01-01".toList = .error .throws := by decide
  refine ⟨hthrows, by decide, by decide, fun h => ?_⟩
  exact (h { mktime := fun _ => 0, atof := fun _ => 0, toFloat := fun _ => 0 } 0 _).returns hthrows

end Timestamp

end TinyOrm
