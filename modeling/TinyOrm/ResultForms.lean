import Mathlib.Data.List.TakeWhile
import TinyOrm.NullCells
import TinyOrm.SqlText
set_option autoImplicit false

/-!
The two forms of a row: the texts that `SqlResult` parses and the bytes that
`PreparedResult` finds in its buffers.
-/

namespace TinyOrm

/-! ## Printed numbers -/

/-- A number with zeros before it, as in `%02d`. -/
def padded (w n : Nat) : Str := (decimal n).leftpad w '0'

theorem digits_padded (w n : Nat) : Digits (padded w n) := by
  constructor
  · simp [padded, List.leftpad, (digits_decimal n).1]
  · intro c hc
    simp only [padded, List.leftpad, List.mem_append, List.mem_replicate] at hc
    rcases hc with ⟨-, rfl⟩ | hc
    · rfl
    · exact (digits_decimal n).2 c hc

theorem length_padded {w n : Nat} (hw : 0 < w) (h : n < 10 ^ w) : (padded w n).length = w := by
  have hle : (decimal n).length ≤ w := (Nat.length_toDigits_le_iff (by decide) hw).mpr h
  simp only [padded, List.leftpad, List.length_append, List.length_replicate]
  omega

theorem ofDigitChars_padded (w n : Nat) : Nat.ofDigitChars 10 (padded w n) 0 = n := by
  rw [padded, List.leftpad, Nat.ofDigitChars_append, Nat.ofDigitChars_replicate_zero, Nat.mul_zero,
    decimal, Nat.ofDigitChars_toDigits (by decide) (by decide)]

/-- No digit is read on. -/
def NoDigit (rest : Str) : Prop := ∀ c ∈ rest.head?, c.isDigit = false

theorem noDigit_nil : NoDigit [] := by simp [NoDigit]

theorem isspace_of_isDigit {c : Char} (h : c.isDigit = true) : isspace c = false := by
  simp only [Char.isDigit, Bool.and_eq_true, decide_eq_true_eq, ge_iff_le] at h
  have hlo : 48 ≤ c.toNat := h.1
  have hspace : c ≠ ' ' := by rintro rfl; exact absurd hlo (by decide)
  have hcr : ¬ c ≤ '\r' := by
    rw [Char.le_def]
    intro hle
    have hhi : c.toNat ≤ 13 := hle
    omega
  simp [isspace, hspace, hcr]

/-- What `strtol` makes of a number that is too large or too small for a `long`. -/
def clamp (n : Int) : Int := max (-2 ^ 63) (min n (2 ^ 63 - 1))

theorem clamp_of_mem {n : Int} (hlo : -2 ^ 63 ≤ n) (hhi : n < 2 ^ 63) : clamp n = n := by
  unfold clamp
  omega

theorem takeWhile_digits {s rest : Str} (hs : Digits s) (hrest : NoDigit rest) :
    (s ++ rest).takeWhile Char.isDigit = s := by
  rw [List.takeWhile_append_of_pos hs.2]
  cases rest with
  | nil => simp
  | cons c rest => simp [hrest c rfl]

theorem strtol_digits {s rest : Str} (hs : Digits s) (hrest : NoDigit rest) :
    strtol (s ++ rest) = some (clamp (Nat.ofDigitChars 10 s 0)) := by
  have htake := takeWhile_digits hs hrest
  obtain ⟨hne, hdigits⟩ := hs
  cases s with
  | nil => exact absurd rfl hne
  | cons c s =>
    have hc : c.isDigit = true := hdigits c (by simp)
    have hminus : c ≠ '-' := by rintro rfl; exact absurd hc (by decide)
    have hplus : c ≠ '+' := by rintro rfl; exact absurd hc (by decide)
    have hdrop : (c :: (s ++ rest)).dropWhile isspace = c :: (s ++ rest) := by
      simp [isspace_of_isDigit hc]
    rw [List.cons_append] at htake ⊢
    unfold strtol
    rw [hdrop]
    split
    rename_i heq
    split at heq
    · exact absurd (List.cons.inj ‹_›).1 hminus
    · exact absurd (List.cons.inj ‹_›).1 hplus
    · cases heq
      simp [htake, clamp]

theorem strtol_minus {s : Str} (hs : Digits s) :
    strtol ('-' :: s) = some (clamp (-Nat.ofDigitChars 10 s 0)) := by
  have htake := takeWhile_digits hs noDigit_nil
  rw [List.append_nil] at htake
  have hdrop : ('-' :: s).dropWhile isspace = '-' :: s := by
    simp [show isspace '-' = false by decide]
  obtain ⟨hne, -⟩ := hs
  cases s with
  | nil => exact absurd rfl hne
  | cons c s => simp [strtol, hdrop, htake, clamp]

/-- An integer; `zerofill` digits are shown at least. -/
def integerText (zerofill : Nat) : Int → Str
  | .ofNat n => padded zerofill n
  | .negSucc n => '-' :: decimal (n + 1)

theorem strtol_integerText (zerofill : Nat) (n : Int) :
    strtol (integerText zerofill n) = some (clamp n) := by
  cases n with
  | ofNat n =>
    have h := strtol_digits (digits_padded zerofill n) noDigit_nil
    rw [List.append_nil, ofDigitChars_padded] at h
    exact h
  | negSucc n =>
    have h := strtol_minus (digits_decimal (n + 1))
    rw [decimal, Nat.ofDigitChars_toDigits (by decide) (by decide)] at h
    exact h

theorem stoi_padded {w n : Nat} (hn : n < 2 ^ 31) {rest : Str} (hrest : NoDigit rest) :
    stoi (padded w n ++ rest) = .ok n := by
  rw [stoi, strtol_digits (digits_padded w n) hrest, ofDigitChars_padded,
    clamp_of_mem (by omega) (by omega)]
  exact if_pos ⟨by omega, by omega⟩

theorem readField_padded {w n : Nat} (hn : n < 2 ^ 31) {rest : Str} (hrest : NoDigit rest)
    (less : Int) (unit : TimeUnit) : readField (padded w n ++ rest) less unit =
      if _isvalid_tm_field (n - less) unit then .ok (n - less) else .error .fail := by
  rw [readField, stoi_padded hn hrest]
  rfl

/-! ## Dates and times -/

/-- The date of a value; months and days may be zero. -/
structure Date where
  year : Nat
  month : Nat
  day : Nat
  year_lt : year < 10 ^ 4
  month_le : month ≤ 12
  day_le : day ≤ 31

/-- The rest of a value, with as many digits of a fraction as its column stores. -/
structure Clock (hours : Nat) where
  hour : Nat
  minute : Nat
  second : Nat
  second_part : Nat
  decimals : Nat
  hour_lt : hour < hours
  minute_lt : minute < 60
  second_lt : second < 60
  second_part_lt : second_part < 10 ^ 6
  decimals_le : decimals ≤ 6
  stored : 10 ^ (6 - decimals) ∣ second_part

def Date.text (d : Date) : Str := Util.join '-' [padded 4 d.year, padded 2 d.month, padded 2 d.day]

variable {hours : Nat}

def Clock.fraction (t : Clock hours) : Str :=
  if t.decimals = 0 then [] else '.' :: (padded 6 t.second_part).take t.decimals

def Clock.text (t : Clock hours) : Str :=
  Util.join ':' [padded 2 t.hour, padded 2 t.minute, padded 2 t.second ++ t.fraction]

def Date.tm (d : Date) : Tm := { tm_year := d.year - 1900, tm_mon := d.month - 1, tm_mday := d.day }

def Clock.tm (t : Clock hours) (tm : Tm) : Tm :=
  { tm with tm_hour := t.hour, tm_min := t.minute, tm_sec := t.second }

/-- The characters of printed times. -/
def NoSpace (s : Str) : Prop := ∀ c ∈ s, isspace c = false

theorem Date.forall_text {P : Char → Prop} (hdigit : ∀ c, c.isDigit = true → P c) (hdash : P '-')
    (d : Date) : ∀ c ∈ d.text, P c := by
  have hpadded (w n : Nat) : ∀ c ∈ padded w n, P c :=
    fun c hc => hdigit c ((digits_padded w n).2 c hc)
  refine Util.forall_mem_join hdash fun part hpart => ?_
  simp only [List.mem_cons, List.not_mem_nil, or_false] at hpart
  rcases hpart with rfl | rfl | rfl <;> exact hpadded _ _

theorem Clock.forall_fraction {P : Char → Prop} (hdigit : ∀ c, c.isDigit = true → P c)
    (hdot : P '.')
    (t : Clock hours) : ∀ c ∈ t.fraction, P c := by
  unfold Clock.fraction
  split
  · simp
  · refine List.forall_mem_cons.mpr ⟨hdot, fun c hc => hdigit c ?_⟩
    exact (digits_padded _ _).2 c (List.mem_of_mem_take hc)

theorem Clock.forall_text {P : Char → Prop} (hdigit : ∀ c, c.isDigit = true → P c) (hdot : P '.')
    (hcolon : P ':') (t : Clock hours) : ∀ c ∈ t.text, P c := by
  have hpadded (w n : Nat) : ∀ c ∈ padded w n, P c :=
    fun c hc => hdigit c ((digits_padded w n).2 c hc)
  refine Util.forall_mem_join hcolon fun part hpart => ?_
  simp only [List.mem_cons, List.not_mem_nil, or_false] at hpart
  rcases hpart with rfl | rfl | rfl
  · exact hpadded _ _
  · exact hpadded _ _
  · exact List.forall_mem_append.mpr ⟨hpadded _ _, t.forall_fraction hdigit hdot⟩

theorem Date.noSpace (d : Date) : NoSpace d.text :=
  d.forall_text (fun _ => isspace_of_isDigit) (by decide)

theorem Clock.noSpace (t : Clock hours) : NoSpace t.text :=
  t.forall_text (fun _ => isspace_of_isDigit) (by decide) (by decide)

theorem Clock.noDigit_fraction (t : Clock hours) : NoDigit t.fraction := by
  unfold Clock.fraction NoDigit
  split
  · simp
  · simp [show Char.isDigit '.' = false by decide]

theorem NoSpace.strip {s : Str} (h : NoSpace s) (hlen : 2 ≤ s.length) : Util.strip s = s := by
  refine Util.strip_self hlen (fun c hc => h c ?_) fun c hc => h c ?_
  · exact List.mem_of_mem_head? hc
  · exact List.mem_of_mem_getLast? hc

theorem NoSpace.findIdx? {s : Str} (h : NoSpace s) : s.findIdx? (· = ' ') = none := by
  rw [List.findIdx?_eq_none_iff]
  intro c hc
  have hspace : c ≠ ' ' := by
    rintro rfl
    exact absurd (h _ hc) (by decide)
  simpa using hspace

theorem not_mem_of_isDigit {seps : Str} (hseps : seps.any Char.isDigit = false) (c : Char)
    (hc : c.isDigit = true) : c ∉ seps := by
  intro hmem
  rw [List.any_eq_false] at hseps
  exact hseps c hmem hc

theorem sepFree_padded {seps : Str} (hseps : seps.any Char.isDigit = false) (w n : Nat) :
    Util.SepFree seps (padded w n) :=
  fun c hc => not_mem_of_isDigit hseps c ((digits_padded w n).2 c hc)

theorem Date.split (d : Date) :
    Util.split d.text ['-', '/'] = [padded 4 d.year, padded 2 d.month, padded 2 d.day] := by
  refine Util.split_join (by simp) _ ?_
  have hdigits (w n : Nat) : padded w n ≠ [] ∧ Util.SepFree ['-', '/'] (padded w n) :=
    ⟨(digits_padded _ _).1, sepFree_padded rfl _ _⟩
  simp [hdigits]

/-- A date that a parser of dates accepts. -/
def Date.Valid (d : Date) : Prop := 1 ≤ d.month ∧ 1 ≤ d.day

instance (d : Date) : Decidable d.Valid := inferInstanceAs (Decidable (_ ∧ _))

theorem readDate {α : Type} (d : Date) (next : Tm → Except ParseError α) :
    (do
      let year ← stoi (padded 4 d.year)
      let mon ← readField (padded 2 d.month) 1 .month
      let mday ← readField (padded 2 d.day) 0 .day
      next { tm_year := year - 1900, tm_mon := mon, tm_mday := mday }) =
      if d.Valid then next d.tm else .error .fail := by
  obtain ⟨year, month, day, hyear, hmonth, hday⟩ := d
  have hstoi := stoi_padded (w := 4) (show year < 2 ^ 31 by omega) noDigit_nil
  have hmon := readField_padded (w := 2) (show month < 2 ^ 31 by omega) noDigit_nil 1 .month
  have hmday := readField_padded (w := 2) (show day < 2 ^ 31 by omega) noDigit_nil 0 .day
  rw [List.append_nil] at hstoi hmon hmday
  rw [Int.sub_zero] at hmday
  have hmvalid : _isvalid_tm_field (month - 1) .month = true ↔ 1 ≤ month := by
    simp only [_isvalid_tm_field, Bool.and_eq_true, decide_eq_true_eq]
    omega
  have hdvalid : _isvalid_tm_field day .day = true ↔ 1 ≤ day := by
    simp only [_isvalid_tm_field, Bool.and_eq_true, decide_eq_true_eq]
    omega
  simp only [hstoi, hmon, hmday, hmvalid, hdvalid, Date.Valid, Date.tm]
  by_cases hm : 1 ≤ month
  · by_cases hd : 1 ≤ day
    · simp only [hm, hd, and_self, if_true]
      rfl
    · simp only [hm, hd, and_false, if_true, if_false]
      rfl
  · simp only [hm, false_and, if_false]
    rfl

theorem parseHms_clock (t : Clock 24) (tm : Tm) :
    parseHms tm [padded 2 t.hour, padded 2 t.minute, padded 2 t.second ++ t.fraction] =
      .ok (t.tm tm) := by
  have hhour := readField_padded (w := 2) (show t.hour < 2 ^ 31 by have := t.hour_lt; omega)
    noDigit_nil 0 .hour
  have hmin := readField_padded (w := 2) (show t.minute < 2 ^ 31 by have := t.minute_lt; omega)
    noDigit_nil 0 .minute
  have hsec := readField_padded (w := 2) (show t.second < 2 ^ 31 by have := t.second_lt; omega)
    t.noDigit_fraction 0 .second
  rw [List.append_nil] at hhour hmin
  rw [Int.sub_zero, if_pos] at hhour hmin hsec
  · simp only [parseHms, hhour, hmin, hsec]
    rfl
  · have hlt := t.second_lt
    simp only [_isvalid_tm_field, Bool.and_eq_true, decide_eq_true_eq]
    omega
  · have hlt := t.minute_lt
    simp only [_isvalid_tm_field, Bool.and_eq_true, decide_eq_true_eq]
    omega
  · have hlt := t.hour_lt
    simp only [_isvalid_tm_field, Bool.and_eq_true, decide_eq_true_eq]
    omega

theorem Clock.split (t : Clock hours) : Util.split t.text [':'] =
    [padded 2 t.hour, padded 2 t.minute, padded 2 t.second ++ t.fraction] := by
  have hfraction : Util.SepFree [':'] t.fraction :=
    t.forall_fraction (not_mem_of_isDigit rfl) (by decide)
  have hdigits (n : Nat) : padded 2 n ≠ [] ∧ Util.SepFree [':'] (padded 2 n) :=
    ⟨(digits_padded _ _).1, sepFree_padded rfl _ _⟩
  have hlast : padded 2 t.second ++ t.fraction ≠ [] ∧
      Util.SepFree [':'] (padded 2 t.second ++ t.fraction) :=
    ⟨by simp [(digits_padded _ _).1], List.forall_mem_append.mpr ⟨(hdigits _).2, hfraction⟩⟩
  refine Util.split_join (by simp) _ ?_
  exact List.forall_mem_cons.mpr ⟨hdigits _, List.forall_mem_cons.mpr ⟨hdigits _,
    List.forall_mem_cons.mpr ⟨hlast, by simp⟩⟩⟩

theorem Date.two_le_length (d : Date) : 2 ≤ d.text.length := by
  have hyear : (padded 4 d.year).length = 4 := length_padded (by decide) d.year_lt
  simp only [Date.text, Util.join, List.length_append]
  omega

theorem parseTimeStr_date (d : Date) :
    Timestamp.parseTimeStr d.text = if d.Valid then .ok d.tm else .error .fail := by
  have hyear : (padded 4 d.year).length = 4 := length_padded (by decide) d.year_lt
  unfold Timestamp.parseTimeStr
  simp only [d.noSpace.strip d.two_le_length, d.noSpace.findIdx?, Option.getD_none,
    List.take_length, d.split, hyear, ne_eq, not_true_eq_false, if_false]
  exact readDate d pure

theorem findIdx?_space {a b : Str} (ha : NoSpace a) :
    (a ++ ' ' :: b).findIdx? (· = ' ') = some a.length := by
  rw [List.findIdx?_append, ha.findIdx?, List.findIdx?_cons]
  simp

theorem Clock.two_le_length (t : Clock hours) : 2 ≤ t.text.length := by
  simp only [Clock.text, Util.join, List.length_append, List.length_cons]
  omega

theorem strip_dateTime {a b : Str} (ha : NoSpace a) (hb : NoSpace b) (hlen : 2 ≤ a.length)
    (hne : b ≠ []) : Util.strip (a ++ ' ' :: b) = a ++ ' ' :: b := by
  have hnil : a ≠ [] := by rintro rfl; simp at hlen
  refine Util.strip_self ?_ (fun c hc => ha c ?_) fun c hc => hb c ?_
  · simp only [List.length_append]
    omega
  · rw [List.head?_append_of_ne_nil _ hnil] at hc
    exact List.mem_of_mem_head? hc
  · rw [List.getLast?_append_of_ne_nil _ (by simp), List.getLast?_cons_of_ne_nil hne] at hc
    exact List.mem_of_mem_getLast? hc

theorem parseTimeStr_dateTime (d : Date) (t : Clock 24) :
    Timestamp.parseTimeStr (d.text ++ ' ' :: t.text) =
      if d.Valid then .ok (t.tm d.tm) else .error .fail := by
  have hyear : (padded 4 d.year).length = 4 := length_padded (by decide) d.year_lt
  have hne : t.text ≠ [] := by
    intro heq
    have hlen := t.two_le_length
    simp [heq] at hlen
  have hdrop : t.text.dropWhile isspace = t.text := by
    cases htext : t.text with
    | nil => rfl
    | cons c rest => simp [t.noSpace c (by simp [htext])]
  have hrest : (d.text ++ ' ' :: t.text).drop (d.text.length + 1) = t.text := by
    simp
  unfold Timestamp.parseTimeStr
  simp only [strip_dateTime d.noSpace t.noSpace d.two_le_length hne, findIdx?_space d.noSpace,
    Option.getD_some, List.take_left', d.split, hyear, ne_eq, not_true_eq_false, if_false, hrest,
    hdrop]
  refine (readDate d fun tm => parseHms tm (Util.split t.text [':'])).trans ?_
  rw [t.split, parseHms_clock]

/-- A text without a date is no time. -/
theorem parseTimeStr_clock (t : Clock hours) (negative : Bool) :
    Timestamp.parseTimeStr (if negative then '-' :: t.text else t.text) = .error .fail := by
  have hfree : Util.SepFree ['-', '/'] t.text :=
    t.forall_text (not_mem_of_isDigit rfl) (by decide) (by decide)
  have hlen := t.two_le_length
  have hne : t.text ≠ [] := by
    intro heq
    simp [heq] at hlen
  have hsplit := Util.split_part hfree hne
  cases negative with
  | false => simp [Timestamp.parseTimeStr, t.noSpace.strip hlen, t.noSpace.findIdx?, hsplit]
  | true =>
    have hspace : NoSpace ('-' :: t.text) := List.forall_mem_cons.mpr ⟨by decide, t.noSpace⟩
    have hdash : Util.split ('-' :: t.text) ['-', '/'] = [t.text] :=
      (Util.split_sep (by simp) _).trans hsplit
    simp [Timestamp.parseTimeStr, hspace.strip (by simp; omega), hspace.findIdx?, hdash]

/-! ## Values and their two forms -/

/-- How the server prints floating point numbers. -/
structure FloatText where
  float : UInt32 → Str
  double : UInt64 → Str

/-- The bytes of an integer column. -/
def integerSize : ColumnType → Option Nat
  | .MYSQL_TYPE_TINY => some 1
  | .MYSQL_TYPE_SHORT => some 2
  | .MYSQL_TYPE_INT24 => some 3
  | .MYSQL_TYPE_LONG => some 4
  | .MYSQL_TYPE_LONGLONG => some 8
  | _ => none

/-- The values of a column of the types that the getters recognise. Integers are
signed or unsigned, strings no longer than the length of the column, which comes
in four bytes. -/
inductive CellValue (field : ColumnMeta) where
  | integer (size : Nat) (n : Int) (zerofill : Nat) (hsize : integerSize field.type = some size)
      (hlo : -2 ^ (8 * size - 1) ≤ n) (hhi : n < 2 ^ (8 * size))
  | float (bits : UInt32) (htype : field.type = .MYSQL_TYPE_FLOAT)
  | double (bits : UInt64) (htype : field.type = .MYSQL_TYPE_DOUBLE)
  | string (bytes : Str) (htype : Result.isString field.type = true)
      (hlen : bytes.length ≤ field.length) (hfield : field.length < 2 ^ 32)
  | date (d : Date) (htype : field.type = .MYSQL_TYPE_DATE)
  | dateTime (d : Date) (t : Clock 24)
      (htype : field.type = .MYSQL_TYPE_DATETIME ∨ field.type = .MYSQL_TYPE_TIMESTAMP)
  | time (negative : Bool) (t : Clock 839) (htype : field.type = .MYSQL_TYPE_TIME)
  | year (y : Nat) (hyear : y < 10 ^ 4) (htype : field.type = .MYSQL_TYPE_YEAR)

def MysqlTime.members (t : MysqlTime) : Str :=
  toBytes 4 t.year ++ (toBytes 4 t.month ++ (toBytes 4 t.day ++ (toBytes 4 t.hour ++
    (toBytes 4 t.minute ++ (toBytes 4 t.second ++ toBytes 8 t.second_part)))))

/-- `MYSQL_TIME` in memory: behind `second_part` are `neg`, three bytes of padding
and `time_type`. -/
def MysqlTime.object (t : MysqlTime) (neg : Bool) (time_type : Nat) : Str :=
  t.members ++ (toBytes 4 neg.toNat ++ toBytes 4 time_type)

def Date.mysqlTime (d : Date) : MysqlTime := ⟨d.year, d.month, d.day, 0, 0, 0, 0⟩

def Clock.mysqlTime (t : Clock hours) (year month day : Nat) : MysqlTime :=
  ⟨year, month, day, t.hour, t.minute, t.second, t.second_part⟩

namespace CellValue

variable {field : ColumnMeta}

def binary : CellValue field → Str
  | integer size n .. => toBytes size (n % 2 ^ (8 * size)).toNat
  | float bits _ => toBytes 4 bits.toNat
  | double bits _ => toBytes 8 bits.toNat
  | string bytes .. => bytes
  | date d _ => d.mysqlTime.object false 0
  | dateTime d t _ => (t.mysqlTime d.year d.month d.day).object false 1
  | time negative t _ => (t.mysqlTime 0 0 0).object negative 2
  | year y .. => toBytes 2 y

def text (floats : FloatText) : CellValue field → Str
  | integer _ n zerofill .. => integerText zerofill n
  | float bits _ => floats.float bits
  | double bits _ => floats.double bits
  | string bytes .. => bytes
  | date d _ => d.text
  | dateTime d t _ => d.text ++ ' ' :: t.text
  | time negative t _ => if negative then '-' :: t.text else t.text
  | year y .. => padded 4 y

def cell (floats : FloatText) (v : CellValue field) : Cell :=
  { binary := v.binary, text := v.text floats }

end CellValue

abbrev TypedRow := List (Σ field : ColumnMeta, CellValue field)

def TypedRow.fields (row : TypedRow) : List ColumnMeta := row.map Sigma.fst

def TypedRow.forms (floats : FloatText) (row : TypedRow) : ResultRow row.fields where
  cells := row.map fun column => some (column.2.cell floats)
  length_eq := by simp [TypedRow.fields]

/-- Both results show the same value of the row. -/
def Agree (lib : CLib) (floats : FloatText) (row : TypedRow) (getter : Getter) (ref : ColumnRef) :
    Prop :=
  ∀ resBind, Fresh row.fields resBind → ∃ value,
    PreparedResult.get lib row.fields (PreparedResult.next resBind (row.forms floats).binary) getter
      ref = .value value ∧
    SqlResult.get lib row.fields (row.forms floats).text getter ref = .value value

/-- The column that is named, if there is one, has a type of the getter. -/
def Getter.Matches (getter : Getter) (fields : List ColumnMeta) (ref : ColumnRef) : Prop :=
  ∀ i field, resolve fields ref = some i → fields[i]? = some field →
    getter.recognises field.type = true

/-- The microseconds of a time of a row. -/
def microSeconds (lib : CLib) (tm : Tm) (second_part : Nat) : Int64 :=
  lib.mktime tm * Timestamp.microSecondsPerSecond + Int64.ofNat second_part

/-- When the two forms of a value are read alike. -/
def CellValue.SameForms (lib : CLib) (floats : FloatText) {field : ColumnMeta} :
    CellValue field → Prop
  | .integer size n .. => size = 4 ∨ size = 8 ∧ n < 2 ^ 63
  | .float bits _ => lib.toFloat (lib.atof (SqlResult.cstring (floats.float bits))) = bits
  | .double bits _ => lib.atof (SqlResult.cstring (floats.double bits)) = bits
  | .string bytes .. =>
    if field.length < 2 ^ 31 then '\x00' ∉ bytes else ∀ c ∈ bytes.head?, c = '\x00'
  | .date d _ => d.Valid ∨ microSeconds lib d.tm 0 = 0
  | .dateTime d t _ =>
    if d.Valid then t.second_part = 0 else microSeconds lib (t.tm d.tm) t.second_part = 0
  | .time _ t _ =>
    microSeconds lib (t.tm { tm_year := -1900, tm_mon := -1 }) t.second_part = 0
  | .year .. => False

/-! ## Times in memory -/

theorem member_here {size n : Nat} (h : n < 256 ^ size) (rest : Str) :
    PreparedResult.member 0 size (toBytes size n ++ rest) = n := by
  rw [PreparedResult.member, List.drop_zero, List.take_left' (length_toBytes size n),
    ofBytes_toBytes, Nat.mod_eq_of_lt h]

theorem member_behind {before : Str} {offset : Nat} (h : before.length ≤ offset) (size : Nat)
    (rest : Str) : PreparedResult.member offset size (before ++ rest) =
      PreparedResult.member (offset - before.length) size rest := by
  rw [PreparedResult.member, List.drop_append, List.drop_of_length_le h, List.nil_append]
  rfl

/-- Every member is small enough for its bytes. -/
structure MysqlTime.Fits (t : MysqlTime) : Prop where
  year : t.year < 256 ^ 4
  month : t.month < 256 ^ 4
  day : t.day < 256 ^ 4
  hour : t.hour < 256 ^ 4
  minute : t.minute < 256 ^ 4
  second : t.second < 256 ^ 4
  second_part : t.second_part < 256 ^ 8

theorem decode_members {t : MysqlTime} (h : t.Fits) :
    PreparedResult.decodeMysqlTime t.members = t := by
  have hpart : PreparedResult.member 0 8 (toBytes 8 t.second_part) = t.second_part := by
    simpa using member_here h.second_part []
  simp [PreparedResult.decodeMysqlTime, MysqlTime.members, member_behind, member_here h.year,
    member_here h.month, member_here h.day, member_here h.hour, member_here h.minute,
    member_here h.second, hpart]

theorem take_object (t : MysqlTime) (neg : Bool) (time_type : Nat) :
    (t.object neg time_type).take 32 = t.members :=
  List.take_left' (by simp [MysqlTime.members])

theorem length_object (t : MysqlTime) (neg : Bool) (time_type : Nat) :
    (t.object neg time_type).length = 40 := by
  simp [MysqlTime.object, MysqlTime.members]

theorem toInt32_of_mem {n : Int} (hlo : -2 ^ 31 ≤ n) (hhi : n < 2 ^ 31) : toInt32 n = n :=
  Int.bmod_eq_of_le (by omega) (by omega)

theorem Date.ofMysqlTime (lib : CLib) (d : Date) :
    Timestamp.ofMysqlTime lib d.mysqlTime = microSeconds lib d.tm 0 := by
  obtain ⟨year, month, day, hyear, hmonth, hday⟩ := d
  have hy : toInt32 (year - 1900) = year - 1900 := toInt32_of_mem (by omega) (by omega)
  have hm : toInt32 (month - 1) = month - 1 := toInt32_of_mem (by omega) (by omega)
  have hd : toInt32 day = day := toInt32_of_mem (by omega) (by omega)
  have hzero : toInt32 0 = 0 := rfl
  simp [Timestamp.ofMysqlTime, MysqlTime.tm, Date.mysqlTime, microSeconds, Date.tm, hy, hm, hd,
    hzero]

theorem Clock.ofMysqlTime (lib : CLib) (t : Clock hours) (hhours : hours < 2 ^ 31)
    {year month day : Nat}
    (hyear : year < 10 ^ 4) (hmonth : month ≤ 12) (hday : day ≤ 31) :
    Timestamp.ofMysqlTime lib (t.mysqlTime year month day) = microSeconds lib
      (t.tm { tm_year := year - 1900, tm_mon := month - 1, tm_mday := day }) t.second_part := by
  have hy : toInt32 (year - 1900) = year - 1900 := toInt32_of_mem (by omega) (by omega)
  have hm : toInt32 (month - 1) = month - 1 := toInt32_of_mem (by omega) (by omega)
  have hd : toInt32 day = day := toInt32_of_mem (by omega) (by omega)
  have hh : toInt32 t.hour = t.hour := toInt32_of_mem (by omega) (by have := t.hour_lt; omega)
  have hmin : toInt32 t.minute = t.minute :=
    toInt32_of_mem (by omega) (by have := t.minute_lt; omega)
  have hs : toInt32 t.second = t.second := toInt32_of_mem (by omega) (by have := t.second_lt; omega)
  simp [Timestamp.ofMysqlTime, MysqlTime.tm, Clock.mysqlTime, microSeconds, Clock.tm, hy, hm, hd,
    hh,
    hmin, hs]

theorem Date.fits (d : Date) : d.mysqlTime.Fits := by
  obtain ⟨year, month, day, hyear, hmonth, hday⟩ := d
  constructor <;> simp only [Date.mysqlTime] <;> omega

theorem Clock.fits (t : Clock hours) (hhours : hours < 2 ^ 31) {year month day : Nat}
    (hyear : year < 10 ^ 4) (hmonth : month ≤ 12) (hday : day ≤ 31) :
    (t.mysqlTime year month day).Fits := by
  obtain ⟨hour, minute, second, second_part, -, hhour, hminute, hsecond, hpart, -, -⟩ := t
  constructor <;> simp only [Clock.mysqlTime] <;> omega

theorem decodeTime_object (lib : CLib) {t : MysqlTime} (h : t.Fits) (neg : Bool) (time_type : Nat) :
    PreparedResult.decode lib .getTime ((t.object neg time_type).take 32) =
      .timestamp (Timestamp.ofMysqlTime lib t) := by
  rw [take_object]
  simp [PreparedResult.decode, PreparedResult.decodeTime, decode_members h]

/-! ## The columns of a row -/

/-- The getter of a column type. -/
def getterOf : ColumnType → Option Getter
  | .MYSQL_TYPE_TINY | .MYSQL_TYPE_SHORT | .MYSQL_TYPE_INT24 | .MYSQL_TYPE_LONG => some .getInt
  | .MYSQL_TYPE_LONGLONG => some .getLong
  | .MYSQL_TYPE_FLOAT => some .getFloat
  | .MYSQL_TYPE_DOUBLE => some .getDouble
  | .MYSQL_TYPE_STRING | .MYSQL_TYPE_VAR_STRING | .MYSQL_TYPE_VARCHAR | .MYSQL_TYPE_BLOB =>
    some .getString
  | .MYSQL_TYPE_TIME | .MYSQL_TYPE_TIMESTAMP | .MYSQL_TYPE_DATE | .MYSQL_TYPE_YEAR
  | .MYSQL_TYPE_DATETIME => some .getTime
  | .MYSQL_TYPE_TINY_BLOB | .MYSQL_TYPE_MEDIUM_BLOB | .MYSQL_TYPE_LONG_BLOB => none

theorem recognises_iff (getter : Getter) (type : ColumnType) :
    getter.recognises type = true ↔ getterOf type = some getter := by
  cases type <;> cases getter <;> decide

section

variable {lib : CLib} {floats : FloatText} {field : ColumnMeta} {v : CellValue field} {getter :
  Getter}

/-- A getter shows the value whatever its buffer held. -/
def CellAgree (lib : CLib) (floats : FloatText) (v : CellValue field) (getter : Getter) : Prop :=
  ∀ bind, NewBind (makeResultBind field) bind → ∃ value,
    (match bind.buffer with
      | none => Read.value getter.zero
      | some memory => PreparedResult.load lib getter (getter.width v.binary.length)
          (fetchedInto memory (some (v.cell floats)))) = .value value ∧
    SqlResult.read lib getter (some (v.text floats)) = .value value

theorem fresh_set {fields : List ColumnMeta} {resBind : List Bind} (h : Fresh fields resBind)
    {i : Nat}
    (hfield : fields[i]? = some field) {bind : Bind} (hnew : NewBind (makeResultBind field) bind) :
    Fresh fields (resBind.set i bind) := by
  unfold Fresh at h ⊢
  induction h generalizing i with
  | nil => simp at hfield
  | cons hbind hrest ih =>
    cases i with
    | zero =>
      obtain rfl := Option.some.inj hfield
      exact .cons hnew hrest
    | succ i => exact .cons hbind (ih hfield)

theorem agree_iff_cell {row : TypedRow} {ref : ColumnRef} {i : Nat}
    (hres : resolve row.fields ref = some i) (hcolumn : row[i]? = some ⟨field, v⟩)
    (hrec : getter.recognises field.type = true) :
    Agree lib floats row getter ref ↔ CellAgree lib floats v getter := by
  have hfield : row.fields[i]? = some field := by simp [TypedRow.fields, hcolumn]
  have hcell : (row.forms floats).cells[i]? = some (some (v.cell floats)) := by
    simp [TypedRow.forms, hcolumn]
  have htext : (row.forms floats).text[i]?.getD none = some (v.text floats) := by
    simp [ResultRow.text, hcell, CellValue.cell]
  have hsql : SqlResult.get lib row.fields (row.forms floats).text getter ref =
      SqlResult.read lib getter (some (v.text floats)) := by
    simp only [sql_get_resolve, hres, Option.bind_some, hfield, Option.map_some, hrec, if_true,
      htext]
  constructor
  · intro h bind hnew
    have hstale := fresh_staleBinds row.fields (byte 0) Nat.one_pos 0
    have hlt : i < (staleBinds row.fields (byte 0) 1 0).length := by
      rw [← hstale.length_eq]
      exact resolve_lt hres
    have hfresh := fresh_set hstale hfield hnew
    have hbind : ((staleBinds row.fields (byte 0) 1 0).set i bind)[i]? = some bind := by
      simp [hlt]
    have hshow := h _ hfresh
    rwa [prepared_get_next hfresh _ getter hres hcell hbind, hsql] at hshow
  · intro h resBind hfresh
    obtain ⟨field', bind, -, hfield', hbind, -, hnew, -⟩ :=
      next_getElem? hfresh (row.forms floats) (resolve_lt hres)
    obtain rfl := Option.some.inj (hfield.symm.trans hfield')
    rw [prepared_get_next hfresh _ getter hres hcell hbind, hsql]
    exact h bind hnew

theorem newBind_some {bufsize : Int} (h : 0 ≤ bufsize) {bind : Bind} :
    NewBind bufsize bind ↔ ∃ memory : Str, bind.buffer = some memory ∧ (memory.length : Int) =
      bufsize := by
  rw [NewBind, if_neg (by omega)]

theorem cellAgree_own (hpos : 0 ≤ makeResultBind field)
    (hbytes : getter.width v.binary.length ≤ v.binary.length)
    (hroom : (getter.width v.binary.length : Int) ≤ makeResultBind field) :
    CellAgree lib floats v getter ↔ SqlResult.read lib getter (some (v.text floats)) =
      .value (PreparedResult.decode lib getter (v.binary.take (getter.width v.binary.length))) := by
  have hload (memory : Str) (hlen : (memory.length : Int) = makeResultBind field) :
      PreparedResult.load lib getter (getter.width v.binary.length)
        (fetchedInto memory (some (v.cell floats))) = _ :=
    load_own (c := v.cell floats) hbytes (by omega)
  constructor
  · intro h
    have hlen : ((List.replicate (makeResultBind field).toNat (byte 0)).length : Int) =
        makeResultBind field := by
      rw [List.length_replicate]
      omega
    obtain ⟨value, hprepared, hsql⟩ := h { buffer := some _, length := 0 }
      ((newBind_some hpos).mpr ⟨_, rfl, hlen⟩)
    rw [hsql, ← hprepared]
    exact hload _ hlen
  · intro h bind hnew
    obtain ⟨memory, hbuffer, hlen⟩ := (newBind_some hpos).mp hnew
    refine ⟨_, ?_, h⟩
    rw [hbuffer]
    exact hload memory hlen

theorem not_cellAgree_outside (hpos : 0 ≤ makeResultBind field)
    (hroom : makeResultBind field < getter.width v.binary.length) :
    ¬ CellAgree lib floats v getter := by
  intro h
  have hlen : ((List.replicate (makeResultBind field).toNat (byte 0)).length : Int) =
      makeResultBind field := by
    rw [List.length_replicate]
    omega
  obtain ⟨value, hprepared, -⟩ := h { buffer := some _, length := 0 }
    ((newBind_some hpos).mpr ⟨_, rfl, hlen⟩)
  have hload : PreparedResult.load lib getter _ (fetchedInto _ (some (v.cell floats))) =
      .undefined :=
    load_outside (show (List.replicate (makeResultBind field).toNat (byte 0)).length <
      getter.width v.binary.length by omega)
  exact absurd (hload.symm.trans hprepared) (by simp)

theorem cellAgree_null (hneg : makeResultBind field < 0) :
    CellAgree lib floats v getter ↔
      SqlResult.read lib getter (some (v.text floats)) = .value getter.zero := by
  unfold CellAgree
  simp only [NewBind, if_pos hneg]
  constructor
  · intro h
    obtain ⟨value, hprepared, hsql⟩ := h { buffer := none, length := 0 } rfl
    rw [hsql, ← hprepared]
  · intro h bind hbuffer
    exact ⟨_, by rw [hbuffer], h⟩

theorem getter_of_type {type : ColumnType} (htype : field.type = type)
    (hrec : getter.recognises field.type = true) : getterOf type = some getter := by
  rw [← htype]
  exact (recognises_iff _ _).mp hrec

theorem cstring_eq_self_iff {s : Str} : SqlResult.cstring s = s ↔ '\x00' ∉ s := by
  rw [SqlResult.cstring, List.takeWhile_eq_self_iff]
  constructor
  · intro h hmem
    simpa using h _ hmem
  · intro h c hc
    have hne : c ≠ '\x00' := by rintro rfl; exact h hc
    simpa using hne

theorem cstring_integerText (zerofill : Nat) (n : Int) :
    SqlResult.cstring (integerText zerofill n) = integerText zerofill n := by
  rw [cstring_eq_self_iff]
  have hzero : Char.isDigit '\x00' = false := by decide
  cases n with
  | ofNat n => exact (digits_padded zerofill n).not_mem hzero
  | negSucc n => simp [integerText, (digits_decimal (n + 1)).not_mem hzero]

/-- The number that the bytes of an integer hold. -/
theorem ofBytes_integer (size : Nat) (n : Int) :
    (ofBytes (toBytes size (n % 2 ^ (8 * size)).toNat) : Int) = n % 2 ^ (8 * size) := by
  have hpos : (0 : Int) < 2 ^ (8 * size) := Int.pow_pos (by decide)
  have hpow : (256 : Nat) ^ size = 2 ^ (8 * size) := by rw [Nat.pow_mul]
  have hlt : (n % 2 ^ (8 * size)).toNat < 256 ^ size := by
    have hmod := Int.emod_lt_of_pos n hpos
    have hnonneg := Int.emod_nonneg n hpos.ne'
    rw [hpow]
    have hcast : ((2 ^ (8 * size) : Nat) : Int) = 2 ^ (8 * size) := by push_cast; rfl
    omega
  rw [ofBytes_toBytes, Nat.mod_eq_of_lt hlt, Int.toNat_of_nonneg (Int.emod_nonneg n hpos.ne')]

theorem decodeInt_integer (n : Int) :
    PreparedResult.decodeInt (toBytes 4 (n % 2 ^ 32).toNat) = .int (Int32.ofInt n) := by
  have hbytes := ofBytes_integer 4 n
  rw [PreparedResult.decodeInt, hbytes]
  congr 1
  apply Int32.toInt.inj
  simp only [Int32.toInt_ofInt]
  exact Int.emod_bmod n (2 ^ 32)

theorem decodeLong_integer (n : Int) :
    PreparedResult.decodeLong (toBytes 8 (n % 2 ^ 64).toNat) = .long_long (Int64.ofInt n) := by
  have hbytes := ofBytes_integer 8 n
  rw [PreparedResult.decodeLong, hbytes]
  congr 1
  apply Int64.toInt.inj
  simp only [Int64.toInt_ofInt]
  exact Int.emod_bmod n (2 ^ 64)

/-- `atol` stops at the largest `long`. -/
theorem clamp_eq_iff {n : Int} (hlo : -2 ^ 63 ≤ n) (hhi : n < 2 ^ 64) :
    Int64.ofInt (clamp n) = Int64.ofInt n ↔ n < 2 ^ 63 := by
  constructor
  · intro h
    by_contra hge
    have hclamp : clamp n = 2 ^ 63 - 1 := by unfold clamp; omega
    have hmod := congrArg Int64.toInt h
    rw [hclamp, Int64.toInt_ofInt, Int64.toInt_ofInt] at hmod
    have hrem := emod_of_bmod hmod
    simp only [Int64.size] at hrem
    omega
  · intro h
    rw [clamp_of_mem hlo h]

/-- The integers but for the two sizes whose getter takes exactly the buffer. -/
theorem integerSize_eq {type : ColumnType} {size : Nat} (h : integerSize type = some size) :
    type = .MYSQL_TYPE_LONG ∧ size = 4 ∨ type = .MYSQL_TYPE_LONGLONG ∧ size = 8 ∨
      getterOf type = some .getInt ∧ size < 4 ∧
        ∀ field : ColumnMeta, field.type = type → makeResultBind field = size := by
  cases type <;> cases h
  case MYSQL_TYPE_LONG => exact .inl ⟨rfl, rfl⟩
  case MYSQL_TYPE_LONGLONG => exact .inr (.inl ⟨rfl, rfl⟩)
  all_goals
    refine .inr (.inr ⟨rfl, by decide, fun field hfield => ?_⟩)
    rw [makeResultBind, hfield]
    rfl

theorem cellAgree_integer {size zerofill : Nat} {n : Int}
    {hsize : integerSize field.type = some size}
    {hlo : -2 ^ (8 * size - 1) ≤ n} {hhi : n < 2 ^ (8 * size)}
    (hrec : getter.recognises field.type = true) :
    CellAgree lib floats (.integer size n zerofill hsize hlo hhi) getter ↔
      size = 4 ∨ size = 8 ∧ n < 2 ^ 63 := by
  have hsql : strtol (SqlResult.cstring (integerText zerofill n)) = some (clamp n) := by
    rw [cstring_integerText, strtol_integerText]
  rcases integerSize_eq hsize with ⟨htype, rfl⟩ | ⟨htype, rfl⟩ | ⟨hgetter, hsmall, hbind⟩
  · -- an INT: all the digits fit
    cases getter_of_type htype hrec
    have hbind : makeResultBind field = 4 := by rw [makeResultBind, htype]; rfl
    rw [cellAgree_own (by omega) (by simp [CellValue.binary, Getter.width]) (by rw [hbind]; rfl)]
    have htake : (toBytes 4 (n % 2 ^ 32).toNat).take 4 = toBytes 4 (n % 2 ^ 32).toNat :=
      List.take_of_length_le (by simp)
    have hdecode : PreparedResult.decode lib .getInt (List.take 4
        (CellValue.integer 4 n zerofill hsize hlo hhi).binary) = .int (Int32.ofInt n) :=
      (congrArg _ htake).trans (decodeInt_integer n)
    have hclamp : clamp n = n := clamp_of_mem (by omega) (by omega)
    simp [Getter.width, hdecode, SqlResult.read, SqlResult.nonNull, CellValue.text, atoi, hsql,
      hclamp]
  · cases getter_of_type htype hrec
    have hbind : makeResultBind field = 8 := by rw [makeResultBind, htype]; rfl
    rw [cellAgree_own (by omega) (by simp [CellValue.binary, Getter.width]) (by rw [hbind]; rfl)]
    have htake : (toBytes 8 (n % 2 ^ 64).toNat).take 8 = toBytes 8 (n % 2 ^ 64).toNat :=
      List.take_of_length_le (by simp)
    have hdecode : PreparedResult.decode lib .getLong (List.take 8
        (CellValue.integer 8 n zerofill hsize hlo hhi).binary) = .long_long (Int64.ofInt n) :=
      (congrArg _ htake).trans (decodeLong_integer n)
    have hclamp : Int64.ofInt (clamp n) = Int64.ofInt n ↔ n < 2 ^ 63 :=
      clamp_eq_iff (by omega) (by omega)
    have hmax : n < 2 ^ 63 ↔ n < 9223372036854775808 := by omega
    simp [Getter.width, hdecode, SqlResult.read, SqlResult.nonNull, CellValue.text, atol, hsql,
      hclamp]
  · -- `getInt` takes four bytes of a buffer of at most three
    obtain rfl := Option.some.inj (hgetter.symm.trans ((recognises_iff _ _).mp hrec))
    have hbuffer := hbind field rfl
    constructor
    · exact fun h => absurd h
        (not_cellAgree_outside (by omega) (by simp only [Getter.width]; omega))
    · omega

theorem cellAgree_float {bits : UInt32} {htype : field.type = .MYSQL_TYPE_FLOAT}
    (hrec : getter.recognises field.type = true) : CellAgree lib floats (.float bits htype) getter ↔
      lib.toFloat (lib.atof (SqlResult.cstring (floats.float bits))) = bits := by
  cases getter_of_type htype hrec
  have hbind : makeResultBind field = 4 := by rw [makeResultBind, htype]; rfl
  rw [cellAgree_own (by omega) (by simp [CellValue.binary, Getter.width]) (by rw [hbind]; rfl)]
  have htake : (toBytes 4 bits.toNat).take 4 = toBytes 4 bits.toNat :=
    List.take_of_length_le (by simp)
  have hbits : UInt32.ofNat (ofBytes (toBytes 4 bits.toNat)) = bits := by
    have hlt : bits.toNat < 256 ^ 4 := bits.toNat_lt
    rw [ofBytes_toBytes, Nat.mod_eq_of_lt hlt, UInt32.ofNat_toNat]
  have hdecode : PreparedResult.decode lib .getFloat (List.take 4
      (CellValue.float bits htype).binary) = .float bits :=
    (congrArg _ htake).trans (congrArg Value.float hbits)
  simp [Getter.width, hdecode, SqlResult.read, SqlResult.nonNull, CellValue.text]

theorem cellAgree_double {bits : UInt64} {htype : field.type = .MYSQL_TYPE_DOUBLE}
    (hrec : getter.recognises field.type = true) :
    CellAgree lib floats (.double bits htype) getter ↔
      lib.atof (SqlResult.cstring (floats.double bits)) = bits := by
  cases getter_of_type htype hrec
  have hbind : makeResultBind field = 8 := by rw [makeResultBind, htype]; rfl
  rw [cellAgree_own (by omega) (by simp [CellValue.binary, Getter.width]) (by rw [hbind]; rfl)]
  have htake : (toBytes 8 bits.toNat).take 8 = toBytes 8 bits.toNat :=
    List.take_of_length_le (by simp)
  have hbits : UInt64.ofNat (ofBytes (toBytes 8 bits.toNat)) = bits := by
    have hlt : bits.toNat < 256 ^ 8 := bits.toNat_lt
    rw [ofBytes_toBytes, Nat.mod_eq_of_lt hlt, UInt64.ofNat_toNat]
  have hdecode : PreparedResult.decode lib .getDouble (List.take 8
      (CellValue.double bits htype).binary) = .double bits :=
    (congrArg _ htake).trans (congrArg Value.double hbits)
  simp [Getter.width, hdecode, SqlResult.read, SqlResult.nonNull, CellValue.text]

theorem isString_eq {type : ColumnType} (h : Result.isString type = true) :
    getterOf type = some .getString ∧
      ∀ field : ColumnMeta, field.type = type → makeResultBind field = toInt32 field.length := by
  cases type <;> simp only [Result.isString] at h <;> try exact absurd h (by decide)
  all_goals exact ⟨rfl, fun field hfield => by rw [makeResultBind, hfield]⟩

theorem cstring_eq_nil_iff {s : Str} : SqlResult.cstring s = [] ↔ ∀ c ∈ s.head?, c = '\x00' := by
  cases s with
  | nil => simp [SqlResult.cstring]
  | cons c s =>
    by_cases hc : c = '\x00'
    · simp [SqlResult.cstring, hc]
    · simp [SqlResult.cstring, hc]

theorem cellAgree_string {bytes : Str} {htype : Result.isString field.type = true}
    {hlen : bytes.length ≤ field.length} {hfield : field.length < 2 ^ 32}
    (hrec : getter.recognises field.type = true) :
    CellAgree lib floats (.string bytes htype hlen hfield) getter ↔
      if field.length < 2 ^ 31 then '\x00' ∉ bytes else ∀ c ∈ bytes.head?, c = '\x00' := by
  obtain ⟨hgetter, hbind⟩ := isString_eq htype
  obtain rfl := Option.some.inj (hgetter.symm.trans ((recognises_iff _ _).mp hrec))
  have hbuffer := hbind field rfl
  have hwidth : Getter.getString.width bytes.length = bytes.length := Nat.mod_eq_of_lt (by omega)
  by_cases hroom : field.length < 2 ^ 31
  · rw [toInt32_of_mem (by omega) (by omega)] at hbuffer
    rw [cellAgree_own (by omega) (by simp only [CellValue.binary]; omega)
      (by simp only [CellValue.binary]; omega), if_pos hroom, ← cstring_eq_self_iff]
    simp [CellValue.binary, hwidth, SqlResult.read, CellValue.text, PreparedResult.decode]
  · -- the length is negative as an `int`
    have hneg : toInt32 field.length = field.length - 2 ^ 32 := by
      have hmod : (((field.length : Int) - 2 ^ 32) + 2 ^ 32).bmod (2 ^ 32) = _ :=
        Int.add_bmod_right ((field.length : Int) - 2 ^ 32) (2 ^ 32)
      rw [Int.sub_add_cancel] at hmod
      rw [toInt32, hmod]
      exact Int.bmod_eq_of_le (by omega) (by omega)
    rw [cellAgree_null (by omega), if_neg hroom, ← cstring_eq_nil_iff]
    simp [SqlResult.read, CellValue.text, Getter.zero]

theorem isDigit_ne_zero (c : Char) (h : c.isDigit = true) : c ≠ '\x00' := by
  rintro rfl
  cases h

theorem Date.ofString (d : Date) : Timestamp.ofString lib (SqlResult.cstring d.text) =
    some (if d.Valid then microSeconds lib d.tm 0 else 0) := by
  have hzero : '\x00' ∉ d.text := fun hmem =>
    d.forall_text isDigit_ne_zero (by decide) _ hmem rfl
  rw [cstring_eq_self_iff.mpr hzero, Timestamp.ofString, parseTimeStr_date]
  by_cases hvalid : d.Valid
  · simp [hvalid, microSeconds]
  · simp [hvalid]

theorem Clock.not_mem_zero (t : Clock hours) : '\x00' ∉ t.text := fun hmem =>
  t.forall_text isDigit_ne_zero (by decide) (by decide) _ hmem rfl

theorem ofString_dateTime (d : Date) (t : Clock 24) :
    Timestamp.ofString lib (SqlResult.cstring (d.text ++ ' ' :: t.text)) =
      some (if d.Valid then microSeconds lib (t.tm d.tm) 0 else 0) := by
  have hdate : '\x00' ∉ d.text := fun hmem => d.forall_text isDigit_ne_zero (by decide) _ hmem rfl
  have hzero : '\x00' ∉ d.text ++ ' ' :: t.text := by simp [hdate, t.not_mem_zero]
  rw [cstring_eq_self_iff.mpr hzero, Timestamp.ofString, parseTimeStr_dateTime]
  by_cases hvalid : d.Valid
  · simp [hvalid, microSeconds]
  · simp [hvalid]

theorem ofString_clock (t : Clock hours) (negative : Bool) : Timestamp.ofString lib
    (SqlResult.cstring (if negative then '-' :: t.text else t.text)) = some 0 := by
  have hzero : '\x00' ∉ (if negative then '-' :: t.text else t.text) := by
    cases negative <;> simp [t.not_mem_zero]
  rw [cstring_eq_self_iff.mpr hzero, Timestamp.ofString, parseTimeStr_clock]

theorem microSeconds_inj {tm : Tm} {second_part : Nat} (h : second_part < 10 ^ 6) :
    microSeconds lib tm 0 = microSeconds lib tm second_part ↔ second_part = 0 := by
  rw [microSeconds, microSeconds, Int64.add_right_inj]
  constructor
  · intro heq
    have hval := congrArg Int64.toInt heq
    rw [Int64.toInt_ofNat_of_lt (by omega), Int64.toInt_ofNat_of_lt (by omega)] at hval
    omega
  · rintro rfl
    rfl

theorem isTime_bind {type : ColumnType} (hgetter : getterOf type = some .getTime)
    (htype : field.type = type) : makeResultBind field = 40 := by
  cases type <;> simp only [getterOf, reduceCtorEq, Option.some.injEq] at hgetter <;>
    rw [makeResultBind, htype] <;> rfl

/-- The bytes show the time itself. -/
theorem cellAgree_time {t : MysqlTime} {neg : Bool} {time_type : Nat} (hfits : t.Fits)
    (hbinary : v.binary = t.object neg time_type) (hbind : makeResultBind field = 40)
    {shown : Int64}
    (hshown : Timestamp.ofString lib (SqlResult.cstring (v.text floats)) = some shown) :
    CellAgree lib floats v .getTime ↔ shown = Timestamp.ofMysqlTime lib t := by
  have hlen : v.binary.length = 40 := by rw [hbinary, length_object]
  rw [cellAgree_own (by omega) (by rw [hlen]; exact Nat.le_of_ble_eq_true rfl)
    (by rw [hbind]; exact Int.le_of_lt (by decide : (32 : Int) < 40)), hbinary]
  simp only [Getter.width, decodeTime_object lib hfits, SqlResult.read, hshown, Read.value.injEq,
    Value.timestamp.injEq]

/-- Two bytes of a YEAR, the rest of its buffer belongs to others. -/
theorem not_cellAgree_year {y : Nat} {hyear : y < 10 ^ 4} {htype : field.type = .MYSQL_TYPE_YEAR} :
    ¬ CellAgree lib floats (.year y hyear htype) .getTime := by
  intro h
  have hbind : makeResultBind field = 40 := isTime_bind rfl htype
  obtain ⟨zero, hzero, hsql⟩ := h { buffer := some (memory (byte 0) 32 40), length := 0 }
    ((newBind_some (by omega)).mpr ⟨_, rfl, by rw [length_memory _ (by decide), hbind]; rfl⟩)
  obtain ⟨one, hone, hsql'⟩ := h { buffer := some (memory (byte 1) 32 40), length := 0 }
    ((newBind_some (by omega)).mpr ⟨_, rfl, by rw [length_memory _ (by decide), hbind]; rfl⟩)
  have hshort : (fetchedBytes (some ((CellValue.year y hyear htype).cell floats))).length < 32 := by
    simp [fetchedBytes, CellValue.cell, CellValue.binary]
  refine load_stale (by simp) (show 32 = Getter.getTime.width 2 from rfl) hshort
    (show 32 ≤ 40 by decide) (hzero.trans ?_)
  exact (hsql.symm.trans hsql').trans hone.symm

/-- Exactly then a column shows the same in both results. -/
theorem cellAgree_iff (hrec : getter.recognises field.type = true) :
    CellAgree lib floats v getter ↔ v.SameForms lib floats := by
  have htime {type : ColumnType} (htype : field.type = type) (hgetter : getterOf type =
    some .getTime) :
      getter = .getTime := Option.some.inj ((getter_of_type htype hrec).symm.trans hgetter)
  cases v with
  | integer => exact cellAgree_integer hrec
  | float => exact cellAgree_float hrec
  | double => exact cellAgree_double hrec
  | string => exact cellAgree_string hrec
  | date d htype =>
    obtain rfl := htime htype rfl
    have hbinary : (CellValue.date d htype).binary = d.mysqlTime.object false 0 := rfl
    rw [cellAgree_time d.fits hbinary (isTime_bind rfl htype) d.ofString, d.ofMysqlTime]
    by_cases hvalid : d.Valid
    · simp [CellValue.SameForms, hvalid]
    · simp [CellValue.SameForms, hvalid, eq_comm]
  | dateTime d t htype =>
    have hgetter : getterOf field.type = some .getTime := by
      rcases htype with htype | htype <;> rw [htype] <;> rfl
    obtain rfl := htime rfl hgetter
    have hhours : 24 < 2 ^ 31 := by decide
    have hfits := t.fits hhours d.year_lt d.month_le d.day_le
    have hbinary : (CellValue.dateTime d t htype).binary =
      (t.mysqlTime d.year d.month d.day).object false 1 := rfl
    rw [cellAgree_time hfits hbinary (isTime_bind hgetter rfl) (ofString_dateTime d t),
      t.ofMysqlTime lib hhours d.year_lt d.month_le d.day_le]
    by_cases hvalid : d.Valid
    · simp only [hvalid, if_true, CellValue.SameForms]
      exact microSeconds_inj t.second_part_lt
    · simp only [hvalid, if_false, CellValue.SameForms]
      exact eq_comm
  | time negative t htype =>
    obtain rfl := htime htype rfl
    have hhours : 839 < 2 ^ 31 := by decide
    have hyear : 0 < 10 ^ 4 := by decide
    have hfits := t.fits hhours hyear (Nat.zero_le 12) (Nat.zero_le 31)
    have hbinary : (CellValue.time negative t htype).binary =
      (t.mysqlTime 0 0 0).object negative 2 := rfl
    rw [cellAgree_time hfits hbinary (isTime_bind rfl htype) (ofString_clock t negative),
      t.ofMysqlTime lib hhours hyear (Nat.zero_le 12) (Nat.zero_le 31)]
    exact eq_comm
  | year y hyear htype =>
    obtain rfl := htime htype rfl
    exact iff_of_false not_cellAgree_year (by simp [CellValue.SameForms])

end

def sampleNote : ColumnMeta where
  name := "note".toList
  length := 3
  type := .MYSQL_TYPE_VAR_STRING

/-- A string with a zero byte. -/
def sampleNoteRow : TypedRow :=
  [⟨sampleNote, .string ['a', '\x00', 'b'] rfl (by decide) (by decide)⟩]

def sampleNoteBinds : List Bind := [{ buffer := some (toBytes 3 0), length := 0 }]

theorem zero_byte_prepared (lib : CLib) (floats : FloatText) :
    PreparedResult.get lib sampleNoteRow.fields (PreparedResult.next sampleNoteBinds
      (sampleNoteRow.forms floats).binary) .getString (.columnName "note".toList) =
      .value (.string ['a', '\x00', 'b']) := by
  rfl

theorem zero_byte_sql (lib : CLib) (floats : FloatText) :
    SqlResult.get lib sampleNoteRow.fields (sampleNoteRow.forms floats).text .getString
      (.columnName "note".toList) = .value (.string ['a']) := by
  rfl

end TinyOrm
