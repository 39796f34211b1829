import TinyOrm.Text
set_option autoImplicit false

/-!
Numbers and times in texts (mysql4cpp/timestamp.cpp).

`mktime`, `atof` and the conversion of a `double` to a `float` are parameters;
floating point numbers are their bits.
-/

namespace TinyOrm

/-! ## The C library -/

/-- An assignment to an `int`. -/
def toInt32 (n : Int) : Int := n.bmod (2 ^ 32)

/-- `struct tm`. -/
structure Tm where
  tm_year : Int := 0
  tm_mon : Int := 0
  tm_mday : Int := 0
  tm_hour : Int := 0
  tm_min : Int := 0
  tm_sec : Int := 0
  deriving DecidableEq, Repr

structure CLib where
  mktime : Tm → Int64
  atof : Str → UInt64
  toFloat : UInt64 → UInt32

/-- `strtol` to base 10, clamped to a `long`; `none`: there are no digits. -/
def strtol (s : Str) : Option Int :=
  let (neg, s) := match s.dropWhile isspace with
    | '-' :: s => (true, s)
    | '+' :: s => (false, s)
    | s => (false, s)
  match s.takeWhile Char.isDigit with
  | [] => none
  | digits =>
    let n : Int := Nat.ofDigitChars 10 digits 0
    some (max (-2 ^ 63) (min (if neg then -n else n) (2 ^ 63 - 1)))

def atoi (s : Str) : Int32 := Int32.ofInt ((strtol s).getD 0)

def atol (s : Str) : Int64 := Int64.ofInt ((strtol s).getD 0)

/-! ## Timestamp -/

/-- How `parseTimeStr` ends without success; `throws`: an exception of `stoi` or
`at`. -/
inductive ParseError where
  | fail
  | throws
  deriving DecidableEq, Repr

def stoi (s : Str) : Except ParseError Int :=
  match strtol s with
  | none => .error .throws
  | some n => if -2 ^ 31 ≤ n ∧ n < 2 ^ 31 then .ok n else .error .throws

inductive TimeUnit where
  | microsecond
  | second
  | minute
  | hour
  | day
  | month
  | year
  deriving DecidableEq, Repr

def _isvalid_tm_field (value : Int) : TimeUnit → Bool
  | .month => 0 ≤ value && value < 12
  | .day => 0 < value && value ≤ 31
  | .hour => 0 ≤ value && value < 24
  | .minute => 0 ≤ value && value ≤ 59
  | .second => 0 ≤ value && value ≤ 60
  | .microsecond | .year => true

/-- `stoi` and the check behind it. -/
def readField (s : Str) (less : Int) (unit : TimeUnit) : Except ParseError Int := do
  let value := (← stoi s) - less
  if _isvalid_tm_field value unit then pure value else .error .fail

/-- The part behind the date. -/
def parseHms (tm : Tm) : List Str → Except ParseError Tm
  | [] => pure tm
  | [h] => do pure { tm with tm_hour := ← readField h 0 .hour }
  | [h, m] => do
    let hour ← readField h 0 .hour
    pure { tm with tm_hour := hour, tm_min := ← readField m 0 .minute }
  | h :: m :: s :: _ => do
    let hour ← readField h 0 .hour
    let min ← readField m 0 .minute
    pure { tm with tm_hour := hour, tm_min := min, tm_sec := ← readField s 0 .second }

namespace Timestamp

def microSecondsPerSecond : Int64 := 1000 * 1000

def parseTimeStr (str : Str) : Except ParseError Tm :=
  let time := Util.strip str
  let spaceIdx := time.findIdx? (· = ' ')
  let ymdLen := spaceIdx.getD str.length
  match Util.split (time.take ymdLen) ['-', '/'] with
  | [y, m, d] =>
    if y.length ≠ 4 then .error .fail
    else do
      let year ← stoi y
      let mon ← readField m 1 .month
      let mday ← readField d 0 .day
      let tm : Tm := { tm_year := year - 1900, tm_mon := mon, tm_mday := mday }
      match spaceIdx with
      | none => pure tm
      | some i =>
        match (time.drop (i + 1)).dropWhile isspace with
        | [] => .error .throws
        | hms => parseHms tm (Util.split hms [':'])
  | _ => .error .fail

/-- `Timestamp(const string&)`; `none`: it throws. -/
def ofString (lib : CLib) (timeStr : Str) : Option Int64 :=
  match parseTimeStr timeStr with
  | .ok tm => some (lib.mktime tm * microSecondsPerSecond)
  | .error .fail => some 0
  | .error .throws => none

end Timestamp

/-- The members of a `MYSQL_TIME` that are read. -/
structure MysqlTime where
  year : Nat
  month : Nat
  day : Nat
  hour : Nat
  minute : Nat
  second : Nat
  second_part : Nat
  deriving DecidableEq, Repr

def MysqlTime.tm (t : MysqlTime) : Tm where
  tm_year := toInt32 (t.year - 1900)
  tm_mon := toInt32 (t.month - 1)
  tm_mday := toInt32 t.day
  tm_hour := toInt32 t.hour
  tm_min := toInt32 t.minute
  tm_sec := toInt32 t.second

/-- `Timestamp(const MYSQL_TIME*)`. -/
def Timestamp.ofMysqlTime (lib : CLib) (t : MysqlTime) : Int64 :=
  lib.mktime t.tm * microSecondsPerSecond + Int64.ofNat t.second_part

end TinyOrm
