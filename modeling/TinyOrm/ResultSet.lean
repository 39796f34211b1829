import TinyOrm.DataType
import TinyOrm.Statement
import TinyOrm.Timestamp
set_option autoImplicit false

/-!
The rows of a result: `PreparedResult` over the bind buffers of a statement and
`SqlResult` over the texts of `mysql_fetch_row` (mysql4cpp/statement.cpp,
mysql4cpp/preparedresult.cpp, mysql4cpp/sqlresult.cpp, mysql4cpp/result.cpp).

Of the client library it is assumed: a fetch copies the bytes of a cell to the
beginning of its buffer, as many as fit, and stores their number in `*length`; a
NULL cell leaves both alone.
-/

namespace TinyOrm

/-! ## Bytes of numbers -/

/-- The number whose bytes these are, the low one first. -/
def ofBytes : Str → Nat
  | [] => 0
  | c :: cs => uchar c + 256 * ofBytes cs

/-- The low `w` bytes of a number. -/
def toBytes : Nat → Nat → Str
  | 0, _ => []
  | w + 1, n => byte n :: toBytes w (n / 256)

@[simp] theorem length_toBytes (w n : Nat) : (toBytes w n).length = w := by
  induction w generalizing n with
  | zero => rfl
  | succ w ih => simp [toBytes, ih]

theorem ofBytes_toBytes (w n : Nat) : ofBytes (toBytes w n) = n % 256 ^ w := by
  induction w generalizing n with
  | zero => simp [toBytes, ofBytes, Nat.mod_one]
  | succ w ih =>
    have hsplit : n % 256 ^ (w + 1) = n % 256 + 256 * (n / 256 % 256 ^ w) := by
      rw [Nat.pow_succ, Nat.mul_comm, Nat.mod_mul]
    simp only [toBytes, ofBytes, uchar_byte, ih, hsplit]

theorem ofBytes_append (a b : Str) : ofBytes (a ++ b) = ofBytes a + 256 ^ a.length * ofBytes b := by
  induction a with
  | nil => simp [ofBytes]
  | cons c a ih =>
    simp only [List.cons_append, ofBytes, ih, List.length_cons, Nat.pow_succ, Nat.mul_add]
    rw [Nat.mul_comm (256 ^ a.length) 256, Nat.mul_assoc, Nat.add_assoc]

theorem ofBytes_lt (s : Str) : ofBytes s < 256 ^ s.length := by
  induction s with
  | nil => simp [ofBytes]
  | cons c s ih =>
    have hc : uchar c < 256 := Nat.mod_lt _ (by decide)
    simp only [ofBytes, List.length_cons, Nat.pow_succ]
    omega

/-! ## Columns -/

/-- The column types that `makeResultBind` has a case for. -/
inductive ColumnType where
  | MYSQL_TYPE_TINY
  | MYSQL_TYPE_SHORT
  | MYSQL_TYPE_INT24
  | MYSQL_TYPE_LONG
  | MYSQL_TYPE_LONGLONG
  | MYSQL_TYPE_FLOAT
  | MYSQL_TYPE_DOUBLE
  | MYSQL_TYPE_VARCHAR
  | MYSQL_TYPE_BLOB
  | MYSQL_TYPE_TINY_BLOB
  | MYSQL_TYPE_MEDIUM_BLOB
  | MYSQL_TYPE_LONG_BLOB
  | MYSQL_TYPE_STRING
  | MYSQL_TYPE_VAR_STRING
  | MYSQL_TYPE_TIMESTAMP
  | MYSQL_TYPE_TIME
  | MYSQL_TYPE_DATE
  | MYSQL_TYPE_DATETIME
  | MYSQL_TYPE_YEAR
  deriving DecidableEq, Repr

/-- `FieldMeta` of mysql4cpp. -/
structure ColumnMeta where
  name : Str
  length : Nat
  type : ColumnType
  deriving DecidableEq, Repr

def BUFSIZE_TINYINT : Int := 1
def BUFSIZE_SMALLINT : Int := 2
def BUFSIZE_MEDIUMINT : Int := 3
def BUFSIZE_INT : Int := 4
def BUFSIZE_BIGINT : Int := 8
def BUFSIZE_FLOAT : Int := 4
def BUFSIZE_DOUBLE : Int := 8

/-- `sizeof(MYSQL_TIME)`. -/
def BUFSIZE_TIME : Int := 40

/-- The second argument of `newBind`, an `int`. -/
def makeResultBind (field : ColumnMeta) : Int :=
  match field.type with
  | .MYSQL_TYPE_TINY => BUFSIZE_TINYINT
  | .MYSQL_TYPE_SHORT => BUFSIZE_SMALLINT
  | .MYSQL_TYPE_INT24 => BUFSIZE_MEDIUMINT
  | .MYSQL_TYPE_LONG => BUFSIZE_INT
  | .MYSQL_TYPE_LONGLONG => BUFSIZE_BIGINT
  | .MYSQL_TYPE_FLOAT => BUFSIZE_FLOAT
  | .MYSQL_TYPE_DOUBLE => BUFSIZE_DOUBLE
  | .MYSQL_TYPE_VARCHAR | .MYSQL_TYPE_BLOB | .MYSQL_TYPE_TINY_BLOB | .MYSQL_TYPE_MEDIUM_BLOB
  | .MYSQL_TYPE_LONG_BLOB | .MYSQL_TYPE_STRING | .MYSQL_TYPE_VAR_STRING => toInt32 field.length
  | .MYSQL_TYPE_TIMESTAMP | .MYSQL_TYPE_TIME | .MYSQL_TYPE_DATE | .MYSQL_TYPE_DATETIME
  | .MYSQL_TYPE_YEAR => BUFSIZE_TIME

/-- The constructors of both classes enter the columns one after another. -/
def nameToIndexFrom : Nat → NameToIndex → List ColumnMeta → NameToIndex
  | _, names, [] => names
  | i, names, field :: fields => nameToIndexFrom (i + 1) (names.insert field.name i) fields

def nameToIndex (fields : List ColumnMeta) : NameToIndex := nameToIndexFrom 0 ∅ fields

/-- How a getter is told the column. -/
inductive ColumnRef where
  | columnIndex (i : Int)
  | columnName (name : Str)
  deriving DecidableEq, Repr

inductive Getter where
  | getInt
  | getLong
  | getFloat
  | getDouble
  | getString
  | getTime
  deriving DecidableEq, Repr

def Getter.zero : Getter → Value
  | .getInt => .int 0
  | .getLong => .long_long 0
  | .getFloat => .float 0
  | .getDouble => .double 0
  | .getString => .string []
  | .getTime => .timestamp 0

/-- `undefined`: a read behind the end of a buffer or through a null pointer. -/
inductive Read where
  | value (v : Value)
  | throws
  | undefined
  deriving DecidableEq, Repr

/-! ## PreparedResult -/

/-- A `MYSQL_BIND`; without `buffer` the pointer is null. -/
structure Bind where
  buffer : Option Str
  length : Nat
  deriving DecidableEq, Repr

/-- What `newBind` may return: the memory has not been written. A negative size is
too much for `malloc`. -/
def NewBind (bufsize : Int) (bind : Bind) : Prop :=
  if bufsize < 0 then bind.buffer = none
  else ∃ memory : Str, bind.buffer = some memory ∧ (memory.length : Int) = bufsize

def fetchCell (bind : Bind) : Option Str → Bind
  | none => bind
  | some bytes =>
    { buffer := bind.buffer.map fun buf => bytes.take buf.length ++ buf.drop bytes.length
      length := bytes.length }

namespace PreparedResult

/-- `mysql_stmt_fetch`. -/
def next (resBind : List Bind) (row : List (Option Str)) : List Bind :=
  List.zipWith fetchCell resBind row

structure Res where
  data : Option Str := none
  len : Nat := 0
  deriving DecidableEq, Repr

/-- `Statement::getRes(int)`; the length passes through an `int` and an
`unsigned int`. -/
def getResAt (resBind : List Bind) (index : Int) : Res :=
  if index < 0 then {}
  else
    match resBind[index.toNat]? with
    | none => {}
    | some bind => { data := bind.buffer, len := bind.length % 2 ^ 32 }

def getRes (fields : List ColumnMeta) (resBind : List Bind) : ColumnRef → Res
  | .columnIndex i => getResAt resBind (i - 1)
  | .columnName name =>
    match (nameToIndex fields).lookup name with
    | some i => getResAt resBind i
    | none => {}

/-- `data ? *data : 0` for an object of `size` bytes. -/
def deref (size : Nat) (decode : Str → Value) (zero : Value) (res : Res) : Read :=
  match res.data with
  | none => .value zero
  | some data => if size ≤ data.length then .value (decode (data.take size)) else .undefined

def decodeInt (bytes : Str) : Value := .int (Int32.ofInt (ofBytes bytes))
def decodeLong (bytes : Str) : Value := .long_long (Int64.ofInt (ofBytes bytes))
def decodeFloat (bytes : Str) : Value := .float (UInt32.ofNat (ofBytes bytes))
def decodeDouble (bytes : Str) : Value := .double (UInt64.ofNat (ofBytes bytes))

/-- The member at an offset of a `MYSQL_TIME`. -/
def member (offset size : Nat) (bytes : Str) : Nat := ofBytes ((bytes.drop offset).take size)

def decodeMysqlTime (bytes : Str) : MysqlTime where
  year := member 0 4 bytes
  month := member 4 4 bytes
  day := member 8 4 bytes
  hour := member 12 4 bytes
  minute := member 16 4 bytes
  second := member 20 4 bytes
  second_part := member 24 8 bytes

def decodeTime (lib : CLib) (bytes : Str) : Value :=
  .timestamp (Timestamp.ofMysqlTime lib (decodeMysqlTime bytes))

def getInt : Res → Read := deref 4 decodeInt (.int 0)
def getLong : Res → Read := deref 8 decodeLong (.long_long 0)
def getFloat : Res → Read := deref 4 decodeFloat (.float 0)
def getDouble : Res → Read := deref 8 decodeDouble (.double 0)
def getString (res : Res) : Read := deref res.len .string (.string []) res

/-- Nothing behind `second_part` is read. -/
def getTime (lib : CLib) : Res → Read := deref 32 (decodeTime lib) (.timestamp 0)

def get (lib : CLib) (fields : List ColumnMeta) (resBind : List Bind) (getter : Getter)
    (ref : ColumnRef) : Read :=
  let res := getRes fields resBind ref
  match getter with
  | .getInt => getInt res
  | .getLong => getLong res
  | .getFloat => getFloat res
  | .getDouble => getDouble res
  | .getString => getString res
  | .getTime => getTime lib res

end PreparedResult

/-! ## SqlResult -/

namespace Result

def isInt (mysqlType : ColumnType) : Bool :=
  mysqlType = .MYSQL_TYPE_TINY || mysqlType = .MYSQL_TYPE_SHORT ||
    mysqlType = .MYSQL_TYPE_INT24 || mysqlType = .MYSQL_TYPE_LONG

def isLong (mysqlType : ColumnType) : Bool := mysqlType = .MYSQL_TYPE_LONGLONG

def isFloat (mysqlType : ColumnType) : Bool := mysqlType = .MYSQL_TYPE_FLOAT

def isDouble (mysqlType : ColumnType) : Bool := mysqlType = .MYSQL_TYPE_DOUBLE

def isString (mysqlType : ColumnType) : Bool :=
  mysqlType = .MYSQL_TYPE_STRING || mysqlType = .MYSQL_TYPE_VAR_STRING ||
    mysqlType = .MYSQL_TYPE_VARCHAR || mysqlType = .MYSQL_TYPE_BLOB

def isTime (mysqlType : ColumnType) : Bool :=
  mysqlType = .MYSQL_TYPE_TIME || mysqlType = .MYSQL_TYPE_TIMESTAMP ||
    mysqlType = .MYSQL_TYPE_DATE || mysqlType = .MYSQL_TYPE_YEAR ||
    mysqlType = .MYSQL_TYPE_DATETIME

end Result

namespace SqlResult

/-- The characters of a cell up to the first zero. -/
def cstring (text : Str) : Str := text.takeWhile (· ≠ '\x00')

/-- A getter: `zero` for a column that does not exist or is not recognised. -/
def typed (recognised : ColumnType → Bool) (zero : Value) (read : Option Str → Read)
    (fields : List ColumnMeta) (row : List (Option Str)) (columnIndex : Int) : Read :=
  if columnIndex - 1 < 0 then .value zero
  else
    match fields[(columnIndex - 1).toNat]? with
    | none => .value zero
    | some field =>
      if recognised field.type then read (row[(columnIndex - 1).toNat]?.getD none)
      else .value zero

/-- A function of the C library on the cell, which must not be null. -/
def nonNull (f : Str → Value) : Option Str → Read
  | none => .undefined
  | some text => .value (f (cstring text))

def getInt : List ColumnMeta → List (Option Str) → Int → Read :=
  typed Result.isInt (.int 0) (nonNull fun s => .int (atoi s))

def getLong : List ColumnMeta → List (Option Str) → Int → Read :=
  typed Result.isLong (.long_long 0) (nonNull fun s => .long_long (atol s))

def getFloat (lib : CLib) : List ColumnMeta → List (Option Str) → Int → Read :=
  typed Result.isFloat (.float 0) (nonNull fun s => .float (lib.toFloat (lib.atof s)))

def getDouble (lib : CLib) : List ColumnMeta → List (Option Str) → Int → Read :=
  typed Result.isDouble (.double 0) (nonNull fun s => .double (lib.atof s))

def getString : List ColumnMeta → List (Option Str) → Int → Read :=
  typed Result.isString (.string []) fun
    | none => .value (.string [])
    | some text => .value (.string (cstring text))

def getTime (lib : CLib) : List ColumnMeta → List (Option Str) → Int → Read :=
  typed Result.isTime (.timestamp 0) fun
    | none => .undefined
    | some text =>
      match Timestamp.ofString lib (cstring text) with
      | some t => .value (.timestamp t)
      | none => .throws

/-- The overloads by name look the index up first. -/
def columnIndex (fields : List ColumnMeta) : ColumnRef → Int
  | .columnIndex i => i
  | .columnName name =>
    match (nameToIndex fields).lookup name with
    | some i => i + 1
    | none => -1

def get (lib : CLib) (fields : List ColumnMeta) (row : List (Option Str)) (getter : Getter)
    (ref : ColumnRef) : Read :=
  let index := columnIndex fields ref
  match getter with
  | .getInt => getInt fields row index
  | .getLong => getLong fields row index
  | .getFloat => getFloat lib fields row index
  | .getDouble => getDouble lib fields row index
  | .getString => getString fields row index
  | .getTime => getTime lib fields row index

end SqlResult

end TinyOrm
