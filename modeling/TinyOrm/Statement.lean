import TinyOrm.SqlText
set_option autoImplicit false

/-!
Bound values and prepared statements (reflection.h, mysql4cpp/statement.cpp).
-/

namespace TinyOrm

/-- The types `bindVal` is overloaded for. A `float` and a `double` are their
bits, a `Timestamp` its microseconds. -/
inductive Value where
  | int (val : Int32)
  | float (val : UInt32)
  | double (val : UInt64)
  | long_long (val : Int64)
  | string (val : Str)
  | const_str (val : Str)
  | timestamp (val : Int64)
  deriving DecidableEq, Repr

def ORM_TYPE_INT : Str := "int".toList
def ORM_TYPE_LONG_LONG : Str := "long long".toList
def ORM_TYPE_FLOAT : Str := "float".toList
def ORM_TYPE_DOUBLE : Str := "double".toList
def ORM_TYPE_STRING : Str := "string".toList
def ORM_TYPE_TIMESTAMP : Str := "Timestamp".toList
def ORM_TYPE_CONST_STR : Str := "const char*".toList

/-- The name each overload of `bindVal` stores. -/
def Value.ormType : Value → Str
  | .int _ => ORM_TYPE_INT
  | .float _ => ORM_TYPE_FLOAT
  | .double _ => ORM_TYPE_DOUBLE
  | .long_long _ => ORM_TYPE_LONG_LONG
  | .string _ => ORM_TYPE_STRING
  | .const_str _ => ORM_TYPE_CONST_STR
  | .timestamp _ => ORM_TYPE_TIMESTAMP

/-- `typeName.substr(where + 1)` after the last ':'. -/
def getCppTypeName (typeName : Str) : Str := (typeName.reverse.takeWhile (· ≠ ':')).reverse

inductive FieldType where
  | MYSQL_TYPE_LONG
  | MYSQL_TYPE_LONGLONG
  | MYSQL_TYPE_FLOAT
  | MYSQL_TYPE_DOUBLE
  | MYSQL_TYPE_STRING
  | MYSQL_TYPE_TIMESTAMP
  deriving DecidableEq, Repr

/-- The column type that transports a value. -/
def Value.fieldType : Value → FieldType
  | .int _ => .MYSQL_TYPE_LONG
  | .float _ => .MYSQL_TYPE_FLOAT
  | .double _ => .MYSQL_TYPE_DOUBLE
  | .long_long _ => .MYSQL_TYPE_LONGLONG
  | .string _ => .MYSQL_TYPE_STRING
  | .const_str _ => .MYSQL_TYPE_STRING
  | .timestamp _ => .MYSQL_TYPE_TIMESTAMP

/-- A `MYSQL_BIND` of a parameter: `value` is what its buffer was filled from. -/
structure Param where
  type : FieldType
  value : Value
  deriving DecidableEq, Repr

/-- A statement the server has accepted; `none` is a parameter not yet set. -/
structure Statement where
  sql : Sql
  paramBind : List (Option Param)
  deriving DecidableEq, Repr

namespace Statement

/-- The server counts one parameter for each `?`. -/
def prepare (sql : Sql) : Statement := ⟨sql, List.replicate (placeholders sql) none⟩

def isValidParamIndex (stmt : Statement) (index : Nat) : Bool :=
  index > 0 && index ≤ stmt.paramBind.length

def setParam (stmt : Statement) (columnIndex : Nat) (type : FieldType) (value : Value) :
    Statement :=
  if stmt.isValidParamIndex columnIndex then
    { stmt with paramBind := stmt.paramBind.set (columnIndex - 1) (some ⟨type, value⟩) }
  else stmt

def setInt (stmt : Statement) (columnIndex : Nat) (value : Value) : Statement :=
  stmt.setParam columnIndex .MYSQL_TYPE_LONG value

def setFloat (stmt : Statement) (columnIndex : Nat) (value : Value) : Statement :=
  stmt.setParam columnIndex .MYSQL_TYPE_FLOAT value

def setString (stmt : Statement) (columnIndex : Nat) (value : Value) : Statement :=
  stmt.setParam columnIndex .MYSQL_TYPE_STRING value

def setTime (stmt : Statement) (columnIndex : Nat) (value : Value) (type : FieldType) :
    Statement :=
  stmt.setParam columnIndex type value

@[simp] theorem setParam_sql (stmt : Statement) (columnIndex : Nat) (type : FieldType)
    (value : Value) : (stmt.setParam columnIndex type value).sql = stmt.sql := by
  unfold setParam
  split <;> rfl

@[simp] theorem prepare_sql (sql : Sql) : (prepare sql).sql = sql := rfl

/-- Setting a parameter the statement does not have changes nothing, like
`List.set` outside of the list. -/
theorem setParam_paramBind (stmt : Statement) (index : Nat) (type : FieldType) (value : Value) :
    (stmt.setParam (index + 1) type value).paramBind =
      stmt.paramBind.set index (some ⟨type, value⟩) := by
  unfold setParam isValidParamIndex
  by_cases h : index + 1 ≤ stmt.paramBind.length
  · simp [h]
  · have hset : stmt.paramBind.set index (some ⟨type, value⟩) = stmt.paramBind :=
      List.set_eq_of_length_le (by omega)
    simp [h, hset]

end Statement

end TinyOrm
