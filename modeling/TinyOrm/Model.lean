import TinyOrm.DataType
import TinyOrm.Statement
set_option autoImplicit false

/-!
`Model<T>`: the builder calls and the operations that end a chain of them
(model.h).
-/

namespace TinyOrm

/-! ## Constraints -/

/-- The connective of a constraint; `unset` is the empty string. -/
inductive Conj where
  | AND
  | OR
  | LIMIT
  | unset
  deriving DecidableEq, Repr

def Conj.text : Conj → Str
  | .AND => "AND".toList
  | .OR => "OR".toList
  | .LIMIT => "LIMIT".toList
  | .unset => []

structure Constraint where
  condition : Sql := []
  conj : Conj := .unset
  bindValues : List (Str × Value) := []
  deriving DecidableEq, Repr

def bindVal (c : Constraint) (val : Value) : Constraint :=
  { c with bindValues := c.bindValues ++ [(val.ormType, val)] }

def bindVals (c : Constraint) (args : List Value) : Constraint := args.foldl bindVal c

theorem bindVals_eq (c : Constraint) (args : List Value) :
    bindVals c args =
      { c with bindValues := c.bindValues ++ args.map fun val => (val.ormType, val) } := by
  induction args generalizing c with
  | nil => simp [bindVals]
  | cons val args ih =>
    have hstep : bindVals c (val :: args) = bindVals (bindVal c val) args := rfl
    rw [hstep, ih]
    simp [bindVal]

/-- `updateColumn<N>` on what is left of a tuple of `size` members: names up to
its middle, values from there on. `none`: no overload takes the member. -/
def updateColumn (size : Nat) : Nat → List (Str ⊕ Value) → Sql × Constraint →
    Option (Sql × Constraint)
  | _, [], acc => some acc
  | N, arg :: rest, (ss, c) =>
    if N = 0 then
      match arg with
      | .inl col => updateColumn size 1 rest (ss ++ word col ++ lit " = ?", c)
      | .inr _ => none
    else if 2 * N < size then
      match arg with
      | .inl col => updateColumn size (N + 1) rest (ss ++ lit ", " ++ word col ++ lit " = ?", c)
      | .inr _ => none
    else
      match arg with
      | .inl _ => none
      | .inr val => updateColumn size (N + 1) rest (ss, bindVal c val)

/-- The names from the second one on. -/
def setMore (cols : List Str) : Sql := cols.flatMap fun col => lit ", " ++ word col ++ lit " = ?"

def setText : List Str → Sql
  | [] => []
  | col :: cols => word col ++ lit " = ?" ++ setMore cols

theorem updateColumn_names {size N n : Nat} (hN : 0 < N) (cols : List Str)
    (hn : N + cols.length = n) (hsize : 2 * n = size) (rest : List (Str ⊕ Value)) (ss : Sql)
    (c : Constraint) :
    updateColumn size N (cols.map .inl ++ rest) (ss, c) =
      updateColumn size n rest (ss ++ setMore cols, c) := by
  induction cols generalizing N ss with
  | nil =>
    have hNn : N = n := by simpa using hn
    simp [setMore, hNn]
  | cons col cols ih =>
    simp only [List.length_cons] at hn
    have hne : N ≠ 0 := by omega
    have hlt : 2 * N < size := by omega
    simp only [List.map_cons, List.cons_append, updateColumn, hne, if_false, hlt, if_true]
    rw [ih (by omega) (by omega)]
    simp [setMore]

theorem updateColumn_vals {size N : Nat} (hN : 0 < N) (hsize : size ≤ 2 * N) (vals : List Value)
    (ss : Sql) (c : Constraint) :
    updateColumn size N (vals.map .inr) (ss, c) = some (ss, bindVals c vals) := by
  induction vals generalizing N c with
  | nil => simp [updateColumn, bindVals]
  | cons val vals ih =>
    have hne : N ≠ 0 := by omega
    have hlt : ¬ 2 * N < size := by omega
    simp only [List.map_cons, updateColumn, hne, if_false, hlt]
    rw [ih (by omega) (by omega)]
    rfl

/-- The arguments of `Update`: names, then as many values. -/
structure Assignment where
  cols : List Str
  vals : List Value
  same : cols.length = vals.length
  some_col : cols ≠ []

def Assignment.tuple (args : Assignment) : List (Str ⊕ Value) :=
  args.cols.map .inl ++ args.vals.map .inr

/-- The halves of the tuple line up. -/
theorem updateColumn_tuple (args : Assignment) :
    updateColumn args.tuple.length 0 args.tuple ([], {}) =
      some (setText args.cols, bindVals {} args.vals) := by
  obtain ⟨cols, vals, same, some_col⟩ := args
  cases cols with
  | nil => exact absurd rfl some_col
  | cons col cols =>
    simp only [List.length_cons] at same
    have hsize : (Assignment.tuple ⟨col :: cols, vals, same, some_col⟩).length =
        2 * (cols.length + 1) := by
      simp [Assignment.tuple]
      omega
    rw [hsize]
    simp only [Assignment.tuple, List.map_cons, List.cons_append, updateColumn, if_true]
    rw [updateColumn_names (n := cols.length + 1) Nat.one_pos cols (by omega) rfl]
    rw [updateColumn_vals (by omega) (by omega)]
    rfl

/-! ## Rows and objects -/

/-- The getters of a result row, by column name. -/
structure Row where
  getInt : Str → Int32
  getString : Str → Str
  getTime : Str → Int64

/-- What the server answers to a statement; without `rows` the result set is
not valid. -/
structure Reply where
  fieldNames : List Str := []
  rows : Option (List Row) := none
  rowAffect : Nat := 0

/-- The members of an object, in the order of the model's metadata. -/
abbrev Obj := List Value

inductive Status where
  | INIT
  | QUERY
  | UPDATE
  deriving DecidableEq, Repr

/-- `blank` is a default-constructed object of the class, `conn` the connection
held. -/
structure Model where
  className : Str
  tableName : Option Str := none
  metadata : List FieldMeta := []
  indices : Indices := ∅
  columnToIndex : NameToIndex := ∅
  blank : Obj := []
  selectedColumns : List Str := []
  constraints : List Constraint := []
  conn : Option Nat := none
  rawSql : Str := []
  status : Status := .INIT

/-- The constructor's loop over `metadata`. -/
def fillColumnToIndex : List FieldMeta → Nat → NameToIndex → NameToIndex
  | [], _, columnToIndex => columnToIndex
  | field :: fields, i, columnToIndex =>
    fillColumnToIndex fields (i + 1) (columnToIndex.insert field.getColumnName i)

/-- An operation's new state, the statement it executed and its result. -/
structure Done (ρ : Type) where
  model : Model
  sent : Option Statement
  result : ρ

namespace Model

def getDefaultTableName (m : Model) : Str := cppToDb m.className

def getTableName (m : Model) : Str := m.tableName.getD m.getDefaultTableName

/-! ## Builder calls -/

def Select (m : Model) (args : List Str) : Model :=
  { m with selectedColumns := m.selectedColumns ++ args }

def Where (m : Model) (cond : Sql) (args : List Value) : Model :=
  { m with constraints := m.constraints ++ [bindVals ⟨cond, .AND, []⟩ args] }

def Or (m : Model) (cond : Sql) (args : List Value) : Model :=
  { m with constraints := m.constraints ++ [bindVals ⟨cond, .OR, []⟩ args] }

/-- The text as `Raw` keeps it. -/
def rawText (_sql : Str) : Str := Util.strip (Util.toLowerCase _sql)

/-- `sql.compare(0, 6, "select") == 0` on the kept text. -/
def IsSelect (_sql : Str) : Prop := (rawText _sql).take 6 = "select".toList

instance (_sql : Str) : Decidable (IsSelect _sql) :=
  inferInstanceAs (Decidable ((rawText _sql).take 6 = "select".toList))

def Raw (m : Model) (_sql : Str) (args : List Value) : Model :=
  { m with
    status := if IsSelect _sql then .QUERY else .UPDATE
    rawSql := rawText _sql
    constraints := [bindVals {} args] }

def pageText (pageNum pageSize : Int32) : Sql :=
  lit " LIMIT " ++ ofStr (showInt pageSize.toInt) ++ lit " OFFSET " ++
    ofStr (showInt ((pageNum - 1) * pageSize).toInt)

def Page (m : Model) (pageNum pageSize : Int32) : Model :=
  if pageSize ≤ 0 ∨ pageNum ≤ 0 then m
  else { m with constraints := m.constraints ++ [⟨pageText pageNum pageSize, .LIMIT, []⟩] }

/-! ## Statement texts -/

def selectList : List Str → Sql
  | [] => lit "*"
  | [col] => word col
  | col :: next :: cols => word col ++ lit ", " ++ selectList (next :: cols)

/-- The loop of `prepareQuery` from index `i` on. -/
def queryConditions : Nat → List Constraint → Sql
  | _, [] => []
  | i, c :: cs =>
    let isLimit := c.conj = .LIMIT
    (if i > 0 ∧ ¬ isLimit then lit " " ++ ofStr c.conj.text ++ lit " " else []) ++
    (if ¬ isLimit then lit "(" else []) ++ c.condition ++ (if ¬ isLimit then lit ")" else []) ++
    queryConditions (i + 1) cs

def queryWhere (constraints : List Constraint) : Sql :=
  if constraints = [] then [] else lit " WHERE " ++ queryConditions 0 constraints

/-- The text `prepareQuery` builds. -/
def queryText (m : Model) (limit : Int) : Sql :=
  lit "SELECT " ++ selectList m.selectedColumns ++ lit " FROM " ++ word m.getTableName ++
    queryWhere m.constraints ++
    (if limit > 0 then lit " LIMIT " ++ ofStr (showInt limit) else [])

/-- The loop of `Update` and `Delete` from index `i` on. -/
def joinConditions : Nat → List Constraint → Sql
  | _, [] => []
  | i, c :: cs =>
    (if i > 1 then lit " " ++ ofStr c.conj.text ++ lit " " else []) ++ c.condition ++
    joinConditions (i + 1) cs

/-- `Update` has put the constraint of the SET values in front. -/
def updateWhere (constraints : List Constraint) : Sql :=
  if constraints.length > 1 then lit " WHERE " ++ joinConditions 1 (constraints.drop 1) else []

def deleteWhere (constraints : List Constraint) : Sql :=
  if constraints.length > 0 then lit " WHERE " ++ joinConditions 0 constraints else []

def insertColumns : List FieldMeta → List Str
  | [] => []
  | field :: fields =>
    if field.ignore then insertColumns fields else field.getColumnName :: insertColumns fields

def joinSql (sep : Sql) : List Sql → Sql
  | [] => []
  | [a] => a
  | a :: b :: rest => a ++ sep ++ joinSql sep (b :: rest)

def insertText (m : Model) : Sql :=
  let cols := insertColumns m.metadata
  lit "INSERT INTO " ++ word m.getTableName ++ lit "(" ++ joinSql (lit ", ") (cols.map word) ++
    lit ") VALUES(" ++ joinSql (lit ", ") (cols.map fun _ => lit "?") ++ lit ")"

/-- The rows of the batch `Create`. -/
def insertAllText (m : Model) (rows : Nat) : Sql :=
  let cols := insertColumns m.metadata
  let row := lit "(" ++ joinSql (lit ", ") (cols.map fun _ => lit "?") ++ lit ")"
  lit "INSERT INTO " ++ word m.getTableName ++ lit "(" ++ joinSql (lit ", ") (cols.map word) ++
    lit ") VALUES" ++ joinSql (lit ", ") (List.replicate rows row)

/-! ## Binding -/

/-- One pass of the inner loop of `bindParams`, with the running `index`. -/
def bindParam (acc : Statement × Nat) (bind : Str × Value) : Statement × Nat :=
  let (stmt, index) := acc
  if bind.1 = ORM_TYPE_INT then (stmt.setInt index bind.2, index + 1)
  else if bind.1 = ORM_TYPE_FLOAT then (stmt.setFloat index bind.2, index + 1)
  else if getCppTypeName bind.1 = ORM_TYPE_STRING then (stmt.setString index bind.2, index + 1)
  else if bind.1 = ORM_TYPE_CONST_STR then (stmt.setString index bind.2, index + 1)
  else if getCppTypeName bind.1 = ORM_TYPE_TIMESTAMP then
    (stmt.setTime index bind.2 .MYSQL_TYPE_TIMESTAMP, index + 1)
  else (stmt, index)

def bindParams (constraints : List Constraint) (stmt : Statement) : Statement :=
  (constraints.foldl (fun acc c => c.bindValues.foldl bindParam acc) (stmt, 1)).1

/-- The loop of `Create` over the members that are not ignored. -/
def bindMembers : List FieldMeta → Obj → Statement × Nat → Statement × Nat
  | field :: fields, val :: vals, (stmt, cnt) =>
    if field.ignore then bindMembers fields vals (stmt, cnt)
    else if field.cppType = ORM_TYPE_INT then
      bindMembers fields vals (stmt.setInt cnt val, cnt + 1)
    else if getCppTypeName field.cppType = ORM_TYPE_STRING then
      bindMembers fields vals (stmt.setString cnt val, cnt + 1)
    else if getCppTypeName field.cppType = ORM_TYPE_TIMESTAMP then
      bindMembers fields vals (stmt.setTime cnt val .MYSQL_TYPE_TIMESTAMP, cnt + 1)
    else bindMembers fields vals (stmt, cnt + 1)
  | _, _, acc => acc

/-- There is no statement without a connection. -/
def prepareStatement (m : Model) (sql : Sql) : Option Statement :=
  m.conn.map fun _ => Statement.prepare sql

def prepareQuery (m : Model) (limit : Int) : Option Statement :=
  (m.prepareStatement (m.queryText limit)).map (bindParams m.constraints)

/-! ## Operations -/

/-- `reset`, without the deletes. -/
def reset (m : Model) : Model := { m with constraints := [], selectedColumns := [] }

/-- `fillObject`, one column. -/
def fillColumn (m : Model) (rs : Row) (t : Obj) (col : Str) : Obj :=
  match m.columnToIndex.lookup col with
  | none => t
  | some index =>
    match m.metadata[index]? with
    | none => t
    | some field =>
      if field.cppType = ORM_TYPE_INT then t.set index (.int (rs.getInt col))
      else if getCppTypeName field.cppType = ORM_TYPE_STRING then
        t.set index (.string (rs.getString col))
      else if getCppTypeName field.cppType = ORM_TYPE_TIMESTAMP then
        t.set index (.timestamp (rs.getTime col))
      else t

def fillObject (m : Model) (t : Obj) (rs : Row) (cols : List Str) : Obj :=
  cols.foldl (m.fillColumn rs) t

def Create (m : Model) (t : Obj) : Done Unit where
  model := m.reset
  sent := (m.prepareStatement m.insertText).map fun stmt => (bindMembers m.metadata t (stmt, 1)).1
  result := ()

def CreateAll (m : Model) (v : List Obj) : Done Unit where
  model := m.reset
  sent := (m.prepareStatement (m.insertAllText v.length)).map fun stmt =>
    (v.foldl (fun acc t => bindMembers m.metadata t acc) (stmt, 1)).1
  result := ()

/-- `none` would be a call that does not compile. -/
def Update (m : Model) (args : Assignment) (reply : Reply) : Option (Done Nat) :=
  match updateColumn args.tuple.length 0 args.tuple ([], {}) with
  | none => none
  | some (ss, binds) =>
    let constraints := binds :: m.constraints
    let sql := lit "UPDATE " ++ word m.getTableName ++ lit " SET " ++ ss ++ updateWhere constraints
    some {
      model := { m with constraints := constraints }.reset
      sent := (m.prepareStatement sql).map (bindParams constraints)
      result := reply.rowAffect }

theorem Update_eq (m : Model) (args : Assignment) (reply : Reply) :
    m.Update args reply = some {
      model := m.reset
      sent := (m.prepareStatement (lit "UPDATE " ++ word m.getTableName ++ lit " SET " ++
        setText args.cols ++ updateWhere (bindVals {} args.vals :: m.constraints))).map
          (bindParams (bindVals {} args.vals :: m.constraints))
      result := reply.rowAffect } := by
  rw [Update, updateColumn_tuple]
  rfl

def deleteText (m : Model) : Sql :=
  lit "DELETE FROM " ++ word m.getTableName ++ deleteWhere m.constraints

def Delete (m : Model) (reply : Reply) : Done Nat where
  model := m.reset
  sent := (m.prepareStatement m.deleteText).map (bindParams m.constraints)
  result := reply.rowAffect

def First (m : Model) (t : Obj) (reply : Reply) : Done (Nat × Obj) :=
  let stmt := m.prepareQuery 1
  match reply.rows with
  | none => ⟨m, stmt, (0, t)⟩
  | some [] => ⟨m, stmt, (0, t)⟩
  | some (rs :: _) => ⟨m.reset, stmt, (1, m.fillObject t rs reply.fieldNames)⟩

def All (m : Model) (reply : Reply) : Done (List Obj) :=
  let stmt := m.prepareQuery (-1)
  match reply.rows with
  | none => ⟨m, stmt, []⟩
  | some rows => ⟨m.reset, stmt, rows.map fun rs => m.fillObject m.blank rs reply.fieldNames⟩

/-- The raw text, prepared and bound. -/
def prepareRaw (m : Model) : Option Statement :=
  (m.prepareStatement (ofStr m.rawSql)).map (bindParams m.constraints)

def Exec (m : Model) (reply : Reply) : Done Nat :=
  match m.status with
  | .INIT => ⟨m, none, 0⟩
  | .QUERY => ⟨m, none, 0⟩
  | .UPDATE => ⟨{ m with conn := none }, m.prepareRaw, reply.rowAffect⟩

def Fetch (m : Model) (reply : Reply) : Done (List Obj) :=
  match m.status with
  | .INIT => ⟨m, none, []⟩
  | .UPDATE => ⟨m, none, []⟩
  | .QUERY =>
    match reply.rows with
    | none => ⟨m, m.prepareRaw, []⟩
    | some rows =>
      ⟨m.reset, m.prepareRaw, rows.map fun rs => m.fillObject m.blank rs reply.fieldNames⟩

end Model

end TinyOrm
