import TinyOrm.ResultSet
set_option autoImplicit false

/-!
The members of a `Statement` that its results are read through: what the
constructor makes of the columns that the server reports, and what becomes of it
when the statement is moved (mysql4cpp/statement.cpp).
-/

namespace TinyOrm

/-! ## Columns and buffers -/

/-- binary_log_types.h. -/
inductive enum_field_types where
  | MYSQL_TYPE_DECIMAL
  | MYSQL_TYPE_TINY
  | MYSQL_TYPE_SHORT
  | MYSQL_TYPE_LONG
  | MYSQL_TYPE_FLOAT
  | MYSQL_TYPE_DOUBLE
  | MYSQL_TYPE_NULL
  | MYSQL_TYPE_TIMESTAMP
  | MYSQL_TYPE_LONGLONG
  | MYSQL_TYPE_INT24
  | MYSQL_TYPE_DATE
  | MYSQL_TYPE_TIME
  | MYSQL_TYPE_DATETIME
  | MYSQL_TYPE_YEAR
  | MYSQL_TYPE_NEWDATE
  | MYSQL_TYPE_VARCHAR
  | MYSQL_TYPE_BIT
  | MYSQL_TYPE_TIMESTAMP2
  | MYSQL_TYPE_DATETIME2
  | MYSQL_TYPE_TIME2
  | MYSQL_TYPE_JSON
  | MYSQL_TYPE_NEWDECIMAL
  | MYSQL_TYPE_ENUM
  | MYSQL_TYPE_SET
  | MYSQL_TYPE_TINY_BLOB
  | MYSQL_TYPE_MEDIUM_BLOB
  | MYSQL_TYPE_LONG_BLOB
  | MYSQL_TYPE_BLOB
  | MYSQL_TYPE_VAR_STRING
  | MYSQL_TYPE_STRING
  | MYSQL_TYPE_GEOMETRY
  deriving DecidableEq, Repr

/-- `FieldMeta` of mysql4cpp for a column of any type. -/
structure ReportedColumn where
  name : Str
  length : Nat
  type : enum_field_types
  deriving DecidableEq, Repr

/-- The fields of a `MYSQL_BIND` that `newBind` is told. -/
structure ResBind where
  buffer_type : enum_field_types
  buffer_length : Int
  deriving DecidableEq, Repr

/-- The statement as far as its results go. -/
structure ResultStatement where
  stmt_ptr : Bool
  error : Str := []
  fields : List ReportedColumn := []
  numField : Nat
  nameToIndex : NameToIndex := ∅
  resBind : List ResBind := []
  paramBind : List (Option Param) := []
  paramCount : Nat

/-- What the server answers to the text; a statement without a result has no
columns. -/
inductive PrepareReply where
  | refused (error : Str)
  | prepared (columns : List ReportedColumn) (param_count : Nat)

/-- The columns of the statement the server has prepared, none if it refuses. -/
def PrepareReply.columns : PrepareReply → List ReportedColumn
  | .refused _ => []
  | .prepared columns _ => columns

namespace ResultStatement

/-- The switch has no default. -/
def makeResultBind (resBind : List ResBind) (field : ReportedColumn) : List ResBind :=
  match field.type with
  | .MYSQL_TYPE_TINY => resBind ++ [⟨.MYSQL_TYPE_TINY, BUFSIZE_TINYINT⟩]
  | .MYSQL_TYPE_SHORT => resBind ++ [⟨.MYSQL_TYPE_SHORT, BUFSIZE_SMALLINT⟩]
  | .MYSQL_TYPE_INT24 => resBind ++ [⟨.MYSQL_TYPE_INT24, BUFSIZE_MEDIUMINT⟩]
  | .MYSQL_TYPE_LONG => resBind ++ [⟨.MYSQL_TYPE_LONG, BUFSIZE_INT⟩]
  | .MYSQL_TYPE_LONGLONG => resBind ++ [⟨.MYSQL_TYPE_LONGLONG, BUFSIZE_BIGINT⟩]
  | .MYSQL_TYPE_FLOAT => resBind ++ [⟨.MYSQL_TYPE_FLOAT, BUFSIZE_FLOAT⟩]
  | .MYSQL_TYPE_DOUBLE => resBind ++ [⟨.MYSQL_TYPE_DOUBLE, BUFSIZE_DOUBLE⟩]
  | .MYSQL_TYPE_VARCHAR | .MYSQL_TYPE_BLOB | .MYSQL_TYPE_TINY_BLOB | .MYSQL_TYPE_MEDIUM_BLOB
  | .MYSQL_TYPE_LONG_BLOB | .MYSQL_TYPE_STRING | .MYSQL_TYPE_VAR_STRING =>
    resBind ++ [⟨field.type, toInt32 field.length⟩]
  | .MYSQL_TYPE_TIMESTAMP | .MYSQL_TYPE_TIME | .MYSQL_TYPE_DATE | .MYSQL_TYPE_DATETIME
  | .MYSQL_TYPE_YEAR => resBind ++ [⟨field.type, BUFSIZE_TIME⟩]
  | _ => resBind

/-- The loop of the constructor, at its index `i`. -/
def addFields : Nat → List ReportedColumn → ResultStatement → ResultStatement
  | _, [], stmt => stmt
  | i, field :: columns, stmt =>
    addFields (i + 1) columns { stmt with
      fields := stmt.fields ++ [field]
      nameToIndex := stmt.nameToIndex.insert field.name i
      resBind := makeResultBind stmt.resBind field }

/-- `memory` is what lies at `numField` before it is written, which a statement that
is refused never does. -/
def construct (memory : Nat) : PrepareReply → ResultStatement
  | .refused error => { stmt_ptr := false, error := error, numField := memory, paramCount := 0 }
  | .prepared columns param_count =>
    let stmt : ResultStatement :=
      { stmt_ptr := true, numField := columns.length, paramCount := 0 }
    { stmt.addFields 0 columns with
      paramCount := param_count
      paramBind := List.replicate param_count none }

/-- The new object and what is left of the one moved from. -/
def moveConstruct (stmt : ResultStatement) : ResultStatement × ResultStatement :=
  ({ stmt with error := [] },
    { stmt with
      stmt_ptr := false
      fields := []
      nameToIndex := ∅
      resBind := []
      paramBind := [] })

def moveAssign (target stmt : ResultStatement) : ResultStatement × ResultStatement :=
  ({ stmt with error := target.error },
    { stmt with
      stmt_ptr := false
      fields := target.fields
      nameToIndex := target.nameToIndex
      resBind := target.resBind
      paramBind := target.paramBind })

/-- How a statement is handed on; an assignment to itself exchanges nothing. -/
inductive Move where
  | construct
  | assign (target : ResultStatement)
  | assignSelf

def move (stmt : ResultStatement) : Move → ResultStatement
  | .construct => stmt.moveConstruct.1
  | .assign target => (target.moveAssign stmt).1
  | .assignSelf => stmt

/-- `undefined`: a read behind the end of `resBind`. -/
inductive Res where
  | null
  | buffer (bind : ResBind)
  | undefined
  deriving DecidableEq, Repr

def getResAt (stmt : ResultStatement) (index : Int) : Res :=
  if index < 0 ∨ index ≥ stmt.numField then .null
  else
    match stmt.resBind[index.toNat]? with
    | some bind => .buffer bind
    | none => .undefined

def getRes (stmt : ResultStatement) (columnName : Str) : Res :=
  match stmt.nameToIndex.lookup columnName with
  | some index => stmt.getResAt index
  | none => .null

end ResultStatement

/-! ## Types with a buffer -/

/-- The type as the model of the results knows it, if the switch has a case for it. -/
def enum_field_types.listed : enum_field_types → Option ColumnType
  | .MYSQL_TYPE_TINY => some .MYSQL_TYPE_TINY
  | .MYSQL_TYPE_SHORT => some .MYSQL_TYPE_SHORT
  | .MYSQL_TYPE_INT24 => some .MYSQL_TYPE_INT24
  | .MYSQL_TYPE_LONG => some .MYSQL_TYPE_LONG
  | .MYSQL_TYPE_LONGLONG => some .MYSQL_TYPE_LONGLONG
  | .MYSQL_TYPE_FLOAT => some .MYSQL_TYPE_FLOAT
  | .MYSQL_TYPE_DOUBLE => some .MYSQL_TYPE_DOUBLE
  | .MYSQL_TYPE_VARCHAR => some .MYSQL_TYPE_VARCHAR
  | .MYSQL_TYPE_BLOB => some .MYSQL_TYPE_BLOB
  | .MYSQL_TYPE_TINY_BLOB => some .MYSQL_TYPE_TINY_BLOB
  | .MYSQL_TYPE_MEDIUM_BLOB => some .MYSQL_TYPE_MEDIUM_BLOB
  | .MYSQL_TYPE_LONG_BLOB => some .MYSQL_TYPE_LONG_BLOB
  | .MYSQL_TYPE_STRING => some .MYSQL_TYPE_STRING
  | .MYSQL_TYPE_VAR_STRING => some .MYSQL_TYPE_VAR_STRING
  | .MYSQL_TYPE_TIMESTAMP => some .MYSQL_TYPE_TIMESTAMP
  | .MYSQL_TYPE_TIME => some .MYSQL_TYPE_TIME
  | .MYSQL_TYPE_DATE => some .MYSQL_TYPE_DATE
  | .MYSQL_TYPE_DATETIME => some .MYSQL_TYPE_DATETIME
  | .MYSQL_TYPE_YEAR => some .MYSQL_TYPE_YEAR
  | _ => none

/-- The size is the one that the getters of a prepared result are modelled with. -/
theorem makeResultBind_eq (resBind : List ResBind) (field : ReportedColumn) :
    ResultStatement.makeResultBind resBind field =
      match field.type.listed with
      | some type => resBind ++ [⟨field.type, makeResultBind ⟨field.name, field.length, type⟩⟩]
      | none => resBind := by
  obtain ⟨name, length, type⟩ := field
  cases type <;> rfl

namespace ResultStatement

/-! ## The loop over the columns -/

theorem addFields_fields (i : Nat) (columns : List ReportedColumn) (stmt : ResultStatement) :
    (stmt.addFields i columns).fields = stmt.fields ++ columns ∧
      (stmt.addFields i columns).numField = stmt.numField := by
  induction columns generalizing i stmt with
  | nil => simp [addFields]
  | cons field columns ih =>
    obtain ⟨hfields, hnum⟩ := ih (i + 1) { stmt with
      fields := stmt.fields ++ [field]
      nameToIndex := stmt.nameToIndex.insert field.name i
      resBind := makeResultBind stmt.resBind field }
    exact ⟨by simp [addFields, hfields], hnum⟩

/-- A name is entered with the position of a column that has it. -/
def Names (stmt : ResultStatement) : Prop :=
  (∀ name i, stmt.nameToIndex.lookup name = some i →
      ∃ field, stmt.fields[i]? = some field ∧ field.name = name) ∧
    ∀ name, stmt.nameToIndex.lookup name = none → ∀ field ∈ stmt.fields, field.name ≠ name

theorem Names.step {stmt : ResultStatement} (h : stmt.Names) (field : ReportedColumn)
    (resBind : List ResBind) : Names { stmt with
      fields := stmt.fields ++ [field]
      nameToIndex := stmt.nameToIndex.insert field.name stmt.fields.length
      resBind := resBind } := by
  refine ⟨fun name i hi => ?_, fun name hnone => ?_⟩
  · by_cases hname : name = field.name
    · subst hname
      obtain rfl : stmt.fields.length = i := by simpa using hi
      exact ⟨field, by simp, rfl⟩
    · rw [AList.lookup_insert_ne hname] at hi
      obtain ⟨field', hget, hfield⟩ := h.1 name i hi
      have hlt : i < stmt.fields.length := (List.getElem?_eq_some_iff.mp hget).1
      exact ⟨field', by simpa [List.getElem?_append_left hlt] using hget, hfield⟩
  · by_cases hname : name = field.name
    · subst hname
      simp at hnone
    · rw [AList.lookup_insert_ne hname] at hnone
      intro field' hfield
      rcases List.mem_append.mp hfield with hold | hnew
      · exact h.2 name hnone field' hold
      · rw [List.mem_singleton.mp hnew]
        exact Ne.symm hname

theorem Names.addFields {columns : List ReportedColumn} {stmt : ResultStatement}
    (h : stmt.Names) : (stmt.addFields stmt.fields.length columns).Names := by
  induction columns generalizing stmt with
  | nil => exact h
  | cons field columns ih =>
    have hstep := ih (h.step field (makeResultBind stmt.resBind field))
    simpa [ResultStatement.addFields] using hstep

/-- Each column adds the buffer of its type, or none. -/
theorem addFields_resBind_length (i : Nat) (columns : List ReportedColumn)
    (stmt : ResultStatement) :
    (stmt.addFields i columns).resBind.length =
      stmt.resBind.length + columns.countP (·.type.listed.isSome) := by
  induction columns generalizing i stmt with
  | nil => simp [addFields]
  | cons field columns ih =>
    rw [addFields, ih, List.countP_cons, makeResultBind_eq]
    cases field.type.listed with
    | none => simp
    | some type =>
      simp only [List.length_append, List.length_singleton, Option.isSome_some, if_true]
      omega

/-- As long as every type is listed the buffers follow the columns. -/
theorem addFields_resBind {columns : List ReportedColumn}
    (hlisted : ∀ field ∈ columns, field.type.listed.isSome) (i : Nat) (stmt : ResultStatement) :
    ∃ binds, (stmt.addFields i columns).resBind = stmt.resBind ++ binds ∧
      List.Forall₂ (fun field bind => bind.buffer_type = field.type) columns binds := by
  induction columns generalizing i stmt with
  | nil => exact ⟨[], by simp [addFields], .nil⟩
  | cons field columns ih =>
    obtain ⟨type, htype⟩ := Option.isSome_iff_exists.mp (hlisted field (by simp))
    have hbind := makeResultBind_eq stmt.resBind field
    rw [htype] at hbind
    obtain ⟨binds, hbinds, hall⟩ := ih (fun f hf => hlisted f (by simp [hf])) (i + 1) { stmt with
      fields := stmt.fields ++ [field]
      nameToIndex := stmt.nameToIndex.insert field.name i
      resBind := makeResultBind stmt.resBind field }
    let bind : ResBind :=
      ⟨field.type, TinyOrm.makeResultBind ⟨field.name, field.length, type⟩⟩
    refine ⟨bind :: binds, ?_, .cons rfl hall⟩
    rw [addFields, hbinds, hbind]
    exact List.append_assoc _ _ _

/-! ## Buffers and columns -/

/-- The buffers line up with the reported columns, and the getters keep to them. -/
structure LinesUp (columns : List ReportedColumn) (stmt : ResultStatement) : Prop where
  fields : stmt.fields = columns
  numField : stmt.numField = columns.length
  resBind : List.Forall₂ (fun field bind => bind.buffer_type = field.type) columns stmt.resBind
  getResAt : ∀ index : Int,
    (0 ≤ index ∧ index < columns.length ∧
      ∃ bind, stmt.resBind[index.toNat]? = some bind ∧ stmt.getResAt index = .buffer bind) ∨
    (¬ (0 ≤ index ∧ index < columns.length) ∧ stmt.getResAt index = .null)
  getRes : ∀ name,
    (∃ (i : Nat) (bind : ResBind) (field : ReportedColumn), columns[i]? = some field ∧
      field.name = name ∧
      stmt.resBind[i]? = some bind ∧ stmt.getRes name = .buffer bind) ∨
    ((∀ field ∈ columns, field.name ≠ name) ∧ stmt.getRes name = .null)

theorem getResAt_cases {stmt : ResultStatement} (hlength : stmt.resBind.length = stmt.numField)
    (index : Int) :
    (0 ≤ index ∧ index < stmt.numField ∧
      ∃ bind, stmt.resBind[index.toNat]? = some bind ∧ stmt.getResAt index = .buffer bind) ∨
    (¬ (0 ≤ index ∧ index < stmt.numField) ∧ stmt.getResAt index = .null) := by
  by_cases hrange : 0 ≤ index ∧ index < stmt.numField
  · have hlt : index.toNat < stmt.resBind.length := by omega
    have hget := List.getElem?_eq_getElem hlt
    have hnot : ¬ (index < 0 ∨ index ≥ stmt.numField) := by omega
    refine .inl ⟨hrange.1, hrange.2, _, hget, ?_⟩
    rw [ResultStatement.getResAt, if_neg hnot, hget]
  · have hout : index < 0 ∨ index ≥ stmt.numField := by omega
    exact .inr ⟨hrange, by rw [ResultStatement.getResAt, if_pos hout]⟩

theorem Names.getRes {columns : List ReportedColumn} {stmt : ResultStatement} (h : stmt.Names)
    (hfields : stmt.fields = columns) (hnum : stmt.numField = columns.length)
    (hlength : stmt.resBind.length = columns.length) (name : Str) :
    (∃ (i : Nat) (bind : ResBind) (field : ReportedColumn), columns[i]? = some field ∧
      field.name = name ∧
      stmt.resBind[i]? = some bind ∧ stmt.getRes name = .buffer bind) ∨
    ((∀ field ∈ columns, field.name ≠ name) ∧ stmt.getRes name = .null) := by
  cases hlookup : stmt.nameToIndex.lookup name with
  | none =>
    rw [ResultStatement.getRes, hlookup, ← hfields]
    exact .inr ⟨h.2 name hlookup, rfl⟩
  | some i =>
    obtain ⟨field, hget, hname⟩ := h.1 name i hlookup
    have hlt : i < stmt.fields.length := (List.getElem?_eq_some_iff.mp hget).1
    rw [hfields] at hget hlt
    rcases getResAt_cases (hlength.trans hnum.symm) i with ⟨-, -, bind, hbind, hres⟩ | ⟨hout, -⟩
    · refine .inl ⟨i, bind, field, hget, hname, hbind, ?_⟩
      rw [ResultStatement.getRes, hlookup]
      exact hres
    · omega

theorem linesUp_construct {columns : List ReportedColumn}
    (hlisted : ∀ field ∈ columns, field.type.listed.isSome) (memory param_count : Nat) :
    (construct memory (.prepared columns param_count)).LinesUp columns := by
  let start : ResultStatement :=
    { stmt_ptr := true, numField := columns.length, paramCount := 0 }
  obtain ⟨hfields, hnum⟩ := addFields_fields 0 columns start
  obtain ⟨binds, hbinds, hall⟩ := addFields_resBind hlisted 0 start
  have hempty : start.Names := by
    refine ⟨fun name i h => ?_, fun name _ field h => ?_⟩
    · simp [start] at h
    · cases h
  have hnames : (start.addFields 0 columns).Names := hempty.addFields
  have hforall : List.Forall₂ (fun field bind => bind.buffer_type = field.type) columns
      (start.addFields 0 columns).resBind := by
    rw [hbinds]
    exact hall
  have hlength := hforall.length_eq
  refine ⟨hfields, hnum, hforall, fun index => ?_, fun name => ?_⟩
  · have hcases := getResAt_cases (hlength.symm.trans hnum.symm) index
    rw [hnum] at hcases
    exact hcases
  · exact hnames.getRes hfields hnum hlength.symm name

/-- A move takes all members along that results are read through. -/
theorem move_members (stmt : ResultStatement) (m : Move) :
    (stmt.move m).fields = stmt.fields ∧ (stmt.move m).numField = stmt.numField ∧
      (stmt.move m).nameToIndex = stmt.nameToIndex ∧ (stmt.move m).resBind = stmt.resBind := by
  cases m <;> exact ⟨rfl, rfl, rfl, rfl⟩

theorem linesUp_move {columns : List ReportedColumn} {stmt : ResultStatement} (m : Move) :
    (stmt.move m).LinesUp columns ↔ stmt.LinesUp columns := by
  obtain ⟨hfields, hnum, hnames, hbind⟩ := move_members stmt m
  have hat : (stmt.move m).getResAt = stmt.getResAt := by
    funext index
    rw [getResAt, hnum, hbind, getResAt]
  have hres : (stmt.move m).getRes = stmt.getRes := by
    funext name
    rw [getRes, hnames, hat, getRes]
  constructor
  · intro ⟨h1, h2, h3, h4, h5⟩
    rw [hfields] at h1
    rw [hnum] at h2
    rw [hbind] at h3
    rw [hbind, hat] at h4
    rw [hbind, hres] at h5
    exact ⟨h1, h2, h3, h4, h5⟩
  · intro ⟨h1, h2, h3, h4, h5⟩
    refine ⟨hfields.trans h1, hnum.trans h2, ?_, ?_, ?_⟩
    · rw [hbind]
      exact h3
    · rw [hbind, hat]
      exact h4
    · rw [hbind, hres]
      exact h5

theorem linesUp_moves {columns : List ReportedColumn} (moves : List Move)
    (stmt : ResultStatement) :
    (moves.foldl move stmt).LinesUp columns ↔ stmt.LinesUp columns := by
  induction moves generalizing stmt with
  | nil => rfl
  | cons m moves ih => exact (ih (stmt.move m)).trans (linesUp_move m)

theorem listed_of_linesUp {columns : List ReportedColumn} {memory param_count : Nat}
    (h : (construct memory (.prepared columns param_count)).LinesUp columns) :
    ∀ field ∈ columns, field.type.listed.isSome := by
  have hlength := addFields_resBind_length 0 columns
    { stmt_ptr := true, numField := columns.length, paramCount := 0 }
  have hcount : columns.countP (·.type.listed.isSome) = columns.length := by
    have hall := h.resBind.length_eq
    simp only [construct, hlength, List.length_nil, Nat.zero_add] at hall
    exact hall.symm
  exact List.countP_eq_length.mp hcount

/-- The object moved from keeps `numField` and has no buffer. -/
theorem moveConstruct_left (stmt : ResultStatement) {index : Int} (h : 0 ≤ index)
    (hlt : index < stmt.numField) : stmt.moveConstruct.2.getResAt index = .undefined := by
  have hin : ¬ (index < 0 ∨ index ≥ stmt.moveConstruct.2.numField) := by
    simp only [moveConstruct]
    omega
  rw [getResAt, if_neg hin]
  rfl

/-- A decimal before an int: the one buffer is that of the second column. -/
def priceAndQty : PrepareReply :=
  .prepared [⟨"price".toList, 12, .MYSQL_TYPE_NEWDECIMAL⟩, ⟨"qty".toList, 11, .MYSQL_TYPE_LONG⟩] 0

end ResultStatement

end TinyOrm
