import TinyOrm.Binding
import TinyOrm.Ddl
set_option autoImplicit false

/-!
The rows that an INSERT statement denotes, and what the two overloads of `Create`
insert.
-/

namespace TinyOrm

/-! ## Reading an INSERT -/

structure Insert where
  table : Str
  columns : List Str
  groups : List Nat
  deriving DecidableEq, Repr

/-- A row with the parameters that stand for its values. -/
structure InsertedRow where
  table : Str
  values : List (Str × Option Param)
  deriving DecidableEq, Repr

/-- A '?' would be read as a parameter. -/
def IsName (s : Str) : Prop := s ≠ [] ∧ s.contains '?' = false

instance (s : Str) : Decidable (IsName s) := inferInstanceAs (Decidable (_ ∧ _))

/-- A list in parentheses, which may be empty. -/
def readList : List DdlTok → Option (List Str × List DdlTok)
  | .rpar :: toks => some ([], toks)
  | toks => readNames toks

/-- The number of the parameters of a group. -/
def readGroup : List DdlTok → Option (Nat × List DdlTok)
  | .lpar :: toks => do
    let (marks, toks) ← readList toks
    if marks.all (· = "?".toList) then some (marks.length, toks) else none
  | _ => none

/-- At most `fuel` groups up to the end. -/
def readGroups : Nat → List DdlTok → Option (List Nat)
  | 0, _ => none
  | fuel + 1, toks => do
    let (n, toks) ← readGroup toks
    match toks with
    | [] => some [n]
    | .comma :: toks => do
      let ns ← readGroups fuel toks
      some (n :: ns)
    | _ => none

/-- Every group has as many values as there are columns. -/
def readInsert (sql : Sql) : Option Insert :=
  match lexDdl .none sql with
  | .name insert :: .name into :: .name table :: .lpar :: toks => do
    let (columns, toks) ← readList toks
    match toks with
    | .name values :: toks => do
      let groups ← readGroups sql.length toks
      if insert = "INSERT".toList ∧ into = "INTO".toList ∧ values = "VALUES".toList ∧
          (∀ name ∈ table :: columns, IsName name) ∧ groups.all (· = columns.length) then
        some ⟨table, columns, groups⟩
      else none
    | _ => none
  | _ => none

/-- The parameters go to the groups in their order. -/
def groupRows (table : Str) (columns : List Str) : List Nat → List (Option Param) →
    List InsertedRow
  | [], _ => []
  | n :: groups, params =>
    ⟨table, columns.zip (params.take n)⟩ :: groupRows table columns groups (params.drop n)

def insertedRows (stmt : Statement) : Option (List InsertedRow) :=
  (readInsert stmt.sql).map fun insert =>
    groupRows insert.table insert.columns insert.groups stmt.paramBind

/-- What a number of operations insert, one after another; none where one of their
statements cannot be read. -/
def insertedBy : List (Option Statement) → Option (List InsertedRow)
  | [] => some []
  | none :: sents => insertedBy sents
  | some stmt :: sents => do
    let rows ← insertedRows stmt
    let more ← insertedBy sents
    some (rows ++ more)

/-! ## The texts of both overloads -/

theorem joinSql_word (cols : List Str) :
    Model.joinSql (lit ", ") (cols.map word) = Model.indexColumns cols := by
  induction cols with
  | nil => rfl
  | cons col cols ih =>
    cases cols with
    | nil => simp [Model.joinSql, Model.indexColumns, Model.indexColumnsMore]
    | cons next cols =>
      rw [indexColumns_cons, ← ih]
      simp [Model.joinSql]

/-- One row of placeholders. -/
def groupText (n : Nat) : Sql :=
  lit "(" ++ (Model.joinSql (lit ", ") (List.replicate n (lit "?")) ++ lit ")")

/-- The groups behind VALUES. -/
def groupsText (n rows : Nat) : Sql :=
  Model.joinSql (lit ", ") (List.replicate rows (groupText n))

theorem groupsText_one (n : Nat) : groupsText n 1 = groupText n := rfl

theorem groupsText_succ (n rows : Nat) :
    groupsText n (rows + 2) = groupText n ++ (lit ", " ++ groupsText n (rows + 1)) := by
  rw [groupsText, List.replicate_succ, List.replicate_succ, Model.joinSql, List.append_assoc]
  rfl

theorem insertAllText_eq (m : Model) (rows : Nat) :
    m.insertAllText rows = lit "INSERT INTO " ++ (word m.getTableName ++ (lit "(" ++
      (Model.indexColumns (Model.insertColumns m.metadata) ++ (lit ")" ++ (lit " VALUES" ++
        groupsText (Model.insertColumns m.metadata).length rows))))) := by
  have hvalues : lit ") VALUES" = lit ")" ++ lit " VALUES" := rfl
  rw [Model.insertAllText, joinSql_word, hvalues, List.map_const']
  simp only [groupsText, groupText, List.append_assoc]

theorem insertText_eq (m : Model) : m.insertText = m.insertAllText 1 := by
  have hvalues : lit ") VALUES(" = lit ") VALUES" ++ lit "(" := rfl
  rw [Model.insertText, Model.insertAllText, hvalues]
  simp [Model.joinSql]

theorem readList_of_readNames {toks : List DdlTok} {r : List Str × List DdlTok}
    (h : readNames toks = some r) : readList toks = some r := by
  unfold readList
  split
  · simp [readNames] at h
  · exact h

theorem readNames_of_readList {toks : List DdlTok} {r : List Str × List DdlTok}
    (h : readList toks = some r) (hne : r.1 ≠ []) : readNames toks = some r := by
  unfold readList at h
  split at h
  · rw [← Option.some.inj h] at hne
    exact absurd rfl hne
  · exact h

theorem readNames_marks (n : Nat) (sql : Sql) :
    readNames (lexDdl .none (Model.joinSql (lit ", ") (List.replicate (n + 1) (lit "?")) ++
      (lit ")" ++ sql))) = some (List.replicate (n + 1) "?".toList, lexDdl .none sql) := by
  have hmark (rest : Sql) : lexDdl .none (lit "?" ++ rest) = lexDdl (.printed "?".toList) rest :=
    rfl
  have hflush : Pending.flush (.printed "?".toList) = [.name "?".toList] := rfl
  induction n with
  | zero =>
    rw [List.replicate_one, Model.joinSql, hmark, lexDdl_rpar, hflush]
    rfl
  | succ n ih =>
    rw [List.replicate_succ] at ih ⊢
    rw [List.replicate_succ, Model.joinSql, List.append_assoc, List.append_assoc, hmark,
      lexDdl_comma, hflush]
    simp only [List.cons_append, List.nil_append, readNames, ih]
    rfl

theorem readGroup_groupText (n : Nat) (sql : Sql) :
    readGroup (lexDdl .none (groupText n ++ sql)) = some (n, lexDdl .none sql) := by
  have hlist : readList (lexDdl .none (Model.joinSql (lit ", ") (List.replicate n (lit "?")) ++
      (lit ")" ++ sql))) = some (List.replicate n "?".toList, lexDdl .none sql) := by
    cases n with
    | zero => rfl
    | succ n => exact readList_of_readNames (readNames_marks n sql)
  rw [groupText, List.append_assoc, List.append_assoc, lexDdl_lpar]
  simp only [Pending.flush, List.nil_append, readGroup, hlist]
  simp

theorem readGroups_groupsText (n rows fuel : Nat) (hfuel : rows < fuel) :
    readGroups fuel (lexDdl .none (groupsText n (rows + 1))) =
      some (List.replicate (rows + 1) n) := by
  induction rows generalizing fuel with
  | zero =>
    obtain ⟨fuel, rfl⟩ : ∃ k, fuel = k + 1 := ⟨fuel - 1, by omega⟩
    have hgroup := readGroup_groupText n []
    rw [List.append_nil] at hgroup
    rw [groupsText_one]
    simp only [readGroups, hgroup]
    rfl
  | succ rows ih =>
    obtain ⟨fuel, rfl⟩ : ∃ k, fuel = k + 1 := ⟨fuel - 1, by omega⟩
    have hmore := ih fuel (by omega)
    rw [groupsText_succ]
    simp only [readGroups, readGroup_groupText, Option.bind_eq_bind, Option.bind_some,
      lexDdl_comma, Pending.flush, List.nil_append, hmore]
    rfl

theorem lexDdl_values (n rows : Nat) :
    lexDdl .none (lit " VALUES" ++ groupsText n (rows + 1)) =
      .name "VALUES".toList :: lexDdl .none (groupsText n (rows + 1)) := by
  have hgroup (sql : Sql) : lexDdl .none (lit " VALUES" ++ (groupText n ++ sql)) =
      .name "VALUES".toList :: lexDdl .none (groupText n ++ sql) := by
    rw [groupText, List.append_assoc]
    rfl
  cases rows with
  | zero => simpa [groupsText_one] using hgroup []
  | succ rows =>
    rw [groupsText_succ]
    exact hgroup _

theorem length_groupsText (n rows : Nat) : rows ≤ (groupsText n rows).length := by
  have hpos : 0 < (groupText n).length := by
    simp only [groupText, lit, ofStr, List.length_append, List.length_map]
    exact Nat.lt_add_right _ (by decide)
  cases rows with
  | zero => omega
  | succ rows =>
    induction rows with
    | zero => exact hpos
    | succ rows ih =>
      rw [groupsText_succ]
      simp only [List.length_append]
      omega

theorem readList_columns {cols : List Str} (h : ∀ col ∈ cols, col ≠ []) (sql : Sql) :
    readList (lexDdl .none (Model.indexColumns cols ++ (lit ")" ++ sql))) =
      some (cols, lexDdl .none sql) := by
  cases cols with
  | nil => rfl
  | cons col cols =>
    refine readList_of_readNames ?_
    rw [readNames_indexColumns, if_pos h]

theorem length_insertAllText (m : Model) (rows : Nat) : rows ≤ (m.insertAllText rows).length := by
  have hlength := length_groupsText (Model.insertColumns m.metadata).length rows
  rw [insertAllText_eq]
  simp only [List.length_append]
  omega

/-- The table and the columns that are stored have names. -/
def Model.Named (m : Model) : Prop :=
  IsName m.getTableName ∧ ∀ col ∈ Model.insertColumns m.metadata, IsName col

theorem lexDdl_insertInto {table : Str} (h : table ≠ []) (sql : Sql) :
    lexDdl .none (lit "INSERT INTO " ++ (word table ++ (lit "(" ++ sql))) =
      .name "INSERT".toList :: .name "INTO".toList :: .name table :: .lpar ::
        lexDdl .none sql := by
  have hinto (rest : Sql) : lexDdl .none (lit "INSERT INTO " ++ rest) =
      .name "INSERT".toList :: .name "INTO".toList :: lexDdl .none rest := rfl
  rw [hinto, lexDdl_word h, lexDdl_lpar]
  rfl

theorem readInsert_insertAllText {m : Model} (h : m.Named) (rows : Nat) :
    readInsert (m.insertAllText (rows + 1)) = some
      ⟨m.getTableName, Model.insertColumns m.metadata,
        List.replicate (rows + 1) (Model.insertColumns m.metadata).length⟩ := by
  obtain ⟨htable, hcols⟩ := h
  have hfuel : rows < (m.insertAllText (rows + 1)).length := length_insertAllText m (rows + 1)
  have hgroups := readGroups_groupsText (Model.insertColumns m.metadata).length rows _ hfuel
  have hnames : ∀ name ∈ m.getTableName :: Model.insertColumns m.metadata, IsName name := by
    simpa using ⟨htable, hcols⟩
  rw [readInsert]
  generalize (m.insertAllText (rows + 1)).length = fuel at hgroups
  rw [insertAllText_eq, lexDdl_insertInto htable.1]
  simp only [readList_columns fun col hcol => (hcols col hcol).1, Option.bind_eq_bind,
    Option.bind_some, lexDdl_values, hgroups]
  rw [if_pos ⟨trivial, trivial, trivial, hnames, by simp⟩]

/-- An empty name leaves no token, so that one column without a name reads as none. -/
theorem readList_columns_cases {cols : List Str} {sql : Sql} {r : List Str × List DdlTok}
    (h : readList (lexDdl .none (Model.indexColumns cols ++ (lit ")" ++ sql))) = some r) :
    r.2 = lexDdl .none sql ∧
      ((r.1 = cols ∧ ∀ col ∈ cols, col ≠ []) ∨ (r.1 = [] ∧ cols.length = 1)) := by
  by_cases hall : ∀ col ∈ cols, col ≠ []
  · rw [readList_columns hall] at h
    rw [← Option.some.inj h]
    exact ⟨rfl, .inl ⟨rfl, hall⟩⟩
  · cases cols with
    | nil => simp at hall
    | cons col cols =>
      have hnone : readNames (lexDdl .none (Model.indexColumns (col :: cols) ++
          (lit ")" ++ sql))) = none := by
        rw [readNames_indexColumns, if_neg hall]
      by_cases hne : r.1 = []
      · cases cols with
        | nil =>
          have hcol : col = [] := by simpa using hall
          subst hcol
          obtain rfl : ([], lexDdl .none sql) = r := Option.some.inj h
          exact ⟨rfl, .inr ⟨rfl, rfl⟩⟩
        | cons next cols =>
          refine absurd h ?_
          have hlist : readList (lexDdl .none (Model.indexColumns (col :: next :: cols) ++
              (lit ")" ++ sql))) = readNames (lexDdl .none
                (Model.indexColumns (col :: next :: cols) ++ (lit ")" ++ sql))) := by
            rw [indexColumns_cons, List.append_assoc, List.append_assoc]
            by_cases hcol : col = []
            · subst hcol
              rfl
            · rw [lexDdl_word hcol, lexDdl_comma]
              rfl
          rw [hlist, hnone]
          simp
      · rw [readNames_of_readList h hne] at hnone
        cases hnone

theorem readInsert_eq_some {m : Model} {rows : Nat} {insert : Insert}
    (h : readInsert (m.insertAllText rows) = some insert) : rows ≠ 0 ∧ m.Named := by
  rw [readInsert] at h
  have hfuel := length_insertAllText m rows
  generalize (m.insertAllText rows).length = fuel at h hfuel
  rw [insertAllText_eq] at h
  by_cases htable : m.getTableName = []
  · rw [htable] at h
    have hlex (sql : Sql) : lexDdl .none (lit "INSERT INTO " ++ (word [] ++ (lit "(" ++ sql))) =
        .name "INSERT".toList :: .name "INTO".toList :: .lpar :: lexDdl .none sql := rfl
    rw [hlex] at h
    cases h
  · rw [lexDdl_insertInto htable] at h
    simp only [Option.bind_eq_bind, Option.bind_eq_some_iff] at h
    obtain ⟨⟨columns, toks⟩, hlist, h⟩ := h
    obtain ⟨rfl, hcolumns⟩ := readList_columns_cases hlist
    dsimp only at hcolumns
    cases rows with
    | zero =>
      have hvalues : lexDdl .none (lit " VALUES" ++
          groupsText (Model.insertColumns m.metadata).length 0) = [.name "VALUES".toList] := rfl
      rw [hvalues] at h
      cases fuel <;> simp [readGroups, readGroup] at h
    | succ rows =>
      simp only [lexDdl_values, readGroups_groupsText _ rows fuel hfuel, Option.bind_some] at h
      split at h
      · rename_i hcond
        obtain ⟨-, -, -, hnames, harity⟩ := hcond
        have hone : (Model.insertColumns m.metadata).length = columns.length := by
          simpa using harity
        rcases hcolumns with ⟨heq, -⟩ | ⟨heq, hlength⟩
        · rw [heq] at hnames
          exact ⟨Nat.succ_ne_zero rows, by simpa [Model.Named] using hnames⟩
        · rw [hlength, heq] at hone
          cases hone
      · cases h

/-! ## The bindings of both overloads -/

/-- What a member is bound to, if there is a branch for its type. -/
def boundParam (field : FieldMeta) (val : Value) : Option Param :=
  if field.cppType = ORM_TYPE_INT then some ⟨.MYSQL_TYPE_LONG, val⟩
  else if getCppTypeName field.cppType = ORM_TYPE_STRING then some ⟨.MYSQL_TYPE_STRING, val⟩
  else if getCppTypeName field.cppType = ORM_TYPE_TIMESTAMP then
    some ⟨.MYSQL_TYPE_TIMESTAMP, val⟩
  else none

/-- The members that are stored, with their columns. -/
def storedMembers : List FieldMeta → Obj → List (FieldMeta × Value)
  | field :: fields, val :: vals =>
    if field.ignore then storedMembers fields vals
    else (field, val) :: storedMembers fields vals
  | _, _ => []

def boundParams (fields : List FieldMeta) (t : Obj) : List (Option Param) :=
  (storedMembers fields t).map fun p => boundParam p.1 p.2

theorem storedMembers_columns {fields : List FieldMeta} {t : Obj} (h : t.length = fields.length) :
    (storedMembers fields t).map (·.1.getColumnName) = Model.insertColumns fields := by
  induction fields generalizing t with
  | nil =>
    cases t with
    | nil => rfl
    | cons val vals => cases h
  | cons field fields ih =>
    cases t with
    | nil => cases h
    | cons val vals =>
      have hvals : vals.length = fields.length := by simpa using h
      by_cases hignore : field.ignore
      · simp [storedMembers, Model.insertColumns, hignore, ih hvals]
      · simp [storedMembers, Model.insertColumns, hignore, ih hvals]

theorem length_boundParams {fields : List FieldMeta} {t : Obj} (h : t.length = fields.length) :
    (boundParams fields t).length = (Model.insertColumns fields).length := by
  rw [boundParams, List.length_map, ← storedMembers_columns h, List.length_map]

/-- One pass of the loop over a member that is stored. -/
theorem bindMembers_cons {field : FieldMeta} (hignore : field.ignore = false) (val : Value)
    (fields : List FieldMeta) (vals : Obj) (stmt : Statement) (cnt : Nat) :
    Model.bindMembers (field :: fields) (val :: vals) (stmt, cnt) =
      Model.bindMembers fields vals ((match boundParam field val with
        | some p => stmt.setParam cnt p.type p.value
        | none => stmt), cnt + 1) := by
  by_cases hint : field.cppType = ORM_TYPE_INT
  · simp [Model.bindMembers, boundParam, hignore, hint, Statement.setInt]
  · by_cases hstring : getCppTypeName field.cppType = ORM_TYPE_STRING
    · simp [Model.bindMembers, boundParam, hignore, hint, hstring, Statement.setString]
    · by_cases htime : getCppTypeName field.cppType = ORM_TYPE_TIMESTAMP
      · rw [htime] at hstring
        simp [Model.bindMembers, boundParam, hignore, hint, hstring, htime, Statement.setTime]
      · simp [Model.bindMembers, boundParam, hignore, hint, hstring, htime]

theorem bindMembers_sql (fields : List FieldMeta) (t : Obj) (stmt : Statement) (cnt : Nat) :
    (Model.bindMembers fields t (stmt, cnt)).1.sql = stmt.sql := by
  induction fields generalizing t stmt cnt with
  | nil => rfl
  | cons field fields ih =>
    cases t with
    | nil => rfl
    | cons val vals =>
      cases hignore : field.ignore with
      | true =>
        rw [Model.bindMembers, if_pos hignore]
        exact ih vals stmt cnt
      | false =>
        rw [bindMembers_cons hignore, ih]
        split
        · exact Statement.setParam_sql _ _ _ _
        · rfl

/-- The next parameter, which has not been set. -/
theorem setParam_next (sql : Sql) (bound : List (Option Param)) (p : Option Param) (n : Nat) :
    (match p with
      | some p => (⟨sql, bound ++ List.replicate (n + 1) none⟩ : Statement).setParam
        (bound.length + 1) p.type p.value
      | none => ⟨sql, bound ++ List.replicate (n + 1) none⟩) =
      (⟨sql, (bound ++ [p]) ++ List.replicate n none⟩ : Statement) := by
  have hreplicate : bound ++ List.replicate (n + 1) none =
      bound ++ (none : Option Param) :: List.replicate n none := rfl
  cases p with
  | none => simp [hreplicate]
  | some p =>
    have hsql := Statement.setParam_sql ⟨sql, bound ++ List.replicate (n + 1) none⟩
      (bound.length + 1) p.type p.value
    have hbind := Statement.setParam_paramBind ⟨sql, bound ++ List.replicate (n + 1) none⟩
      bound.length p.type p.value
    rw [Statement.mk.injEq]
    refine ⟨hsql, hbind.trans ?_⟩
    simp [hreplicate]

/-- The parameters of an object stand behind those that are done. -/
theorem bindMembers_eq (fields : List FieldMeta) (t : Obj) (sql : Sql)
    (bound : List (Option Param)) (n : Nat) :
    Model.bindMembers fields t
      (⟨sql, bound ++ List.replicate ((boundParams fields t).length + n) none⟩, bound.length + 1) =
      (⟨sql, (bound ++ boundParams fields t) ++ List.replicate n none⟩,
        (bound ++ boundParams fields t).length + 1) := by
  induction fields generalizing t bound with
  | nil => simp [Model.bindMembers, boundParams, storedMembers]
  | cons field fields ih =>
    cases t with
    | nil => simp [Model.bindMembers, boundParams, storedMembers]
    | cons val vals =>
      cases hignore : field.ignore with
      | true =>
        have hparams : boundParams (field :: fields) (val :: vals) = boundParams fields vals := by
          simp [boundParams, storedMembers, hignore]
        rw [hparams, ← ih]
        simp [Model.bindMembers, hignore]
      | false =>
        have hparams : boundParams (field :: fields) (val :: vals) =
            boundParam field val :: boundParams fields vals := by
          simp [boundParams, storedMembers, hignore]
        have hmore := ih vals (bound ++ [boundParam field val])
        have hlength : (boundParam field val :: boundParams fields vals).length + n =
            (boundParams fields vals).length + n + 1 := by
          simp only [List.length_cons]
          omega
        rw [bindMembers_cons hignore, hparams, hlength, setParam_next]
        simpa using hmore

/-- All members of the object. -/
abbrev Model.Object (m : Model) := { t : Obj // t.length = m.metadata.length }

/-- The loop over the objects of a batch. -/
theorem foldl_bindMembers_eq {m : Model} (v : List m.Object) (sql : Sql)
    (bound : List (Option Param)) :
    v.foldl (fun acc t => Model.bindMembers m.metadata t.1 acc)
      (⟨sql, bound ++ List.replicate (v.flatMap fun t => boundParams m.metadata t.1).length none⟩,
        bound.length + 1) =
      (⟨sql, bound ++ v.flatMap fun t => boundParams m.metadata t.1⟩,
        (bound ++ v.flatMap fun t => boundParams m.metadata t.1).length + 1) := by
  induction v generalizing bound with
  | nil => simp
  | cons t v ih =>
    have hstep := bindMembers_eq m.metadata t.1 sql bound
      (v.flatMap fun t => boundParams m.metadata t.1).length
    rw [List.foldl_cons, List.flatMap_cons, List.length_append, hstep, ih, List.append_assoc]

theorem foldl_bindMembers_sql {m : Model} (v : List m.Object) (acc : Statement × Nat) :
    (v.foldl (fun acc t => Model.bindMembers m.metadata t.1 acc) acc).1.sql = acc.1.sql := by
  induction v generalizing acc with
  | nil => rfl
  | cons t v ih => exact (ih _).trans (bindMembers_sql m.metadata t.1 acc.1 acc.2)

/-! ## What is inserted -/

theorem placeholders_indexColumns (cols : List Str) :
    placeholders (Model.indexColumns cols) = marks cols := by
  have hsep : placeholders (lit ", ") = 0 := by decide
  induction cols with
  | nil => rfl
  | cons col cols ih =>
    have hmarks : marks (col :: cols) = col.count '?' + marks cols := rfl
    cases cols with
    | nil => simp [Model.indexColumns, Model.indexColumnsMore, placeholders_word, marks]
    | cons next cols =>
      rw [indexColumns_cons, placeholders_append, placeholders_append, placeholders_word, hsep, ih,
        hmarks]
      omega

theorem placeholders_groupText (n : Nat) : placeholders (groupText n) = n := by
  have hl : placeholders (lit "(") = 0 := by decide
  have hr : placeholders (lit ")") = 0 := by decide
  have hsep : placeholders (lit ", ") = 0 := by decide
  have hmark : placeholders (lit "?") = 1 := by decide
  have hmarks : placeholders (Model.joinSql (lit ", ") (List.replicate n (lit "?"))) = n := by
    induction n with
    | zero => rfl
    | succ n ih =>
      cases n with
      | zero => exact hmark
      | succ n =>
        rw [List.replicate_succ] at ih ⊢
        rw [List.replicate_succ, Model.joinSql, placeholders_append, placeholders_append, ih, hmark,
          hsep]
        omega
  rw [groupText, placeholders_append, placeholders_append, hmarks, hl, hr]
  omega

theorem placeholders_groupsText (n rows : Nat) : placeholders (groupsText n rows) = rows * n := by
  have hsep : placeholders (lit ", ") = 0 := by decide
  cases rows with
  | zero => simp [groupsText, Model.joinSql]
  | succ rows =>
    induction rows with
    | zero => rw [groupsText_one, placeholders_groupText, Nat.one_mul]
    | succ rows ih =>
      rw [groupsText_succ, placeholders_append, placeholders_append, ih, placeholders_groupText,
        hsep, Nat.succ_mul (rows + 1)]
      omega

theorem placeholders_insertAllText (m : Model) (rows : Nat) :
    placeholders (m.insertAllText rows) =
      marks (m.getTableName :: Model.insertColumns m.metadata) +
        rows * (Model.insertColumns m.metadata).length := by
  have hinto : placeholders (lit "INSERT INTO ") = 0 := by decide
  have hl : placeholders (lit "(") = 0 := by decide
  have hr : placeholders (lit ")") = 0 := by decide
  have hvalues : placeholders (lit " VALUES") = 0 := by decide
  have hmarks : marks (m.getTableName :: Model.insertColumns m.metadata) =
      m.getTableName.count '?' + marks (Model.insertColumns m.metadata) := rfl
  rw [insertAllText_eq]
  simp only [placeholders_append, hinto, placeholders_word, hl, hr, hvalues,
    placeholders_indexColumns, placeholders_groupsText, hmarks]
  omega

theorem Model.Named.marks {m : Model} (h : m.Named) :
    marks (m.getTableName :: Model.insertColumns m.metadata) = 0 := by
  rw [marks_eq_zero]
  intro name hname
  rcases List.mem_cons.mp hname with rfl | hcol
  · simpa using h.1.2
  · simpa using (h.2 name hcol).2

namespace Model

variable {m : Model}

/-- The row that stands for an object. -/
def insertedRow (m : Model) (t : Obj) : InsertedRow :=
  ⟨m.getTableName, (insertColumns m.metadata).zip (boundParams m.metadata t)⟩

theorem groupRows_flatMap (v : List m.Object) :
    groupRows m.getTableName (insertColumns m.metadata)
      (List.replicate v.length (insertColumns m.metadata).length)
      (v.flatMap fun t => boundParams m.metadata t.1) = v.map fun t => m.insertedRow t.1 := by
  induction v with
  | nil => rfl
  | cons t v ih =>
    have hlength := length_boundParams t.2
    rw [List.flatMap_cons, List.length_cons, List.replicate_succ, groupRows,
      List.take_left' hlength, List.drop_left' hlength, ih]
    rfl

theorem length_flatMap_boundParams (v : List m.Object) :
    (v.flatMap fun t => boundParams m.metadata t.1).length =
      v.length * (insertColumns m.metadata).length := by
  induction v with
  | nil => simp
  | cons t v ih =>
    rw [List.flatMap_cons, List.length_append, ih, length_boundParams t.2, List.length_cons,
      Nat.succ_mul]
    omega

theorem insertedRows_batch (h : m.Named) {v : List m.Object} (hv : v ≠ []) :
    insertedRows (v.foldl (fun acc t => bindMembers m.metadata t.1 acc)
      (Statement.prepare (m.insertAllText v.length), 1)).1 =
      some (v.map fun t => m.insertedRow t.1) := by
  obtain ⟨n, hn⟩ : ∃ n, v.length = n + 1 := ⟨v.length - 1, by
    have := List.length_pos_iff.mpr hv
    omega⟩
  have hprepare : Statement.prepare (m.insertAllText v.length) = ⟨m.insertAllText v.length,
      [] ++ List.replicate (v.flatMap fun t => boundParams m.metadata t.1).length none⟩ := by
    rw [Statement.prepare, placeholders_insertAllText, h.marks, Nat.zero_add,
      length_flatMap_boundParams, List.nil_append]
  have hbind := foldl_bindMembers_eq v (m.insertAllText v.length) []
  rw [hprepare]
  rw [List.length_nil] at hbind
  rw [hbind, insertedRows, hn, readInsert_insertAllText h, ← hn, Option.map_some, List.nil_append,
    groupRows_flatMap]

theorem insertedRows_single (h : m.Named) (t : m.Object) :
    insertedRows (bindMembers m.metadata t.1 (Statement.prepare m.insertText, 1)).1 =
      some [m.insertedRow t.1] := by
  have hbatch := insertedRows_batch h (List.cons_ne_nil t [])
  rw [insertText_eq]
  exact hbatch

/-- `Create` for one object after another, on the model that the last one leaves. -/
def createEach : Model → List Obj → List (Option Statement)
  | _, [] => []
  | m, t :: v => (m.Create t).sent :: createEach (m.Create t).model v

theorem createEach_reset (m : Model) (v : List Obj) : createEach m.reset v = createEach m v := by
  cases v <;> rfl

theorem insertedBy_createEach (h : m.Named) {conn : Nat} (hconn : m.conn = some conn)
    (v : List m.Object) :
    insertedBy (m.createEach (v.map Subtype.val)) = some (v.map fun t => m.insertedRow t.1) := by
  induction v with
  | nil => rfl
  | cons t v ih =>
    have hsent : (m.Create t.1).sent =
        some (bindMembers m.metadata t.1 (Statement.prepare m.insertText, 1)).1 := by
      rw [Create, prepareStatement, hconn]
      rfl
    have hmodel : (m.Create t.1).model = m.reset := rfl
    rw [List.map_cons, createEach, hsent, hmodel, createEach_reset, insertedBy,
      insertedRows_single h t, ih]
    rfl

/-- The batch and the single calls insert the same rows in the same order. -/
def BatchMatches (m : Model) (v : List m.Object) : Prop :=
  ∃ rows, insertedBy [(m.CreateAll (v.map Subtype.val)).sent] = some rows ∧
    insertedBy (m.createEach (v.map Subtype.val)) = some rows

theorem createEach_no_conn (hconn : m.conn = none) (v : List Obj) :
    insertedBy (m.createEach v) = some [] := by
  induction v with
  | nil => rfl
  | cons t v ih =>
    have hsent : (m.Create t).sent = none := by
      rw [Create, prepareStatement, hconn]
      rfl
    have hmodel : (m.Create t).model = m.reset := rfl
    rw [createEach, hsent, hmodel, createEach_reset, insertedBy, ih]

theorem CreateAll_sent {conn : Nat} (hconn : m.conn = some conn) (v : List m.Object) :
    (m.CreateAll (v.map Subtype.val)).sent =
      some (v.foldl (fun acc t => bindMembers m.metadata t.1 acc)
        (Statement.prepare (m.insertAllText v.length), 1)).1 := by
  rw [CreateAll, prepareStatement, hconn, List.length_map]
  simp only [Option.map_some, List.foldl_map]

def userModel : Model where
  className := "User".toList
  metadata := [{ fieldName := "age".toList, cppType := "int".toList }]
  conn := some 0

end Model

end TinyOrm
