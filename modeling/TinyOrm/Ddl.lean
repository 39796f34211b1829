import TinyOrm.Migration
set_option autoImplicit false

/-!
What a database makes of the statements of a migration.

Of MySQL it is assumed: a statement that cannot be read, that creates what
exists, or that alters what does not exist fails and changes nothing.
-/

namespace TinyOrm

/-! ## Tokens -/

inductive Keyword where
  | ALTER | TABLE | RENAME | AS | CREATE | CHANGE | ADD | COLUMN | DROP
  | INDEX | UNIQUE | PRIMARY | KEY | NOT | NULL | DEFAULT | AUTO_INCREMENT
  deriving DecidableEq, Repr

def keywords : List (Str × Keyword) :=
  [("ALTER".toList, .ALTER), ("TABLE".toList, .TABLE), ("RENAME".toList, .RENAME),
   ("AS".toList, .AS), ("CREATE".toList, .CREATE), ("CHANGE".toList, .CHANGE),
   ("ADD".toList, .ADD), ("COLUMN".toList, .COLUMN), ("DROP".toList, .DROP),
   ("INDEX".toList, .INDEX), ("UNIQUE".toList, .UNIQUE), ("PRIMARY".toList, .PRIMARY),
   ("KEY".toList, .KEY), ("NOT".toList, .NOT), ("NULL".toList, .NULL),
   ("DEFAULT".toList, .DEFAULT), ("AUTO_INCREMENT".toList, .AUTO_INCREMENT)]

inductive DdlTok where
  | kw (k : Keyword)
  | name (s : Str)
  | lpar
  | rpar
  | comma
  deriving DecidableEq, Repr

/-- What a token has so far: characters of the program's own, or a stretch that
it handed on. -/
inductive Pending where
  | none
  | printed (s : Str)
  | given (s : Str)
  deriving DecidableEq, Repr

def Pending.flush : Pending → List DdlTok
  | .none => []
  | .printed s =>
    match keywords.lookup s with
    | some k => [.kw k]
    | .none => [.name s]
  | .given s => [.name s]

def Pending.push (c : Char) : Pending → Pending
  | .none => .printed [c]
  | .printed s => .printed (s ++ [c])
  | .given s => .given (s ++ [c])

def identChar (c : Char) : Bool := c.isAlphanum || c = '_' || c = '$' || 128 ≤ c.toNat

/-- The last token of `s` and the first one of `w` are read as one if nothing
stands between them. -/
def runsTogether (s w : Str) : Bool :=
  match s.getLast?, w.head? with
  | some a, some b => identChar a && identChar b || (a = b && (a = '\'' || a = '"'))
  | _, _ => false

def lexDdl : Pending → Sql → List DdlTok
  | p, [] => p.flush
  | p, .ch c :: sql =>
    if c = ' ' then p.flush ++ lexDdl .none sql
    else if c = '(' then p.flush ++ .lpar :: lexDdl .none sql
    else if c = ')' then p.flush ++ .rpar :: lexDdl .none sql
    else if c = ',' then p.flush ++ .comma :: lexDdl .none sql
    else lexDdl (p.push c) sql
  | p, .word w :: sql =>
    if w = [] then lexDdl p sql
    else
      match p with
      | .none => lexDdl (.given w) sql
      | .printed s => lexDdl (.given (s ++ w)) sql
      | .given s =>
        if runsTogether s w then lexDdl (.given (s ++ w)) sql
        else .name s :: lexDdl (.given w) sql

/-! ## Statements -/

structure ColumnDef where
  type : Str
  notNull : Bool := false
  default_ : Str := []
  extra : Str := []
  autoInc : Bool := false
  primaryKey : Bool := false
  deriving DecidableEq, Repr

/-- An index clause; the name may be missing. -/
structure Key where
  kind : IndexType
  name : Str
  columns : List Str
  deriving DecidableEq, Repr

inductive Ddl where
  | createTable (table : Str) (columns : List (Str × ColumnDef)) (keys : List Key)
  | renameTable (old new : Str)
  | addColumn (table name : Str) (col : ColumnDef)
  | changeColumn (table old name : Str) (col : ColumnDef)
  | dropIndex (table name : Str)
  | addIndex (table : Str) (key : Key)
  deriving DecidableEq, Repr

/-- What may follow the type of a column, in any order. -/
def readAttributes : ColumnDef → List DdlTok → Option (ColumnDef × List DdlTok)
  | col, .kw .NOT :: .kw .NULL :: toks => readAttributes { col with notNull := true } toks
  | col, .kw .PRIMARY :: .kw .KEY :: toks =>
    readAttributes { col with primaryKey := true, notNull := true } toks
  | col, .kw .DEFAULT :: .name d :: toks => readAttributes { col with default_ := d } toks
  | col, .kw .AUTO_INCREMENT :: toks => readAttributes { col with autoInc := true } toks
  | col, .name e :: toks =>
    if col.extra = [] then readAttributes { col with extra := e } toks else none
  | col, toks => some (col, toks)

/-- Names up to the closing parenthesis. -/
def readNames : List DdlTok → Option (List Str × List DdlTok)
  | .name n :: .rpar :: toks => some ([n], toks)
  | .name n :: .comma :: toks => do
    let (ns, toks) ← readNames toks
    some (n :: ns, toks)
  | _ => none

/-- `PRIMARY` is the name of the primary key alone. -/
def readKey (kind : IndexType) : List DdlTok → Option (Key × List DdlTok)
  | .name n :: .lpar :: toks => do
    let (columns, toks) ← readNames toks
    if n = PRIMARY then none else some (⟨kind, n, columns⟩, toks)
  | .lpar :: toks => do
    let (columns, toks) ← readNames toks
    some (⟨kind, [], columns⟩, toks)
  | _ => none

abbrev Part := (Str × ColumnDef) ⊕ Key

/-- A part of a CREATE TABLE. -/
def readPart : List DdlTok → Option (Part × List DdlTok)
  | .name n :: .name type :: toks => do
    let (col, toks) ← readAttributes { type := type } toks
    some (.inl (n, col), toks)
  | .kw .INDEX :: toks => do
    let (key, toks) ← readKey .INDEX_TYPE_MUL toks
    some (.inr key, toks)
  | .kw .UNIQUE :: toks => do
    let (key, toks) ← readKey .INDEX_TYPE_UNI toks
    some (.inr key, toks)
  | _ => none

/-- At most `fuel` parts up to the closing parenthesis. -/
def readParts : Nat → List DdlTok → Option (List Part)
  | 0, _ => none
  | fuel + 1, toks => do
    let (part, toks) ← readPart toks
    match toks with
    | [.rpar] => some [part]
    | .comma :: toks => do
      let parts ← readParts fuel toks
      some (part :: parts)
    | _ => none

def readAlter (table : Str) : List DdlTok → Option Ddl
  | [.kw .RENAME, .kw .AS, .name new] => some (.renameTable table new)
  | .kw .ADD :: .kw .COLUMN :: .name n :: .name type :: toks =>
    match readAttributes { type := type } toks with
    | some (col, []) => some (.addColumn table n col)
    | _ => none
  | .kw .CHANGE :: .name old :: .name n :: .name type :: toks =>
    match readAttributes { type := type } toks with
    | some (col, []) => some (.changeColumn table old n col)
    | _ => none
  | [.kw .DROP, .kw .PRIMARY, .kw .KEY] => some (.dropIndex table PRIMARY)
  | [.kw .DROP, .kw .INDEX, .name n] => some (.dropIndex table n)
  | .kw .ADD :: .kw .INDEX :: toks =>
    match readKey .INDEX_TYPE_MUL toks with
    | some (key, []) => some (.addIndex table key)
    | _ => none
  | .kw .ADD :: .kw .UNIQUE :: toks =>
    match readKey .INDEX_TYPE_UNI toks with
    | some (key, []) => some (.addIndex table key)
    | _ => none
  | .kw .ADD :: .kw .PRIMARY :: .kw .KEY :: .lpar :: toks =>
    match readNames toks with
    | some (columns, []) => some (.addIndex table ⟨.INDEX_TYPE_PRI, PRIMARY, columns⟩)
    | _ => none
  | _ => none

def readDdl (sql : Sql) : Option Ddl :=
  match lexDdl .none sql with
  | .kw .ALTER :: .kw .TABLE :: .name table :: toks => readAlter table toks
  | .kw .CREATE :: .kw .TABLE :: .name table :: .lpar :: toks => do
    let parts ← readParts sql.length toks
    some (.createTable table (parts.filterMap Sum.getLeft?) (parts.filterMap Sum.getRight?))
  | _ => none

/-! ## Tables -/

/-- An index of a table under its name. -/
structure TableKey where
  kind : IndexType
  columns : List Str
  deriving DecidableEq, Repr

structure Table where
  columns : Str → Option ColumnDef
  indices : Str → Option TableKey

abbrev Database := Str → Option Table

def Database.empty : Database := fun _ => none

/-- The indexes of a CREATE TABLE. A name that the server would choose is left out. -/
def createdIndices (columns : List (Str × ColumnDef)) (keys : List Key) (name : Str) :
    Option TableKey :=
  if name = [] then none
  else if name = PRIMARY then
    match (columns.filter fun col => col.2.primaryKey).map Prod.fst with
    | [] => none
    | col :: cols => some ⟨.INDEX_TYPE_PRI, col :: cols⟩
  else (keys.find? (·.name = name)).map fun key => ⟨key.kind, key.columns⟩

namespace Database

variable (db : Database)

/-- A change of one table; `none`: the statement fails. -/
def alter (table : Str) (change : Table → Option Table) : Option Database := do
  let t ← db table
  let t ← change t
  some (Function.update db table (some t))

/-- The statement on the database, `none` if it fails. -/
def apply : Ddl → Option Database
  | .createTable table columns keys =>
    if (db table).isSome then none
    else some (Function.update db table (some
      { columns := fun name => columns.lookup name, indices := createdIndices columns keys }))
  | .renameTable old new => do
    let t ← db old
    if (db new).isSome then none
    else some (Function.update (Function.update db old none) new (some t))
  | .addColumn table name col => db.alter table fun t =>
    if (t.columns name).isSome then none
    else some { t with columns := Function.update t.columns name (some col) }
  | .changeColumn table old name col => db.alter table fun t =>
    if (t.columns old).isNone ∨ (name ≠ old ∧ (t.columns name).isSome) then none
    else some { t with
      columns := Function.update (Function.update t.columns old none) name (some col) }
  | .dropIndex table name => db.alter table fun t =>
    if (t.indices name).isNone then none
    else some { t with indices := Function.update t.indices name none }
  | .addIndex table key => db.alter table fun t =>
    if key.name = [] ∨ (t.indices key.name).isSome then none
    else some { t with
      indices := Function.update t.indices key.name (some ⟨key.kind, key.columns⟩) }

/-- `executeUpdate`, whose failure the migrator does not see. -/
def execute (sql : Sql) : Option Database := (readDdl sql).bind db.apply

end Database

/-- The loop of `migrate`; `none`: a command whose names the model does not have. -/
def Model.migrate (conf : Config) (m : Model) (db : Database) (cmds : List Cmd) :
    Option Database :=
  cmds.foldlM (fun db cmd => do
    let sql ← m.statement conf cmd
    some ((db.execute sql).getD db)) db

/-- The same where no statement may fail. -/
def Model.migrateAccepted (conf : Config) (m : Model) (db : Database) (cmds : List Cmd) :
    Option Database :=
  cmds.foldlM (fun db cmd => do
    let sql ← m.statement conf cmd
    db.execute sql) db

/-! ## Reading what is printed -/

theorem lexDdl_word {w : Str} (hw : w ≠ []) (sql : Sql) :
    lexDdl .none (word w ++ sql) = lexDdl (.given w) sql := by
  simp [word, lexDdl, hw]

theorem lexDdl_alterTable {m : Model} (hname : m.getTableName ≠ []) (sql : Sql) :
    lexDdl .none (m.alterTable ++ (lit " " ++ sql)) =
      .kw .ALTER :: .kw .TABLE :: .name m.getTableName :: lexDdl .none sql := by
  have halter (rest : Sql) : lexDdl .none (lit "ALTER TABLE " ++ rest) =
      .kw .ALTER :: .kw .TABLE :: lexDdl .none rest := rfl
  have hblank : lexDdl (.given m.getTableName) (lit " " ++ sql) =
      .name m.getTableName :: lexDdl .none sql := rfl
  rw [Model.alterTable, List.append_assoc, halter, lexDdl_word hname, hblank]

theorem lexDdl_comma (p : Pending) (sql : Sql) :
    lexDdl p (lit ", " ++ sql) = p.flush ++ .comma :: lexDdl .none sql := rfl

theorem lexDdl_lpar (p : Pending) (sql : Sql) :
    lexDdl p (lit "(" ++ sql) = p.flush ++ .lpar :: lexDdl .none sql := rfl

theorem lexDdl_rpar (p : Pending) (sql : Sql) :
    lexDdl p (lit ")" ++ sql) = p.flush ++ .rpar :: lexDdl .none sql := rfl

theorem indexColumns_cons (col next : Str) (columns : List Str) :
    Model.indexColumns (col :: next :: columns) =
      word col ++ (lit ", " ++ Model.indexColumns (next :: columns)) := by
  simp [Model.indexColumns, Model.indexColumnsMore]

/-- A list of columns is read if it has a column and no column is empty. -/
theorem readNames_indexColumns (col : Str) (columns : List Str) (sql : Sql) :
    readNames (lexDdl .none (Model.indexColumns (col :: columns) ++ (lit ")" ++ sql))) =
      if ∀ c ∈ col :: columns, c ≠ [] then some (col :: columns, lexDdl .none sql) else none := by
  induction columns generalizing col with
  | nil =>
    have htext : Model.indexColumns [col] = word col := by
      simp [Model.indexColumns, Model.indexColumnsMore]
    rw [htext]
    by_cases hcol : col = []
    · subst hcol
      simp [word, lexDdl, lexDdl_rpar, Pending.flush, readNames]
    · rw [lexDdl_word hcol, lexDdl_rpar]
      simp [Pending.flush, readNames, hcol]
  | cons next columns ih =>
    rw [indexColumns_cons, List.append_assoc, List.append_assoc]
    by_cases hcol : col = []
    · subst hcol
      simp [word, lexDdl, lexDdl_comma, Pending.flush, readNames]
    · rw [lexDdl_word hcol, lexDdl_comma]
      simp only [Pending.flush, List.cons_append, List.nil_append, readNames, ih]
      by_cases hrest : ∀ c ∈ next :: columns, c ≠ []
      · rw [if_pos hrest, if_pos (by simpa [hcol] using hrest)]
        rfl
      · rw [if_neg hrest, if_neg (by simpa [hcol] using hrest)]
        rfl

def NamesColumns (columns : List Str) : Prop := columns ≠ [] ∧ ∀ col ∈ columns, col ≠ []

instance (columns : List Str) : Decidable (NamesColumns columns) :=
  inferInstanceAs (Decidable (_ ∧ _))

theorem readNames_columns (columns : List Str) (sql : Sql) :
    readNames (lexDdl .none (Model.indexColumns columns ++ (lit ")" ++ sql))) =
      if NamesColumns columns then some (columns, lexDdl .none sql) else none := by
  cases columns with
  | nil => rfl
  | cons col columns =>
    rw [readNames_indexColumns]
    simp [NamesColumns]

theorem readKey_columns (kind : IndexType) (name : Str) (columns : List Str) (sql : Sql) :
    readKey kind (lexDdl .none (word name ++ (lit "(" ++
      (Model.indexColumns columns ++ (lit ")" ++ sql))))) =
      if name ≠ PRIMARY ∧ NamesColumns columns then
        some (⟨kind, name, columns⟩, lexDdl .none sql)
      else none := by
  have hnames := readNames_columns columns sql
  by_cases hname : name = []
  · subst hname
    have hlex (rest : Sql) : lexDdl .none (word [] ++ (lit "(" ++ rest)) =
        .lpar :: lexDdl .none rest := rfl
    have hprimary : [] ≠ PRIMARY := by decide
    rw [hlex, readKey, hnames]
    by_cases hcols : NamesColumns columns <;> simp [hcols, hprimary]
  · rw [lexDdl_word hname, lexDdl_lpar]
    simp only [Pending.flush, List.cons_append, List.nil_append, readKey, hnames]
    by_cases hcols : NamesColumns columns
    · by_cases hprimary : name = PRIMARY <;> simp [hcols, hprimary]
    · simp [hcols]

example :
    readDdl (lit "ALTER TABLE " ++ word "t".toList ++ lit " ADD PRIMARY KEY " ++ word "id".toList ++
      lit ")") = none := by decide

end TinyOrm
