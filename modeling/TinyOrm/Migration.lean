import TinyOrm.Catalog
import TinyOrm.Model
set_option autoImplicit false

/-!
`Model::AutoMigrate` and `MysqlMigrator::migrate` (model.h).

`prev` stands for the static members `tablenamePrev`, `fieldsPrev`,
`indicesPrev` and `columnToIndexPrev` of a model class.
-/

namespace TinyOrm

/-! ## Commands -/

inductive Action where
  | MIGACTION_CREATE_TABLE
  | MIGACTION_ADD_COLUMN
  | MIGACTION_CHANGE_COLUMN
  | MIGACTION_ADD_INDEX
  | MIGACTION_CHANGE_TABLENAME
  | MIGACTION_DROP_INDEX
  deriving DecidableEq, Repr

structure Cmd where
  targetName : Str
  action : Action
  prevTargetName : Str := []
  deriving DecidableEq, Repr

def Cmd.priority (cmd : Cmd) : Nat :=
  match cmd.action with
  | .MIGACTION_CREATE_TABLE => 1
  | .MIGACTION_CHANGE_TABLENAME => 1
  | .MIGACTION_ADD_COLUMN => 2
  | .MIGACTION_CHANGE_COLUMN => 2
  | .MIGACTION_DROP_INDEX => 3
  | .MIGACTION_ADD_INDEX => 4

/-- What `std::sort` may make of `cmds`: it is not stable. -/
structure SortedFrom (cmds sorted : List Cmd) : Prop where
  perm : sorted.Perm cmds
  ordered : sorted.Pairwise fun a b => a.priority ≤ b.priority

namespace Model

/-! ## AutoMigrate -/

/-- One pass of the loop over the columns. -/
def columnCmds (conf : Config) (prev : Loaded) (field : FieldMeta) : Option (List Cmd) :=
  match prev.nameToIndex.lookup field.getColumnName with
  | none =>
    match prev.fields.find? (·.fieldName = field.fieldName) with
    | none => some [⟨field.getColumnName, .MIGACTION_ADD_COLUMN, []⟩]
    | some it => some [⟨field.getColumnName, .MIGACTION_CHANGE_COLUMN, it.getColumnName⟩]
  | some i => do
    let field' ← prev.fields[i]?
    let same ← FieldMeta.eq conf field field'
    some (if same then [] else [⟨field.getColumnName, .MIGACTION_CHANGE_COLUMN, []⟩])

def allColumnCmds (conf : Config) (prev : Loaded) : List FieldMeta → Option (List Cmd)
  | [] => some []
  | field :: fields => do
    let cmds ← columnCmds conf prev field
    let rest ← allColumnCmds conf prev fields
    some (cmds ++ rest)

theorem columnCmds_target {conf : Config} {prev : Loaded} {field : FieldMeta} {cmds : List Cmd}
    (h : columnCmds conf prev field = some cmds) :
    ∀ cmd ∈ cmds, cmd.targetName = field.getColumnName ∧
      (cmd.action = .MIGACTION_ADD_COLUMN ∨ cmd.action = .MIGACTION_CHANGE_COLUMN) := by
  unfold columnCmds at h
  split at h
  · split at h
    · obtain rfl := Option.some.inj h
      simp
    · obtain rfl := Option.some.inj h
      simp
  · simp only [Option.bind_eq_bind, Option.bind_eq_some_iff, Option.some.injEq] at h
    obtain ⟨-, -, same, -, rfl⟩ := h
    cases same <;> simp

theorem allColumnCmds_target {conf : Config} {prev : Loaded} {fields : List FieldMeta}
    {cmds : List Cmd} (h : allColumnCmds conf prev fields = some cmds) :
    ∀ cmd ∈ cmds, (∃ field ∈ fields, cmd.targetName = field.getColumnName) ∧
      (cmd.action = .MIGACTION_ADD_COLUMN ∨ cmd.action = .MIGACTION_CHANGE_COLUMN) := by
  induction fields generalizing cmds with
  | nil => simp_all [allColumnCmds]
  | cons field fields ih =>
    simp only [allColumnCmds, Option.bind_eq_bind, Option.bind_eq_some_iff, Option.some.injEq] at h
    obtain ⟨own, hown, rest, hrest, rfl⟩ := h
    intro cmd hcmd
    rcases List.mem_append.mp hcmd with hcmd | hcmd
    · obtain ⟨hname, haction⟩ := columnCmds_target hown cmd hcmd
      exact ⟨⟨field, by simp, hname⟩, haction⟩
    · obtain ⟨⟨f, hf, hname⟩, haction⟩ := ih hrest cmd hcmd
      exact ⟨⟨f, by simp [hf], hname⟩, haction⟩

theorem allColumnCmds_eq_nil_iff {conf : Config} {prev : Loaded} {fields : List FieldMeta} :
    allColumnCmds conf prev fields = some [] ↔
      ∀ field ∈ fields, columnCmds conf prev field = some [] := by
  induction fields with
  | nil => simp [allColumnCmds]
  | cons field fields ih =>
    rw [List.forall_mem_cons, ← ih]
    simp only [allColumnCmds, Option.bind_eq_bind, Option.bind_eq_some_iff, Option.some.injEq,
      List.append_eq_nil_iff]
    constructor
    · rintro ⟨own, hown, rest, hrest, rfl, rfl⟩
      exact ⟨hown, hrest⟩
    · rintro ⟨hown, hrest⟩
      exact ⟨[], hown, [], hrest, rfl, rfl⟩

/-- The first loop over the indexes. -/
def changedIndexCmds (m : Model) (entry : Sigma fun _ : Str => Index) : List Cmd :=
  match m.indices.lookup entry.1 with
  | none => [⟨entry.1, .MIGACTION_DROP_INDEX, []⟩]
  | some index =>
    if entry.2.eq index then []
    else [⟨entry.1, .MIGACTION_DROP_INDEX, []⟩, ⟨entry.1, .MIGACTION_ADD_INDEX, []⟩]

/-- The second one. -/
def newIndexCmds (prev : Loaded) (entry : Sigma fun _ : Str => Index) : List Cmd :=
  match prev.indices.lookup entry.1 with
  | none => [⟨entry.1, .MIGACTION_ADD_INDEX, []⟩]
  | some _ => []

def indexCmds (m : Model) (prev : Loaded) : List Cmd :=
  prev.indices.entries.flatMap m.changedIndexCmds ++ m.indices.entries.flatMap (newIndexCmds prev)

def renameCmd (m : Model) : Cmd :=
  ⟨m.getTableName, .MIGACTION_CHANGE_TABLENAME, m.getDefaultTableName⟩

/-- The block under `if(tablenamePrev.length() == 0)`. -/
def searchTable (conf : Config) (m : Model) (catalog : Catalog) (prev : Loaded) :
    Option (Loaded × List Cmd) :=
  if prev.tableName.length = 0 then do
    let prev ← loadFromDB conf catalog m.getTableName prev
    if prev.fields.length = 0 then
      let prev ← loadFromDB conf catalog m.getDefaultTableName prev
      if prev.fields.length = 0 then some (prev, [⟨[], .MIGACTION_CREATE_TABLE, []⟩])
      else some (prev, [m.renameCmd])
    else some (prev, [])
  else some (prev, [])

/-- The block under `if(fieldsPrev.size() > 0)`. -/
def diffTable (conf : Config) (m : Model) (prev : Loaded) : Option (List Cmd) :=
  if prev.fields.length > 0 then do
    let rename :=
      if prev.tableName.length ≠ 0 ∧ prev.tableName ≠ m.getTableName then [m.renameCmd] else []
    let columns ← allColumnCmds conf prev m.metadata
    some (rename ++ columns ++ m.indexCmds prev)
  else some []

/-- The static members afterwards, to be saved. -/
def recorded (m : Model) (prev : Loaded) : Loaded where
  tableName := m.getTableName
  fields := m.metadata
  indices := m.indices
  nameToIndex := prev.nameToIndex

/-- The commands in the order in which they are added, and the static members
after the call. -/
def AutoMigrate (conf : Config) (fuel : Nat) (file : Option Str) (catalog : Catalog) (m : Model)
    (prev : Loaded) : Option (List Cmd × Loaded) := do
  let prev ← loadFromFile fuel file m.className prev
  let (prev, found) ← m.searchTable conf catalog prev
  let cmds ← m.diffTable conf prev
  some (found ++ cmds, m.recorded prev)

/-! ## migrate -/

def getMetadata (m : Model) (name : Str) : Option FieldMeta :=
  m.metadata[(m.columnToIndex.lookup name).getD 0]?

/-- A missing entry would be created with an indeterminate type. -/
def getIndex (m : Model) (name : Str) : Option Index := m.indices.lookup name

/-- The columns of an index from the second one on. -/
def indexColumnsMore (columns : List Str) : Sql := columns.flatMap fun col => lit ", " ++ word col

def indexColumns : List Str → Sql
  | [] => []
  | col :: columns => word col ++ indexColumnsMore columns

def createColumn (conf : Config) (field : FieldMeta) : Sql :=
  word field.getColumnName ++ lit " " ++ word (field.getColumnType conf) ++
    (if field.isPk then
      lit " PRIMARY KEY" ++ (if field.autoInc then lit " AUTO_INCREMENT" else [])
    else if field.notNull then lit " NOT NULL" else []) ++
    (if field.default_.length > 0 then lit " DEFAULT " ++ word field.default_ else [])

def createColumns (conf : Config) : List FieldMeta → Sql
  | [] => []
  | field :: fields =>
    createColumn conf field ++ fields.flatMap fun field => lit ", " ++ createColumn conf field

def createIndex (entry : Sigma fun _ : Str => Index) : Sql :=
  if entry.1 = PRIMARY then []
  else
    lit ", " ++ (if entry.2.type = .INDEX_TYPE_MUL then lit "INDEX " else lit "UNIQUE ") ++
      word entry.2.name ++ lit "(" ++ indexColumns entry.2.columns ++ lit ")"

def createTable (conf : Config) (m : Model) : Sql :=
  lit "CREATE TABLE " ++ word m.getTableName ++ lit "(" ++ createColumns conf m.metadata ++
    m.indices.entries.flatMap createIndex ++ lit ")"

/-- What follows ADD COLUMN and CHANGE old. -/
def alterColumn (conf : Config) (name : Str) (field : FieldMeta) : Sql :=
  word name ++ lit " " ++ word (field.getColumnType conf) ++
    (if field.notNull then lit " NOT NULL " else []) ++
    (if field.default_.length > 0 then lit " DEFAULT " ++ word field.default_ else []) ++
    word field.extra ++ (if field.autoInc then lit " AUTO_INCREMENT " else [])

def addIndex (name : Str) (index : Index) : Sql :=
  (match index.type with
    | .INDEX_TYPE_MUL => lit "INDEX " ++ word name ++ lit "("
    | .INDEX_TYPE_UNI => lit "UNIQUE " ++ word name ++ lit "("
    | _ => lit "PRIMARY KEY ") ++
  indexColumns index.columns ++ lit ")"

def alterTable (m : Model) : Sql := lit "ALTER TABLE " ++ word m.getTableName

/-- The statement of a command. -/
def statement (conf : Config) (m : Model) (cmd : Cmd) : Option Sql :=
  match cmd.action with
  | .MIGACTION_CHANGE_TABLENAME =>
    some (lit "ALTER TABLE " ++ word cmd.prevTargetName ++ lit " RENAME AS " ++ word cmd.targetName)
  | .MIGACTION_CREATE_TABLE => some (m.createTable conf)
  | .MIGACTION_CHANGE_COLUMN => do
    let field ← m.getMetadata cmd.targetName
    let old := if cmd.prevTargetName.length = 0 then cmd.targetName else cmd.prevTargetName
    some (m.alterTable ++ lit " CHANGE " ++ word old ++ lit " " ++
      alterColumn conf cmd.targetName field)
  | .MIGACTION_ADD_COLUMN => do
    let field ← m.getMetadata cmd.targetName
    some (m.alterTable ++ lit " ADD COLUMN " ++ alterColumn conf cmd.targetName field)
  | .MIGACTION_DROP_INDEX =>
    if cmd.targetName = PRIMARY then some (m.alterTable ++ lit " DROP PRIMARY KEY")
    else some (m.alterTable ++ lit " DROP INDEX " ++ word cmd.targetName)
  | .MIGACTION_ADD_INDEX => do
    let index ← m.getIndex cmd.targetName
    some (m.alterTable ++ lit " ADD " ++ addIndex cmd.targetName index)

end Model

end TinyOrm
