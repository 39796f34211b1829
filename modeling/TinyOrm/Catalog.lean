import TinyOrm.DataLoader
set_option autoImplicit false

/-!
`DataLoader::loadFromDB`: the previous version of a model as information_schema
shows it (dataloader.h, databasemetadata.cpp).
-/

namespace TinyOrm

/-- The columns selected from COLUMNS; NULL is the empty string. -/
structure ColumnRow where
  COLUMN_NAME : Str
  COLUMN_TYPE : Str
  IS_NULLABLE : Str
  COLUMN_DEFAULT : Str
  EXTRA : Str
  deriving DecidableEq, Repr

/-- The columns selected from STATISTICS. -/
structure IndexRow where
  INDEX_NAME : Str
  NON_UNIQUE : Int
  COLUMN_NAME : Str
  deriving DecidableEq, Repr

/-- What the two queries return for a table name, `none` if they are refused. -/
structure Catalog where
  getColumns : Str → Option (List ColumnRow)
  getIndices : Str → Option (List IndexRow)

/-- The catalog of a database without tables. -/
def Catalog.empty : Catalog := ⟨fun _ => some [], fun _ => some []⟩

def FieldMeta.ofRow (conf : Config) (row : ColumnRow) : FieldMeta where
  columnName := some row.COLUMN_NAME
  fieldName := dbToCpp row.COLUMN_NAME false
  columnType := some row.COLUMN_TYPE
  cppType := dbTypeToCppType conf row.COLUMN_TYPE
  notNull := row.IS_NULLABLE = "NO".toList
  default_ := row.COLUMN_DEFAULT
  extra := if row.EXTRA = "auto_increment".toList then [] else row.EXTRA
  autoInc := row.EXTRA = "auto_increment".toList

def PRIMARY : Str := "PRIMARY".toList

namespace Loaded

/-- The loop over the columns; `index` counts from 0 whatever `fields` holds. -/
def addColumnRows (conf : Config) : Nat → List ColumnRow → Loaded → Loaded
  | _, [], out => out
  | index, row :: rows, out =>
    addColumnRows conf (index + 1) rows { out with
      nameToIndex := out.nameToIndex.insert row.COLUMN_NAME index
      fields := out.fields ++ [FieldMeta.ofRow conf row] }

/-- `fields[nameToIndex[name]].isPk = true`; `none` outside of `fields`. -/
def setPk (out : Loaded) (name : Str) : Option Loaded :=
  let out := match out.nameToIndex.lookup name with
    | some _ => out
    | none => { out with nameToIndex := out.nameToIndex.insert name 0 }
  let i := (out.nameToIndex.lookup name).getD 0
  if i < out.fields.length then
    some { out with fields := out.fields.modify i fun field => { field with isPk := true } }
  else none

def addIndexRow (out : Loaded) (row : IndexRow) : Option Loaded :=
  match out.indices.lookup row.INDEX_NAME with
  | some ind =>
    let ind := { ind with columns := ind.columns ++ [row.COLUMN_NAME] }
    some { out with indices := out.indices.insert row.INDEX_NAME ind }
  | none =>
    if row.INDEX_NAME = PRIMARY then do
      let out ← out.setPk row.COLUMN_NAME
      let ind := ⟨.INDEX_TYPE_PRI, row.INDEX_NAME, [row.COLUMN_NAME]⟩
      some { out with indices := out.indices.insert row.INDEX_NAME ind }
    else
      let type := if row.NON_UNIQUE = 1 then .INDEX_TYPE_MUL else .INDEX_TYPE_UNI
      let ind := ⟨type, row.INDEX_NAME, [row.COLUMN_NAME]⟩
      some { out with indices := out.indices.insert row.INDEX_NAME ind }

end Loaded

/-- `loadFromDB` with the outputs as the caller passes them in; `none` when a
query is refused, since the null result is then dereferenced. -/
def loadFromDB (conf : Config) (catalog : Catalog) (tableName : Str) (out : Loaded) :
    Option Loaded := do
  let rows ← catalog.getColumns tableName
  if rows.isEmpty then some out
  else
    let out := out.addColumnRows conf 0 rows
    let indexRows ← catalog.getIndices tableName
    indexRows.foldlM Loaded.addIndexRow out

@[simp] theorem loadFromDB_empty (conf : Config) (tableName : Str) (out : Loaded) :
    loadFromDB conf Catalog.empty tableName out = some out := rfl

end TinyOrm
