import TinyOrm.GeneratorMain
import TinyOrm.GeneratedModel
import TinyOrm.MetadataLookup
import TinyOrm.SnakeNames
set_option autoImplicit false

/-!
The run of the generator (generator/ModelGen.cpp): the loop over the tables, the headers
that it leaves in the directory, and what is read from them.
-/

namespace TinyOrm

namespace ModelGen

/-- The headers that the files hold; `opens`: an `ofstream` on the path is open. -/
structure Disk where
  opens : Str → Bool
  files : Str → Option ModelHeader

namespace Disk

/-- A stream that is not open takes nothing. -/
def write (disk : Disk) (path : Str) (h : ModelHeader) : Disk :=
  if disk.opens path then { disk with files := Function.update disk.files path (some h) } else disk

@[simp] theorem write_opens (disk : Disk) (path : Str) (h : ModelHeader) :
    (disk.write path h).opens = disk.opens := by
  unfold write
  split <;> rfl

theorem write_own {disk : Disk} {path : Str} (hopen : disk.opens path = true) (h : ModelHeader) :
    (disk.write path h).files path = some h := by
  simp [write, hopen]

theorem write_other {disk : Disk} {path p : Str} (hp : disk.opens path = true → path ≠ p)
    (h : ModelHeader) : (disk.write path h).files p = disk.files p := by
  unfold write
  split
  · rename_i hopen
    exact Function.update_of_ne (hp hopen).symm _ _
  · rfl

end Disk

/-- The path that `gen` opens. -/
def path (dir table : Str) : Str := dir ++ "/".toList ++ dbToCpp table false ++ ".h".toList

theorem path_eq_iff {dir table table' : Str} :
    path dir table = path dir table' ↔ dbToCpp table false = dbToCpp table' false := by
  simp [path]

/-- `gen`: `false` for a table without columns, `none` when a query is refused. -/
def genFile (conf : Config) (catalog : Catalog) (dir table : Str) (disk : Disk) :
    Option (Bool × Disk) := do
  let loaded ← loadFromDB conf catalog table {}
  match gen table loaded with
  | none => some (false, disk)
  | some h => some (true, disk.write (path dir table) h)

/-- What is printed, and the files. -/
structure World where
  printed : Str
  disk : Disk

def report (table : Str) (generated : Bool) : Str :=
  "generate model for table ".toList ++ table ++
    (if generated then " --- success\n".toList else " --- failed\n".toList)

/-- One pass of the loop; a null result ends the process there. -/
def genTable (conf : Config) (catalog : Catalog) (dir : Str) (world : World) (table : Str) :
    Except World World :=
  match genFile conf catalog dir table world.disk with
  | none => .error world
  | some (generated, disk) => .ok ⟨world.printed ++ report table generated, disk⟩

inductive Ended where
  | exits (code : Nat) (world : World)
  | throws (what : Str) (disk : Disk)
  | crashes (world : World)

/-- The whole of `main`. `server`: the answers to the queries of a user, with the
password, on a database. -/
def program (conf : Config) (server : Str → Str → Str → Catalog) (argv : List Str) (disk : Disk) :
    Ended :=
  match main argv with
  | .exits code printed => .exits code ⟨printed, disk⟩
  | .throws what => .throws what disk
  | .runs run =>
    match run.tables.foldlM (genTable conf (server run.username run.password run.dbName) run.dir)
      ⟨[], disk⟩ with
    | .error world => .crashes world
    | .ok world => .exits 0 { world with printed := world.printed ++ "done\n".toList }

/-! ## The tables of the server -/

/-- The queries for a listed name find the rows of its table, none if there is none. -/
structure Shows (catalog : Catalog) (tables : Str → Option TableRows) (names : List Str) :
    Prop where
  columns : ∀ name ∈ names, catalog.getColumns name = some ((tables name).elim [] (·.columns))
  indexes : ∀ name ∈ names, catalog.getIndices name = some ((tables name).elim [] (·.indexes))
  table : ∀ name ∈ names, ∀ t ∈ tables name, t.table = name

/-- Names without wildcards find their own tables only. -/
theorem Shows.of_plain {is : InformationSchema} {schema : Str} {names : List Str}
    {tables : Str → Option TableRows} (hschema : Plain schema) (hplain : ∀ name ∈ names, Plain name)
    (hcolumns : ∀ name ∈ names,
      rowsOf is.COLUMNS schema name = (tables name).elim [] (·.columns))
    (hindexes : ∀ name ∈ names,
      rowsOf is.STATISTICS schema name = (tables name).elim [] (·.indexes))
    (htable : ∀ name ∈ names, ∀ t ∈ tables name, t.table = name) :
    Shows (is.catalog schema) tables names where
  columns := by
    intro name hname
    rw [InformationSchema.getColumns_plain hschema (hplain name hname), hcolumns name hname]
  indexes := by
    intro name hname
    rw [InformationSchema.getIndices_plain hschema (hplain name hname), hindexes name hname]
  table := htable

section Loop

variable {catalog : Catalog} {tables : Str → Option TableRows} {name : Str} {names : List Str}
  {dir : Str}

theorem Shows.tail (h : Shows catalog tables (name :: names)) : Shows catalog tables names :=
  ⟨fun n hn => h.columns n (.tail name hn), fun n hn => h.indexes n (.tail name hn),
    fun n hn => h.table n (.tail name hn)⟩

theorem Shows.missing (h : Shows catalog tables names) (hname : name ∈ names)
    (hnone : tables name = none) : loadFromDB rulesJson catalog name {} = some {} := by
  have hcolumns := h.columns name hname
  rw [hnone] at hcolumns
  simp [loadFromDB, hcolumns]

theorem Shows.loadFromDB_eq (h : Shows catalog tables names) {t : TableRows} (ht : t.table ∈ names)
    (hsome : tables t.table = some t) :
    loadFromDB rulesJson catalog t.table {} = loadFromDB rulesJson t.catalog t.table {} := by
  have hcolumns := h.columns t.table ht
  have hindexes := h.indexes t.table ht
  rw [hsome] at hcolumns hindexes
  simp [loadFromDB, hcolumns, hindexes, TableRows.catalog]

end Loop

end ModelGen

namespace TableRows

variable (t : TableRows)

/-- What `loadFromDB` makes of the table. -/
def loaded : Loaded := (loadFromDB rulesJson t.catalog t.table {}).getD {}

variable {t}

theorem loadFromDB_loaded : loadFromDB rulesJson t.catalog t.table {} = some t.loaded := by
  obtain ⟨d, hload, -⟩ := loadFromDB_table (t := t)
  rw [loaded, hload, Option.getD_some]

theorem after_loaded : t.After t.indexes t.loaded := by
  obtain ⟨d, hload, hafter⟩ := loadFromDB_table (t := t)
  rwa [loaded, hload, Option.getD_some]

/-- A migration looks at the table of the model only, if it is there. -/
theorem autoMigrate_catalog {catalog : Catalog} {m : Model} (htable : m.getTableName = t.table)
    (hload : loadFromDB rulesJson catalog t.table {} = some t.loaded) :
    m.AutoMigrate rulesJson 0 none catalog {} = m.AutoMigrate rulesJson 0 none t.catalog {} := by
  have hne := after_loaded.fields_ne_nil (t := t)
  have hsearch : m.searchTable rulesJson catalog {} = m.searchTable rulesJson t.catalog {} := by
    simp [Model.searchTable, htable, hload, loadFromDB_loaded, hne]
  have hfile : loadFromFile 0 none m.className {} = some {} := rfl
  simp only [Model.AutoMigrate, hfile, Option.bind_eq_bind, Option.bind_some, hsearch]

end TableRows

namespace ModelGen

/-! ## The loop -/

section Loop

variable {catalog : Catalog} {tables : Str → Option TableRows} {name : Str} {names : List Str}
  {dir : Str}

theorem genFile_shows (h : Shows catalog tables names) (hname : name ∈ names) (disk : Disk) :
    genFile rulesJson catalog dir name disk = some ((tables name).isSome,
      (tables name).elim disk fun t => disk.write (path dir name) (t.header t.loaded)) := by
  cases htable : tables name with
  | none =>
    rw [genFile, h.missing hname htable]
    rfl
  | some t =>
    obtain rfl : t.table = name := h.table name hname t htable
    have hload := (h.loadFromDB_eq hname htable).trans TableRows.loadFromDB_loaded
    have hgen : gen t.table t.loaded = some (t.header t.loaded) :=
      TableRows.gen_eq TableRows.after_loaded
    simp only [genFile, hload, Option.bind_eq_bind, Option.bind_some, hgen, Option.isSome_some,
      Option.elim_some]

/-- The files after some names. -/
def generated (tables : Str → Option TableRows) (dir : Str) (names : List Str) (disk : Disk) :
    Disk :=
  names.foldl (fun disk name =>
    (tables name).elim disk fun t => disk.write (path dir name) (t.header t.loaded)) disk

@[simp] theorem generated_cons (disk : Disk) : generated tables dir (name :: names) disk =
    generated tables dir names
      ((tables name).elim disk fun t => disk.write (path dir name) (t.header t.loaded)) := rfl

theorem foldlM_genTable (h : Shows catalog tables names) (world : World) :
    names.foldlM (genTable rulesJson catalog dir) world =
      .ok ⟨world.printed ++ names.flatMap fun name => report name (tables name).isSome,
        generated tables dir names world.disk⟩ := by
  induction names generalizing world with
  | nil => simp [generated]; rfl
  | cons name names ih =>
    have hpass : genTable rulesJson catalog dir world name =
        .ok ⟨world.printed ++ report name (tables name).isSome, (tables name).elim world.disk
          fun t => world.disk.write (path dir name) (t.header t.loaded)⟩ := by
      rw [genTable, genFile_shows h (.head names)]
    rw [List.foldlM_cons, hpass]
    exact (ih h.tail _).trans (by simp)

@[simp] theorem elim_opens (disk : Disk) (p : Str) (t : Option TableRows) :
    (t.elim disk fun t => disk.write p (t.header t.loaded)).opens = disk.opens := by
  cases t <;> simp

/-- A file of no listed table is left as it is. -/
theorem generated_other {p : Str} (disk : Disk)
    (h : ∀ name ∈ names, ∀ t ∈ tables name, disk.opens (path dir name) = true → path dir name ≠ p) :
    (generated tables dir names disk).files p = disk.files p := by
  induction names generalizing disk with
  | nil => rfl
  | cons name names ih =>
    rw [generated_cons, ih _ fun n hn t ht => by simpa using h n (.tail name hn) t ht]
    cases htable : tables name with
    | none => rfl
    | some t => exact Disk.write_other (h name (.head names) t htable) _

/-- The file of a listed table holds the header of a listed table with this file. -/
theorem generated_own {t : TableRows} (hname : name ∈ names) (ht : tables name = some t)
    {disk : Disk} (hopen : disk.opens (path dir name) = true) :
    ∃ name' ∈ names, ∃ u ∈ tables name', path dir name' = path dir name ∧
      (generated tables dir names disk).files (path dir name) = some (u.header u.loaded) := by
  induction names generalizing name t disk with
  | nil => cases hname
  | cons first names ih =>
    rw [generated_cons]
    -- The last table with this file is the one that stays.
    by_cases hlater : ∃ name' ∈ names, ∃ u ∈ tables name', path dir name' = path dir name
    · obtain ⟨name', hname', u, hu, hpath⟩ := hlater
      have hopen' : ((tables first).elim disk fun t =>
          disk.write (path dir first) (t.header t.loaded)).opens (path dir name') = true := by
        simpa [hpath] using hopen
      obtain ⟨n, hn, v, hv, hown, hfile⟩ := ih hname' hu hopen'
      rw [hpath] at hown hfile
      exact ⟨n, .tail first hn, v, hv, hown, hfile⟩
    · have hfirst : name = first := by
        rcases List.mem_cons.mp hname with heq | hrest
        · exact heq
        · exact absurd ⟨name, hrest, t, ht, rfl⟩ hlater
      subst hfirst
      have hkept (d : Disk) : (generated tables dir names d).files (path dir name) =
          d.files (path dir name) :=
        generated_other d fun n hn u hu _ hpath => hlater ⟨n, hn, u, hu, hpath⟩
      refine ⟨name, .head names, t, ht, rfl, ?_⟩
      rw [hkept, ht]
      exact Disk.write_own hopen _

end Loop

/-! ## What the files tell -/

/-- The file of the table holds a header that can be read, and every model read from it is
one of this table, has its columns and adds no command for it. -/
def Told (catalog : Catalog) (disk : Disk) (dir : Str) (t : TableRows) : Prop :=
  ∃ h, disk.files (path dir t.table) = some h ∧ (∃ m, h.Reads m) ∧ ∀ m, h.Reads m →
    m.getTableName = t.table ∧
    m.metadata.map FieldMeta.getColumnName = t.columns.map (·.COLUMN_NAME) ∧
    ∃ prev, m.AutoMigrate rulesJson 0 none catalog {} = some ([], prev)

end ModelGen

namespace TableRows

variable {t : TableRows}

/-- A header that tells its table tells no other. -/
theorem table_of_reads {u : TableRows} (hread : ∃ m, (u.header u.loaded).Reads m) {table : Str}
    (hall : ∀ m, (u.header u.loaded).Reads m → m.getTableName = table) : u.table = table := by
  obtain ⟨m, hm⟩ := hread
  obtain ⟨hnames, htypes, hfit, -⟩ := (reads_iff after_loaded m).mp hm
  exact hall _ ((reads_iff after_loaded (u.read u.loaded u.table)).mpr
    ⟨hnames, htypes, hfit, u.table, .inl rfl, rfl⟩)

theorem described_loaded : t.Described ↔ (∃ m, (t.header t.loaded).Reads m) ∧
    ∀ m, (t.header t.loaded).Reads m →
      m.metadata.map FieldMeta.getColumnName = t.columns.map (·.COLUMN_NAME) ∧
      ∃ prev, m.AutoMigrate rulesJson 0 none t.catalog {} = some ([], prev) := by
  constructor
  · intro h
    obtain ⟨d, header, hload, hgen, hread⟩ := h
    obtain rfl := Option.some.inj (loadFromDB_loaded.symm.trans hload)
    obtain rfl := Option.some.inj ((gen_eq after_loaded).symm.trans hgen)
    exact hread
  · intro h
    exact ⟨t.loaded, t.header t.loaded, loadFromDB_loaded, gen_eq after_loaded, h⟩

theorem Printed.getTableName (h : t.Printed) {m : Model} (hm : (t.header t.loaded).Reads m) :
    m.getTableName = t.table := by
  obtain ⟨hnames, -, -, table, htag, rfl⟩ := (reads_iff after_loaded m).mp hm
  rcases htag with heq | ⟨it, hit, htablename, -⟩
  · exact heq
  · obtain ⟨row, hrow, hmember⟩ := registered_member hnames hit
    exact absurd (hmember.symm.trans htablename) (h.members row hrow)

end TableRows

namespace ModelGen

theorem told_iff {catalog : Catalog} {disk : Disk} {dir : Str} {t : TableRows}
    (hfile : disk.files (path dir t.table) = some (t.header t.loaded))
    (hload : loadFromDB rulesJson catalog t.table {} = some t.loaded) :
    Told catalog disk dir t ↔ t.Printed := by
  constructor
  · intro h
    obtain ⟨header, hheader, hread, hall⟩ := h
    obtain rfl := Option.some.inj (hfile.symm.trans hheader)
    refine TableRows.Described.printed (TableRows.described_loaded.mpr ⟨hread, fun m hm => ?_⟩)
    obtain ⟨htable, hcolumns, hnone⟩ := hall m hm
    rw [TableRows.autoMigrate_catalog htable hload] at hnone
    exact ⟨hcolumns, hnone⟩
  · intro h
    obtain ⟨hread, hall⟩ := TableRows.described_loaded.mp h.described
    refine ⟨_, hfile, hread, fun m hm => ?_⟩
    have htable := h.getTableName hm
    rw [TableRows.autoMigrate_catalog htable hload]
    exact ⟨htable, hall m hm⟩

/-- A listed table of the server whose file can be opened. -/
structure Listed (tables : Str → Option TableRows) (run : Run) (disk : Disk) (t : TableRows) :
    Prop where
  listed : t.table ∈ run.tables
  shown : tables t.table = some t
  opens : disk.opens (path run.dir t.table) = true

section Files

variable {catalog : Catalog} {tables : Str → Option TableRows} {run : Run} {disk : Disk}

theorem Listed.file (hshows : Shows catalog tables run.tables) {t : TableRows}
    (h : Listed tables run disk t) : ∃ u, Listed tables run disk u ∧
      dbToCpp u.table false = dbToCpp t.table false ∧
      (generated tables run.dir run.tables disk).files (path run.dir t.table) =
        some (u.header u.loaded) := by
  obtain ⟨name, hname, u, hu, hpath, hfile⟩ := generated_own h.listed h.shown h.opens
  obtain rfl : u.table = name := hshows.table name hname u hu
  exact ⟨u, ⟨hname, hu, by rw [hpath]; exact h.opens⟩, path_eq_iff.mp hpath, hfile⟩

theorem Listed.loadFromDB (hshows : Shows catalog tables run.tables) {t : TableRows}
    (h : Listed tables run disk t) : loadFromDB rulesJson catalog t.table {} = some t.loaded :=
  (hshows.loadFromDB_eq h.listed h.shown).trans TableRows.loadFromDB_loaded

/-- The files tell their tables exactly if the tables can be told by a header and no two of
them have one file. -/
theorem files_told_iff (hshows : Shows catalog tables run.tables) :
    (∀ t, Listed tables run disk t →
        Told catalog (generated tables run.dir run.tables disk) run.dir t) ↔
      (∀ t, Listed tables run disk t → t.Printed) ∧
        ∀ t u, Listed tables run disk t → Listed tables run disk u →
          dbToCpp t.table false = dbToCpp u.table false → t.table = u.table := by
  have hsame {t u : TableRows} (ht : Listed tables run disk t) (hu : Listed tables run disk u)
      (htable : t.table = u.table) : t = u := by
    have hshown := hu.shown
    rw [← htable, ht.shown] at hshown
    exact Option.some.inj hshown
  constructor
  · intro htold
    have hown : ∀ t, Listed tables run disk t →
        (generated tables run.dir run.tables disk).files (path run.dir t.table) =
          some (t.header t.loaded) := by
      intro t ht
      obtain ⟨u, hu, -, hfile⟩ := ht.file hshows
      obtain ⟨h, hfile', hread, hall⟩ := htold t ht
      obtain rfl := Option.some.inj (hfile.symm.trans hfile')
      have htable := TableRows.table_of_reads hread fun m hm => (hall m hm).1
      rwa [hsame hu ht htable] at hfile
    constructor
    · intro t ht
      exact (told_iff (hown t ht) (ht.loadFromDB hshows)).mp (htold t ht)
    · intro t u ht hu hcpp
      have heq : t.header t.loaded = u.header u.loaded := by
        have hfile := hown t ht
        rw [path_eq_iff.mpr hcpp, hown u hu] at hfile
        exact (Option.some.inj hfile).symm
      exact congrArg ModelHeader.tableName heq
  · intro h t ht
    obtain ⟨u, hu, hcpp, hfile⟩ := ht.file hshows
    obtain rfl := hsame hu ht (h.2 u t hu ht hcpp)
    exact (told_iff hfile (ht.loadFromDB hshows)).mpr (h.1 u ht)

/-- Tables with snake names have files of their own. -/
theorem snake_told_iff (hshows : Shows catalog tables run.tables)
    (hsnake : ∀ t, Listed tables run disk t → ∃ name : SnakeName, t.table = name.text) :
    (∀ t, Listed tables run disk t →
        Told catalog (generated tables run.dir run.tables disk) run.dir t) ↔
      ∀ t, Listed tables run disk t → t.Printed := by
  rw [files_told_iff hshows, and_iff_left_iff_imp]
  intro _ t u ht hu hcpp
  obtain ⟨name, hname⟩ := hsnake t ht
  obtain ⟨name', hname'⟩ := hsnake u hu
  rw [hname, hname'] at hcpp ⊢
  exact name.dbToCpp_inj hcpp

end Files

/-- A run of the generator on tables that the queries find ends well. It prints which of the
listed tables exist and writes the files of these only; each file then tells its table
exactly if the tables can be told by a header and no two of them have one file, which no two
tables with snake names have. -/
theorem program_told_iff {server : Str → Str → Str → Catalog} {argv : List Str} {run : Run}
    (hmain : main argv = .runs run) {tables : Str → Option TableRows}
    (hshows : Shows (server run.username run.password run.dbName) tables run.tables)
    (disk : Disk) :
    ∃ disk', program rulesJson server argv disk = .exits 0
        ⟨(run.tables.flatMap fun name => report name (tables name).isSome) ++ "done\n".toList,
          disk'⟩ ∧
      (∀ p, (∀ t, Listed tables run disk t → path run.dir t.table ≠ p) →
        disk'.files p = disk.files p) ∧
      ((∀ t, Listed tables run disk t →
          Told (server run.username run.password run.dbName) disk' run.dir t) ↔
        (∀ t, Listed tables run disk t → t.Printed) ∧
          ∀ t u, Listed tables run disk t → Listed tables run disk u →
            dbToCpp t.table false = dbToCpp u.table false → t.table = u.table) ∧
      ((∀ t, Listed tables run disk t → ∃ name : SnakeName, t.table = name.text) →
        ((∀ t, Listed tables run disk t →
            Told (server run.username run.password run.dbName) disk' run.dir t) ↔
          ∀ t, Listed tables run disk t → t.Printed)) := by
  refine ⟨generated tables run.dir run.tables disk, ?_, ?_, files_told_iff hshows,
    snake_told_iff hshows⟩
  · simp only [program, hmain, foldlM_genTable hshows, List.nil_append]
  · intro p hp
    refine generated_other disk fun name hname t ht hopen hpath => ?_
    obtain rfl := hshows.table name hname t ht
    exact hp t ⟨hname, ht, hopen⟩ hpath

end ModelGen

theorem rowsOf_map {α : Type} (schema table schema' table' : Str) (rows : List α) :
    rowsOf (rows.map fun row => (⟨schema, table, row⟩ : SchemaRow α)) schema' table' =
      if schema = schema' ∧ table = table' then rows else [] := by
  rw [rowsOf, List.filter_map, List.map_map]
  by_cases h : schema = schema' ∧ table = table'
  · simp [h, Function.comp_def]
  · have hnone : ∀ row ∈ rows, ¬ ((fun r : SchemaRow α => r.TABLE_SCHEMA = schema' &&
        r.TABLE_NAME = table') ∘ fun row => ⟨schema, table, row⟩) row = true := by
      simpa using fun _ _ => not_and.mp h
    rw [if_neg h, List.filter_eq_nil_iff.mpr hnone, List.map_nil]

/-- A server with the table only. -/
def TableRows.shownIn (t : TableRows) (schema : Str) : InformationSchema where
  COLUMNS := t.columns.map fun row => ⟨schema, t.table, row⟩
  STATISTICS := t.indexes.map fun row => ⟨schema, t.table, row⟩
  names_nodup := by
    intro schema' table'
    rw [rowsOf_map]
    split
    · exact t.names_nodup
    · exact List.nodup_nil
  index_columns := by
    intro schema' table' row hrow
    rw [rowsOf_map] at hrow ⊢
    split at hrow
    · rename_i h
      rw [if_pos h]
      exact t.index_columns row hrow
    · cases hrow

namespace ModelGen

open TableRows (users)

/-- The options of a run on a table and on a name without one. -/
def usersArgs : List Str :=
  ["ModelGen", "-u", "root", "--password=secret", "-s", "shop", "-d", "out", "-t",
    "users,orders"].map String.toList

def usersRun : Run where
  username := "root".toList
  password := "secret".toList
  dbName := "shop".toList
  dir := "out".toList
  tables := ["users".toList, "orders".toList]

def usersTables (name : Str) : Option TableRows := if name = users.table then some users else none

def emptyDisk : Disk := ⟨fun _ => true, fun _ => none⟩

theorem users_shows :
    Shows ((users.shownIn "shop".toList).catalog "shop".toList) usersTables usersRun.tables :=
  .of_plain (by decide) (by decide) (by decide) (by decide) (by decide)

theorem users_printed : users.Printed where
  names := ⟨by decide, by decide, by decide, by decide, by decide⟩
  members := by decide
  types := by decide
  columns := by decide
  indices := by decide

theorem eq_users {t : TableRows} (h : Listed usersTables usersRun emptyDisk t) : t = users := by
  have hshown := h.shown
  unfold usersTables at hshown
  split at hshown
  · exact (Option.some.inj hshown).symm
  · cases hshown

theorem program_told_iff_users :
    ∃ disk', program rulesJson (fun _ _ db => (users.shownIn "shop".toList).catalog db) usersArgs
        emptyDisk = .exits 0 ⟨("generate model for table users --- success\n" ++
          "generate model for table orders --- failed\ndone\n").toList, disk'⟩ ∧
      disk'.files "out/orders.h".toList = none ∧
      Told ((users.shownIn "shop".toList).catalog "shop".toList) disk' "out".toList users := by
  have hmain : main usersArgs = .runs usersRun := by decide +kernel
  obtain ⟨disk', hrun, hother, -, htold⟩ := @program_told_iff
    (fun _ _ db => (users.shownIn "shop".toList).catalog db) _ _ hmain _ users_shows emptyDisk
  have hsnake : ∀ t, Listed usersTables usersRun emptyDisk t → ∃ name : SnakeName,
      t.table = name.text := by
    intro t ht
    rw [eq_users ht]
    exact ⟨⟨["users".toList], by simp, by decide⟩, rfl⟩
  refine ⟨disk', hrun, hother _ fun t ht => ?_, (htold hsnake).mpr (fun t ht => ?_) users
    ⟨by decide, if_pos rfl, rfl⟩⟩
  · rw [eq_users ht]
    decide
  · rw [eq_users ht]
    exact users_printed

end ModelGen

end TinyOrm
