import TinyOrm.Lib.Parts
import TinyOrm.ObjectHistory
set_option autoImplicit false

/-!
An application: several classes over one database and one metadata file, and what each of
them sees of the calls of `DB::AutoMigrate`.
-/

namespace TinyOrm

open LoadState (loadedOf)

/-! ## The part of a table -/

namespace DataStore

def empty : DataStore := ⟨Database.empty, fun _ => ⟨[], 0⟩⟩

/-- The parts of a store are its tables with their rows. -/
def parts : Parts DataStore Str (Option Table × StoredRows) where
  get w table := (w.db table, w.data table)
  set w table part := ⟨Function.update w.db table part.1, Function.update w.data table part.2⟩
  get_set := by simp
  get_set_of_ne _ _ _ _ hne := by simp [hne]
  set_get := by simp
  set_set := by simp

/-- The store with this table only. -/
def only (w : DataStore) (table : Str) : DataStore := parts.only empty w table

theorem only_db (w : DataStore) (table : Str) : (w.only table).db table = w.db table :=
  congrArg Prod.fst (parts.only_get empty w table)

theorem only_data (w : DataStore) (table : Str) : (w.only table).data table = w.data table :=
  congrArg Prod.snd (parts.only_get empty w table)

theorem columnsOf_only (w : DataStore) (table : Str) :
    columnsOf (w.only table).db table = columnsOf w.db table := by
  funext name
  rw [columnsOf, columnsOf, only_db]

theorem only_update (w : DataStore) (table : Str) (rows : StoredRows) :
    (DataStore.mk w.db (Function.update w.data table rows)).only table =
      ⟨(w.only table).db, Function.update (w.only table).data table rows⟩ := by
  simp [only, Parts.only, parts]

theorem only_update_of_ne (w : DataStore) {table other : Str} (hne : other ≠ table)
    (rows : StoredRows) :
    (DataStore.mk w.db (Function.update w.data table rows)).only other = w.only other := by
  simp [only, Parts.only, parts, hne]

end DataStore

/-- The statement is about this table and leaves it its name. -/
def Ddl.On (table : Str) : Ddl → Prop
  | .createTable t _ _ => t = table
  | .renameTable _ _ => False
  | .addColumn t _ _ => t = table
  | .changeColumn t _ _ _ => t = table
  | .dropIndex t _ => t = table
  | .addIndex t _ => t = table

section Local

variable {rules : ValueRules} {conf : Config} {m : Model}

theorem alter_local (table : Str) (change : Table → Option Table)
    (move : (Str → StoredRows) → Str → StoredRows) (rows : StoredRows → StoredRows)
    (hmove : ∀ data, move data = Function.update data table (rows (data table))) :
    DataStore.parts.Local table fun w =>
      (w.db.alter table change).map fun db => ⟨db, move w.data⟩ := by
  refine ⟨fun part => (part.1.bind change).map fun t => (some t, rows part.2), fun w => ?_⟩
  simp only [Database.alter, DataStore.parts, hmove]
  cases w.db table with
  | none => rfl
  | some t =>
    simp only [Option.bind_eq_bind, Option.bind_some]
    cases change t <;> rfl

/-- A statement stays within its table. -/
theorem ddl_local {ddl : Ddl} {table : Str} (h : ddl.On table) :
    DataStore.parts.Local table fun w =>
      (w.db.apply ddl).map fun db => ⟨db, ddl.move rules w.data⟩ := by
  have hsame (data : Str → StoredRows) : data = Function.update data table (data table) := by simp
  cases ddl with
  | createTable t columns keys =>
    obtain rfl : t = table := h
    refine ⟨fun part => if part.1.isSome then none else some (some
      { columns := fun name => columns.lookup name, indices := createdIndices columns keys },
      ⟨[], 0⟩), fun w => ?_⟩
    simp only [Database.apply, DataStore.parts]
    by_cases hsome : (w.db t).isSome = true
    · simp [hsome]
    · simp [hsome, Ddl.move]
  | renameTable old new => exact h.elim
  | addColumn t name col =>
    obtain rfl : t = table := h
    exact alter_local t _ _ _ fun _ => rfl
  | changeColumn t old name col =>
    obtain rfl : t = table := h
    exact alter_local t _ _ _ fun _ => rfl
  | dropIndex t name =>
    obtain rfl : t = table := h
    exact alter_local t _ _ id hsame
  | addIndex t key =>
    obtain rfl : t = table := h
    exact alter_local t _ _ id hsame

theorem readAlter_on {table : Str} {k : Keyword} {toks : List DdlTok} (hk : k ≠ .RENAME) {ddl : Ddl}
    (h : readAlter table (.kw k :: toks) = some ddl) : ddl.On table := by
  unfold readAlter at h
  split at h
  case h_1 => simp_all
  all_goals
    first
    | split at h
      · obtain rfl := Option.some.inj h
        rfl
      · cases h
    | obtain rfl := Option.some.inj h
      rfl
    | cases h

theorem readDdl_alter (hT : m.getTableName ≠ []) {k : Keyword} (hk : k ≠ .RENAME) {sql rest : Sql}
    (hlex : lexDdl .none sql = .kw k :: lexDdl .none rest) {ddl : Ddl}
    (h : readDdl (m.alterTable ++ (lit " " ++ sql)) = some ddl) : ddl.On m.getTableName := by
  rw [readDdl, lexDdl_alterTable hT, hlex] at h
  exact readAlter_on hk h

/-- A statement of a model is about its table. -/
theorem statement_on (hT : m.getTableName ≠ []) {cmd : Cmd}
    (hcmd : cmd.action ≠ .MIGACTION_CHANGE_TABLENAME) {sql : Sql}
    (hsql : m.statement conf cmd = some sql) {ddl : Ddl} (hddl : readDdl sql = some ddl) :
    ddl.On m.getTableName := by
  obtain ⟨name, action, p⟩ := cmd
  cases action with
  | MIGACTION_CHANGE_TABLENAME => exact absurd rfl hcmd
  | MIGACTION_CREATE_TABLE =>
    obtain rfl : m.createTable conf = sql := Option.some.inj hsql
    have htext : m.createTable conf = lit "CREATE TABLE " ++ (word m.getTableName ++ (lit "(" ++
        (Model.createColumns conf m.metadata ++ (m.indices.entries.flatMap Model.createIndex ++
          lit ")")))) := by simp only [Model.createTable, List.append_assoc]
    have hcreate (rest : Sql) : lexDdl .none (lit "CREATE TABLE " ++ rest) =
        .kw .CREATE :: .kw .TABLE :: lexDdl .none rest := rfl
    have hopen (rest : Sql) : lexDdl (.given m.getTableName) (lit "(" ++ rest) =
        .name m.getTableName :: .lpar :: lexDdl .none rest := rfl
    rw [htext, readDdl, hcreate, lexDdl_word hT, hopen] at hddl
    obtain ⟨parts, -, heq⟩ := Option.bind_eq_some_iff.mp hddl
    obtain rfl := Option.some.inj heq
    rfl
  | MIGACTION_DROP_INDEX =>
    obtain ⟨key, rfl⟩ := readDdl_dropIndex hT hsql hddl
    rfl
  | MIGACTION_ADD_INDEX =>
    obtain ⟨index, -, heq⟩ := Option.bind_eq_some_iff.mp hsql
    have hadd (rest : Sql) :
        lexDdl .none (lit "ADD " ++ rest) = .kw .ADD :: lexDdl .none rest := rfl
    have htext : sql = m.alterTable ++ (lit " " ++ (lit "ADD " ++ Model.addIndex name index)) := by
      rw [← Option.some.inj heq, List.append_assoc]
      rfl
    rw [htext] at hddl
    exact readDdl_alter hT (by decide) (hadd _) hddl
  | MIGACTION_ADD_COLUMN =>
    obtain ⟨field, -, heq⟩ := Option.bind_eq_some_iff.mp hsql
    have hadd (rest : Sql) : lexDdl .none (lit "ADD COLUMN " ++ rest) =
        .kw .ADD :: lexDdl .none (lit "COLUMN " ++ rest) := rfl
    have htext : sql = m.alterTable ++ (lit " " ++ (lit "ADD COLUMN " ++
        Model.alterColumn conf name field)) := by
      rw [← Option.some.inj heq, List.append_assoc]
      rfl
    rw [htext] at hddl
    exact readDdl_alter hT (by decide) (hadd _) hddl
  | MIGACTION_CHANGE_COLUMN =>
    obtain ⟨field, -, heq⟩ := Option.bind_eq_some_iff.mp hsql
    have hchange (rest : Sql) : lexDdl .none (lit "CHANGE " ++ rest) =
        .kw .CHANGE :: lexDdl .none rest := rfl
    obtain ⟨rest, htext⟩ : ∃ rest, sql = m.alterTable ++ (lit " " ++ (lit "CHANGE " ++ rest)) := by
      rw [← Option.some.inj heq]
      simp only [List.append_assoc]
      exact ⟨_, rfl⟩
    rw [htext] at hddl
    exact readDdl_alter hT (by decide) (hchange _) hddl

/-- Commands that keep the name of the table leave the other tables alone. -/
theorem migrateData_local (hT : m.getTableName ≠ []) {cmds : List Cmd}
    (hcmds : ∀ cmd ∈ cmds, cmd.action ≠ .MIGACTION_CHANGE_TABLENAME) :
    DataStore.parts.Local m.getTableName fun w => m.migrateData rules conf w cmds := by
  refine Parts.Local.foldlM fun cmd hcmd => ?_
  cases hsql : m.statement conf cmd with
  | none => exact ⟨fun _ => none, fun _ => rfl⟩
  | some sql =>
    refine Parts.Local.getD ?_
    cases hddl : readDdl sql with
    | none =>
      refine ⟨fun _ => none, fun w => ?_⟩
      show w.execute rules sql = none
      rw [DataStore.execute, hddl]
      rfl
    | some ddl =>
      have hon := statement_on hT (hcmds cmd hcmd) hsql hddl
      obtain ⟨act, hact⟩ : DataStore.parts.Local m.getTableName fun w =>
          (w.db.apply ddl).map fun db => ⟨db, ddl.move rules w.data⟩ := ddl_local hon
      refine ⟨act, fun w => ?_⟩
      show w.execute rules sql = _
      rw [← hact, DataStore.execute, hddl]
      simp only [Option.bind_eq_bind, Option.bind_some]
      cases w.db.apply ddl <;> rfl

end Local

/-! ## Applications -/

/-- The classes of an application. No table is called like another one or as another class
would be by default. -/
structure Classes (I : Type) where
  className : I → Str
  tableName : I → Str
  classes : Function.Injective className
  tables : Function.Injective tableName
  named : ∀ i, tableName i ≠ []
  apart : ∀ i j, cppToDb (className i) = tableName j → i = j

/-- The metadata file and the database are one for all classes; each has its last version,
the columns of its table in their order, and its `Model` object. -/
structure Application (I : Type) where
  file : Option Str
  store : DataStore
  last : I → Option Model
  order : I → List Str
  client : I → Option Model

/-- A class in a call of `AutoMigrate`: its version, and the table that it is left. -/
structure Release (I : Type) where
  cls : I
  model : Model
  srv : TableServer

/-- `doMigrate` for one class after the other, with what is to be saved for it. The lookup
of a class without a table finds nothing. -/
inductive Turns {I : Type} (rules : ValueRules) (conf : Config) (file : Option Str) :
    DataStore → List (Release I) → List SavedModel → DataStore → Prop
  | nil (w : DataStore) : Turns rules conf file w [] [] w
  | cons {w w' w'' : DataStore} {r : Release I} {rs : List (Release I)} {saved : List SavedModel}
      {fuel : Nat} {catalog : Catalog} {cmds sorted : List Cmd} {prev : Loaded}
      (hcatalog : w.db r.model.getTableName = none → w.db r.model.getDefaultTableName = none →
        catalog.getColumns r.model.getTableName = some [] ∧
          catalog.getColumns r.model.getDefaultTableName = some [])
      (hmigrate : r.model.AutoMigrate conf fuel file catalog {} = some (cmds, prev))
      (hsort : SortedFrom cmds sorted) (hstore : r.model.migrateData rules conf w sorted = some w')
      (hrest : Turns rules conf file w' rs saved w'') :
      Turns rules conf file w (r :: rs) (prev.saved r.model.className :: saved) w''

/-- A new process calls `DB::AutoMigrate` with some classes, a class gets a new `Model` object,
or the one in use serves a request. -/
inductive AppDoing (I : Type) where
  | call (rs : List (Release I))
  | model (i : I)
  | request (i : I) (req : List Call × Op) (answer : Answer)

section Application

variable {I : Type} [DecidableEq I]

def released (rs : List (Release I)) (i : I) : Option Model :=
  (rs.find? (·.cls = i)).map Release.model

inductive AppStep (rules : ValueRules) (conf : Config) (c : Classes I) :
    Application I → AppDoing I → Application I → Prop
  | call {a : Application I} {rs : List (Release I)} {saved : List SavedModel} {store : DataStore}
      {file : Str} {order : I → List Str} (hdistinct : (rs.map Release.cls).Nodup)
      (hversions : ∀ r ∈ rs, IsVersion (c.className r.cls) (c.tableName r.cls) r.model)
      (hturns : Turns rules conf a.file a.store rs saved store)
      (hsave : saveAll conf [] saved = some file)
      (horder : ∀ r ∈ rs, ∀ col, col ∈ order r.cls ↔
        (columnsOf store.db (c.tableName r.cls) col).isSome)
      (hkept : ∀ i ∉ rs.map Release.cls, order i = a.order i)
      (hsrv : ∀ r ∈ rs, rules.server (c.tableName r.cls) (order r.cls)
        (columnsOf store.db (c.tableName r.cls)) = r.srv) :
      AppStep rules conf c a (.call rs) ⟨some file, store, fun i => (released rs i).or (a.last i),
        order, fun i => (released rs i).or (a.client i)⟩
  | model {a : Application I} {i : I} : AppStep rules conf c a (.model i)
      { a with client := Function.update a.client i (a.last i) }
  | request {a : Application I} {i : I} {m m' : Model} {rows : StoredRows}
      {req : List Call × Op} {answer : Answer} (hclient : a.client i = some m)
      (hserve : (rules.server (c.tableName i) (a.order i)
        (columnsOf a.store.db (c.tableName i))).step (m, a.store.data (c.tableName i)) req =
          some ((m', rows), answer)) :
      AppStep rules conf c a (.request i req answer)
        { a with
          store := ⟨a.store.db, Function.update a.store.data (c.tableName i) rows⟩
          client := Function.update a.client i (some m') }

/-! ## What a class sees -/

/-- What the doing is for a class. -/
def AppDoing.own (i : I) : AppDoing I → List Doing
  | .call rs => ((rs.find? (·.cls = i)).map fun r => .version r.model r.srv).toList
  | .model j => if j = i then [.model] else []
  | .request j req answer => if j = i then [.request req answer] else []

namespace Application

def init : Application I := ⟨none, DataStore.empty, fun _ => none, fun _ => [], fun _ => none⟩

/-- The world of a class: the record of its last version in the file, and its table. -/
def view (conf : Config) (c : Classes I) (a : Application I) (i : I) : World where
  file := (a.last i).bind fun m => saveAll conf [] [m.saved]
  store := a.store.only (c.tableName i)
  last := a.last i
  order := a.order i
  client := a.client i

omit [DecidableEq I] in
theorem view_init (conf : Config) (c : Classes I) (i : I) : init.view conf c i = World.init := by
  have hstore : DataStore.empty.only (c.tableName i) = DataStore.empty :=
    DataStore.parts.set_get DataStore.empty (c.tableName i)
  rw [view, init, hstore]
  rfl

end Application

/-- A call is for all classes; each class admits what is its own. -/
structure Admitted (rules : ValueRules) (conf : Config) (c : Classes I) (a : Application I)
    (l : AppDoing I) : Prop where
  all : ∀ rs, l = .call rs → ∀ i, i ∈ rs.map Release.cls
  own : ∀ i, ∀ d ∈ l.own i, Admits rules conf (c.tableName i) (a.view conf c i) d

def AdmittedAppStep (rules : ValueRules) (conf : Config) (c : Classes I) (a : Application I)
    (l : AppDoing I) (a' : Application I) : Prop :=
  Admitted rules conf c a l ∧ AppStep rules conf c a l a'

end Application

/-! ## A turn -/

section Turn

variable {conf : Config} {className tableName : Str} {file : Option Str} {db : Database}
  {last : Option Model} {m : Model}

/-- The commands of a version, and what is recorded of it. -/
def turnCmds (conf : Config) (last : Option Model) (m : Model) : Option (List Cmd × Loaded) :=
  match last with
  | none => some ([⟨[], .MIGACTION_CREATE_TABLE, []⟩], m.recorded {})
  | some prev =>
    if prev.metadata = [] then some ([], m.recorded (loadedOf conf prev.saved))
    else (Model.allColumnCmds conf (loadedOf conf prev.saved) m.metadata).map fun cmds =>
      (cmds ++ m.indexCmds (loadedOf conf prev.saved), m.recorded (loadedOf conf prev.saved))

/-- The file has the record of the last version, or there is neither a file nor a table. -/
def Meets (conf : Config) (className tableName : Str) (file : Option Str) (db : Database)
    (last : Option Model) : Prop :=
  match last with
  | none => file = none ∧ db tableName = none
  | some prev => IsVersion className tableName prev ∧ prev.saved.Storable conf ∧
      ∃ f, file = some f ∧ Loads f className (loadedOf conf prev.saved)

theorem Meets.congr (h : Meets conf className tableName file db last) {db' : Database}
    (hsame : db' tableName = db tableName) : Meets conf className tableName file db' last := by
  unfold Meets at h ⊢
  rwa [hsame]

/-- The record alone is as good as the file. -/
theorem Meets.own (h : Meets conf className tableName file db last) :
    Meets conf className tableName (last.bind fun prev => saveAll conf [] [prev.saved]) db
      last := by
  cases last with
  | none => exact ⟨rfl, h.2⟩
  | some prev =>
    obtain ⟨hp, hstorable, -⟩ := h
    have hload := loads_saved (m := prev) rfl hstorable
    rw [hp.className] at hload
    exact ⟨hp, hstorable, _, saveAll_eq [prev.saved] (by simpa using hstorable) [], hload⟩

/-- Whatever else is in the file, a version gets the same commands. -/
theorem Meets.turnCmds_eq (h : Meets conf className tableName file db last)
    (hm : IsVersion className tableName m) {fuel : Nat} {catalog : Catalog}
    (hcatalog : last = none → catalog.getColumns m.getTableName = some [] ∧
      catalog.getColumns m.getDefaultTableName = some []) {out : List Cmd × Loaded}
    (hmigrate : m.AutoMigrate conf fuel file catalog {} = some out) :
    turnCmds conf last m = some out := by
  cases last with
  | none =>
    obtain ⟨rfl, -⟩ := h
    obtain ⟨htable, hdefault⟩ := hcatalog rfl
    have hfirst : m.AutoMigrate conf fuel none catalog {} =
        some ([⟨[], .MIGACTION_CREATE_TABLE, []⟩], m.recorded {}) := by
      have hfile : loadFromFile fuel none m.className {} = some {} := rfl
      have hsearch : m.searchTable conf catalog {} =
          some ({}, [⟨[], .MIGACTION_CREATE_TABLE, []⟩]) := by
        simp [Model.searchTable, loadFromDB, htable, hdefault]
      simp only [Model.AutoMigrate, hfile, hsearch, Option.bind_eq_bind, Option.bind_some]
      rfl
    exact hfirst.symm.trans hmigrate
  | some prev =>
    obtain ⟨hp, hstorable, f, rfl, hloads⟩ := h
    obtain ⟨loaded, hload, -⟩ := Option.bind_eq_some_iff.mp hmigrate
    rw [← hm.className] at hloads
    obtain rfl := hloads.unique hload
    rw [autoMigrate_later hp hm hstorable (loadedOf_describes hstorable) hload] at hmigrate
    exact hmigrate

theorem Meets.exists_fuel (h : Meets conf className tableName file db last)
    (hm : IsVersion className tableName m) :
    ∃ fuel, m.AutoMigrate conf fuel file Catalog.empty {} = turnCmds conf last m := by
  cases last with
  | none =>
    obtain ⟨rfl, -⟩ := h
    exact ⟨0, rfl⟩
  | some prev =>
    obtain ⟨hp, hstorable, f, rfl, hloads⟩ := h
    rw [← hm.className] at hloads
    obtain ⟨n, hn⟩ := hloads
    exact ⟨n, autoMigrate_later hp hm hstorable (loadedOf_describes hstorable)
      (hn n (Nat.le_refl n)) Catalog.empty⟩

/-- No table is renamed, and the version itself is recorded. -/
theorem turnCmds_keeps {cmds : List Cmd} {prev : Loaded}
    (h : turnCmds conf last m = some (cmds, prev)) : prev.saved m.className = m.saved ∧
      ∀ cmd ∈ cmds, cmd.action ≠ .MIGACTION_CHANGE_TABLENAME := by
  cases last with
  | none =>
    obtain ⟨rfl, rfl⟩ := Prod.mk.inj (Option.some.inj h)
    exact ⟨rfl, by simp⟩
  | some last =>
    rw [turnCmds] at h
    split at h
    · obtain ⟨rfl, rfl⟩ := Prod.mk.inj (Option.some.inj h)
      exact ⟨rfl, by simp⟩
    · obtain ⟨columns, hcolumns, heq⟩ := Option.map_eq_some_iff.mp h
      obtain ⟨rfl, rfl⟩ := Prod.mk.inj heq
      refine ⟨rfl, fun cmd hcmd hrename => ?_⟩
      rcases List.mem_append.mp hcmd with hcmd | hcmd
      · rcases (Model.allColumnCmds_target hcolumns cmd hcmd).2 with haction | haction
        · rw [haction] at hrename
          cases hrename
        · rw [haction] at hrename
          cases hrename
      · have hindex := indexCmds_isIndex m _ cmd hcmd
        rw [Cmd.isIndex, hrename] at hindex
        cases hindex

end Turn

/-! ## The turns of a call -/

section Turns

variable {I : Type} {rules : ValueRules} {conf : Config} {c : Classes I} {file : Option Str}
  {last : I → Option Model}

/-- There are no tables but those of the classes. -/
def Confined (c : Classes I) (db : Database) : Prop :=
  ∀ name, (∀ i, c.tableName i ≠ name) → db name = none

theorem Confined.update {w w' : DataStore} (h : Confined c w.db) {i : I}
    (hother : ∀ name, name ≠ c.tableName i → w'.db name = w.db name) : Confined c w'.db := by
  intro name hname
  rw [hother name (hname i).symm]
  exact h name hname

/-- A class without a table has none under its default name either. -/
theorem Confined.default {db : Database} (h : Confined c db) {i : I} {m : Model}
    (hm : IsVersion (c.className i) (c.tableName i) m) (hnone : db (c.tableName i) = none) :
    db m.getTableName = none ∧ db m.getDefaultTableName = none := by
  have hname : m.getDefaultTableName = cppToDb (c.className i) := by
    rw [Model.getDefaultTableName, hm.className]
  rw [hm.tableName, hname]
  refine ⟨hnone, ?_⟩
  by_cases hother : ∃ j, c.tableName j = cppToDb (c.className i)
  · obtain ⟨j, hj⟩ := hother
    obtain rfl := c.apart i j hj.symm
    rwa [← hj]
  · exact h _ fun j hj => hother ⟨j, hj⟩

/-- One version is migrated to on its table alone. -/
def MigratesAlone (rules : ValueRules) (conf : Config) (last : Option Model) (m : Model)
    (part part' : DataStore) : Prop :=
  ∃ cmds prev sorted, turnCmds conf last m = some (cmds, prev) ∧ SortedFrom cmds sorted ∧
    m.migrateData rules conf part sorted = some part'

theorem turn_local {className tableName : Str} {last : Option Model} {m : Model}
    (hm : IsVersion className tableName m) (hT : tableName ≠ []) {cmds sorted : List Cmd}
    {prev : Loaded} (hcmds : turnCmds conf last m = some (cmds, prev))
    (hsort : SortedFrom cmds sorted) :
    DataStore.parts.Local tableName fun w => m.migrateData rules conf w sorted := by
  obtain rfl := hm.tableName
  exact migrateData_local hT fun cmd hcmd =>
    (turnCmds_keeps hcmds).2 cmd (hsort.perm.mem_iff.mp hcmd)

/-- Every class of a call gets its table migrated as if there were no other. -/
theorem Turns.parts {w w' : DataStore} {rs : List (Release I)} {saved : List SavedModel}
    (h : Turns rules conf file w rs saved w') (hdistinct : (rs.map Release.cls).Nodup)
    (hversions : ∀ r ∈ rs, IsVersion (c.className r.cls) (c.tableName r.cls) r.model)
    (hconfined : Confined c w.db)
    (hmeets : ∀ r ∈ rs, Meets conf (c.className r.cls) (c.tableName r.cls) file w.db
      (last r.cls)) :
    Confined c w'.db ∧ saved = rs.map (·.model.saved) ∧
      (∀ i ∉ rs.map Release.cls,
        DataStore.parts.get w' (c.tableName i) = DataStore.parts.get w (c.tableName i)) ∧
      ∀ r ∈ rs, MigratesAlone rules conf (last r.cls) r.model (w.only (c.tableName r.cls))
        (w'.only (c.tableName r.cls)) := by
  induction h with
  | nil w => exact ⟨hconfined, rfl, fun _ _ => rfl, fun _ h => nomatch h⟩
  | @cons w w₁ w' r rs saved fuel catalog cmds sorted prev hcatalog hmigrate hsort hstore hrest
    ih =>
    rw [List.map_cons, List.nodup_cons] at hdistinct
    obtain ⟨hnew, hdistinct⟩ := hdistinct
    have hm := hversions r List.mem_cons_self
    have hcmds : turnCmds conf (last r.cls) r.model = some (cmds, prev) := by
      have hmeet := hmeets r List.mem_cons_self
      refine hmeet.turnCmds_eq hm (fun hlast => ?_) hmigrate
      rw [hlast] at hmeet
      obtain ⟨htable, hdefault⟩ := hconfined.default hm hmeet.2
      exact hcatalog htable hdefault
    have hlocal : DataStore.parts.Local (c.tableName r.cls) fun w =>
        r.model.migrateData rules conf w sorted := turn_local hm (c.named r.cls) hcmds hsort
    have hother (name : Str) (hname : name ≠ c.tableName r.cls) :
        DataStore.parts.get w₁ name = DataStore.parts.get w name := hlocal.other hstore hname
    have hconfined₁ : Confined c w₁.db :=
      hconfined.update fun name hname => congrArg Prod.fst (hother name hname)
    have hne (j : I) (hj : j ≠ r.cls) : c.tableName j ≠ c.tableName r.cls :=
      fun heq => hj (c.tables heq)
    have hmember (q : Release I) (hq : q ∈ rs) : q.cls ≠ r.cls :=
      fun heq => hnew (heq ▸ List.mem_map_of_mem hq)
    have hmeets₁ : ∀ q ∈ rs, Meets conf (c.className q.cls) (c.tableName q.cls) file w₁.db
        (last q.cls) := by
      intro q hq
      have hsame : w₁.db (c.tableName q.cls) = w.db (c.tableName q.cls) :=
        congrArg Prod.fst (hother _ (hne _ (hmember q hq)))
      exact (hmeets q (List.mem_cons_of_mem r hq)).congr hsame
    obtain ⟨hconfined', hsaved, hkept, hmigrates⟩ := ih hdistinct
      (fun q hq => hversions q (List.mem_cons_of_mem r hq)) hconfined₁ hmeets₁
    refine ⟨hconfined', ?_, fun i hi => ?_, List.forall_mem_cons.mpr ⟨?_, fun q hq => ?_⟩⟩
    · rw [hsaved, (turnCmds_keeps hcmds).1]
      rfl
    · rw [List.map_cons, List.mem_cons, not_or] at hi
      rw [hkept i hi.2, hother _ (hne i hi.1)]
    · refine ⟨cmds, prev, sorted, hcmds, hsort, ?_⟩
      have hown := hlocal.only DataStore.empty w
      have hsame : w'.only (c.tableName r.cls) = w₁.only (c.tableName r.cls) :=
        DataStore.parts.only_congr (hkept r.cls hnew)
      rw [hsame]
      exact hown.trans (congrArg (Option.map _) hstore)
    · have hsame : w₁.only (c.tableName q.cls) = w.only (c.tableName q.cls) :=
        DataStore.parts.only_congr (hother _ (hne _ (hmember q hq)))
      rw [← hsame]
      exact hmigrates q hq

/-- Whatever the tables come to one by one, they come to in a call. -/
theorem exists_turns {w : DataStore} {is : List I} {models : I → Model} {stores : I → DataStore}
    (hdistinct : is.Nodup)
    (hversions : ∀ i ∈ is, IsVersion (c.className i) (c.tableName i) (models i))
    (hmeets : ∀ i ∈ is, Meets conf (c.className i) (c.tableName i) file w.db (last i))
    (hmigrates : ∀ i ∈ is, MigratesAlone rules conf (last i) (models i) (w.only (c.tableName i))
      (stores i)) :
    ∃ w', (∀ srv : I → TableServer, Turns rules conf file w
        (is.map fun i => ⟨i, models i, srv i⟩) (is.map fun i => (models i).saved) w') ∧
      (∀ name, (∀ i ∈ is, c.tableName i ≠ name) →
        DataStore.parts.get w' name = DataStore.parts.get w name) ∧
      ∀ i ∈ is, w'.only (c.tableName i) = stores i := by
  induction is generalizing w with
  | nil => exact ⟨w, fun _ => .nil w, fun _ _ => rfl, fun _ h => nomatch h⟩
  | cons i is ih =>
    obtain ⟨hnew, hdistinct⟩ := List.nodup_cons.mp hdistinct
    have hm := hversions i List.mem_cons_self
    obtain ⟨cmds, prev, sorted, hcmds, hsort, hown⟩ := hmigrates i List.mem_cons_self
    obtain ⟨fuel, hmigrate⟩ := (hmeets i List.mem_cons_self).exists_fuel hm
    have hlocal : DataStore.parts.Local (c.tableName i) fun w =>
        (models i).migrateData rules conf w sorted := turn_local hm (c.named i) hcmds hsort
    have honly := (hlocal.only DataStore.empty w).symm.trans hown
    obtain ⟨w₁, hstore, hstores⟩ := Option.map_eq_some_iff.mp honly
    have hother (name : Str) (hname : name ≠ c.tableName i) :
        DataStore.parts.get w₁ name = DataStore.parts.get w name := hlocal.other hstore hname
    have hne (j : I) (hj : j ∈ is) : c.tableName j ≠ c.tableName i :=
      fun heq => hnew (c.tables heq ▸ hj)
    have hmeets₁ : ∀ j ∈ is, Meets conf (c.className j) (c.tableName j) file w₁.db (last j) := by
      intro j hj
      have hsame : w₁.db (c.tableName j) = w.db (c.tableName j) :=
        congrArg Prod.fst (hother _ (hne j hj))
      exact (hmeets j (List.mem_cons_of_mem i hj)).congr hsame
    have hmigrates₁ : ∀ j ∈ is, MigratesAlone rules conf (last j) (models j)
        (w₁.only (c.tableName j)) (stores j) := by
      intro j hj
      have hsame : w₁.only (c.tableName j) = w.only (c.tableName j) :=
        DataStore.parts.only_congr (hother _ (hne j hj))
      rw [hsame]
      exact hmigrates j (List.mem_cons_of_mem i hj)
    obtain ⟨w', hturns, hkept, hrest⟩ := ih hdistinct
      (fun j hj => hversions j (List.mem_cons_of_mem i hj)) hmeets₁ hmigrates₁
    have hcatalog (table : Str) : Catalog.empty.getColumns table = some [] := rfl
    refine ⟨w', fun srv => ?_, fun name hname => ?_, List.forall_mem_cons.mpr ⟨?_, hrest⟩⟩
    · have hturn := Turns.cons (r := ⟨i, models i, srv i⟩) (fun _ _ => ⟨hcatalog _, hcatalog _⟩)
        (hmigrate.trans hcmds) hsort hstore (hturns srv)
      rwa [(turnCmds_keeps hcmds).1] at hturn
    · rw [hkept name fun j hj => hname j (List.mem_cons_of_mem i hj),
        hother name (hname i List.mem_cons_self).symm]
    · have hsame : w'.only (c.tableName i) = w₁.only (c.tableName i) :=
        DataStore.parts.only_congr (hkept _ hne)
      rw [hsame]
      exact hstores

end Turns

/-! ## What every step keeps -/

section Steps

variable {I : Type} {rules : ValueRules} {conf : Config} {c : Classes I} {a a' : Application I}
  {className tableName : Str}

/-- The file has the records of the last versions of all classes, one after another. -/
def Filed (conf : Config) (a : Application I) : Prop :=
  (a.file = none ∧ ∀ i, a.last i = none) ∨
    ∃ (is : List I) (models : I → Model), is.Nodup ∧ (∀ i, i ∈ is) ∧
      (∀ i, a.last i = some (models i)) ∧ a.file.isSome ∧
      saveAll conf [] (is.map fun i => (models i).saved) = a.file

structure AppInv (conf : Config) (c : Classes I) (a : Application I) : Prop where
  filed : Filed conf a
  confined : Confined c a.store.db
  inv : ∀ i, Inv conf (c.className i) (c.tableName i) (a.view conf c i).history

theorem AppInv.init : AppInv conf c Application.init where
  filed := .inl ⟨rfl, fun _ => rfl⟩
  confined _ _ := rfl
  inv i := by
    rw [Application.view_init]
    exact inv_init

/-- Where each class can be migrated, each finds its record. -/
theorem AppInv.meets (h : AppInv conf c a)
    (hmig : ∀ i, ∃ m, Migratable conf (c.tableName i) (a.view conf c i).history m) (i : I) :
    Meets conf (c.className i) (c.tableName i) a.file a.store.db (a.last i) := by
  have hinv (j : I) : match a.last j with
      | none => (a.store.only (c.tableName j)).db = Database.empty
      | some prev => IsVersion (c.className j) (c.tableName j) prev := by
    have hj : match a.last j with
        | none => _ ∧ (a.store.only (c.tableName j)).db = Database.empty
        | some prev => Behind conf _ _ (a.view conf c j).history prev := h.inv j
    cases hlast : a.last j with
    | none =>
      rw [hlast] at hj
      exact hj.2
    | some prev =>
      rw [hlast] at hj
      exact hj.version
  rcases h.filed with ⟨hfile, hnone⟩ | ⟨is, models, hdistinct, hall, hlast, -, hsave⟩
  · have hi := hinv i
    rw [hnone i] at hi ⊢
    refine ⟨hfile, ?_⟩
    rw [← DataStore.only_db, hi]
    rfl
  · have hversion (j : I) : IsVersion (c.className j) (c.tableName j) (models j) := by
      have hj := hinv j
      rwa [hlast j] at hj
    have hstorable (j : I) : (models j).saved.Storable conf := by
      obtain ⟨m, -, hm⟩ := hmig j
      have hview : (a.view conf c j).history.last = some (models j) := hlast j
      rw [hview] at hm
      exact hm.storable
    have hok : ∀ s ∈ is.map fun j => (models j).saved, s.Storable conf := by
      simpa using fun j _ => hstorable j
    have hnames : ((is.map fun j => (models j).saved).map SavedModel.className).Nodup := by
      rw [List.map_map]
      refine hdistinct.map fun j k heq => c.classes ?_
      rw [← (hversion j).className, ← (hversion k).className]
      exact heq
    have hfind := find_className hnames (List.mem_map_of_mem (hall i))
    have hload := loads_fileBytes (is.map fun j => (models j).saved) hok (c.className i)
    rw [← (hversion i).className] at hload
    rw [show (models i).className = (models i).saved.className from rfl, hfind] at hload
    rw [saveAll_eq _ hok, List.nil_append] at hsave
    rw [hlast i]
    refine ⟨hversion i, hstorable i, _, hsave.symm, ?_⟩
    rw [← (hversion i).className]
    exact hload

theorem saveAll_member {models : List SavedModel} {file out : Str}
    (h : saveAll conf file models = some out) {s : SavedModel} (hs : s ∈ models) :
    (saveAll conf [] [s]).isSome := by
  induction models generalizing file with
  | nil => cases hs
  | cons m models ih =>
    obtain ⟨data, hdata, hrest⟩ := Option.bind_eq_some_iff.mp h
    rcases List.mem_cons.mp hs with rfl | hs
    · rw [saveAll, hdata]
      rfl
    · exact ih hrest hs

/-- What is migrated on the table alone is a step of the class. -/
theorem MigratesAlone.step {w : World} {m : Model} {store : DataStore} {order : List Str}
    {srv : TableServer} (hmeets : Meets conf className tableName w.file w.store.db w.last)
    (hm : IsVersion className tableName m)
    (hmigrates : MigratesAlone rules conf w.last m w.store store)
    (hsave : (saveAll conf [] [m.saved]).isSome)
    (horder : ∀ col, col ∈ order ↔ (columnsOf store.db tableName col).isSome)
    (hsrv : rules.server tableName order (columnsOf store.db tableName) = srv) :
    WorldStep rules conf className tableName w (.version m srv)
      ⟨saveAll conf [] [m.saved], store, some m, order, some m⟩ := by
  obtain ⟨cmds, prev, sorted, hcmds, hsort, hstore⟩ := hmigrates
  obtain ⟨fuel, hmigrate⟩ := hmeets.exists_fuel hm
  obtain ⟨file, hfile⟩ := Option.isSome_iff_exists.mp hsave
  rw [hfile]
  refine .version hm (fun _ => rfl) (hmigrate.trans hcmds) hsort hstore ?_ horder hsrv
  rw [(turnCmds_keeps hcmds).1, hfile]

/-- A step of the class migrates its table alone. -/
theorem WorldStep.migrates {w w' : World} {m : Model} {srv : TableServer}
    (hmeets : Meets conf className tableName w.file w.store.db w.last)
    (hinv : Inv conf className tableName w.history)
    (h : WorldStep rules conf className tableName w (.version m srv) w') :
    MigratesAlone rules conf w.last m w.store w'.store ∧ (saveAll conf [] [m.saved]).isSome := by
  cases h with
  | version hm hcatalog hmigrate hsort hstore hsave =>
    have hcmds := hmeets.turnCmds_eq hm (fun hlast => ?_) hmigrate
    · refine ⟨⟨_, _, _, hcmds, hsort, hstore⟩, ?_⟩
      rw [← (turnCmds_keeps hcmds).1, hsave]
      rfl
    · have hnone : w.history.last = none := hlast
      rw [Inv, hnone] at hinv
      rw [hcatalog hinv.2]
      exact ⟨rfl, rfl⟩

theorem AdmittedStep.inv (hconf : conf.Grouped) {w w' : World} {l : Doing}
    (hinv : Inv conf className tableName w.history)
    (h : AdmittedStep rules conf className tableName w l w') :
    Inv conf className tableName w'.history := by
  obtain ⟨hadmits, hstep⟩ := h
  cases l with
  | version m srv => exact (inv_step hconf hinv hadmits.1 hstep.forget).2
  | model =>
    cases hstep
    exact hinv
  | request req answer =>
    cases hstep
    exact hinv

end Steps

/-! ## What a step is for a class -/

section Views

variable {I : Type} [DecidableEq I] {rules : ValueRules} {conf : Config} {c : Classes I}
  {a a' : Application I}

theorem find_release {rs : List (Release I)} (hdistinct : (rs.map Release.cls).Nodup)
    {r : Release I} (hr : r ∈ rs) : rs.find? (·.cls = r.cls) = some r := by
  cases hfind : rs.find? (·.cls = r.cls) with
  | none =>
    have hnone := List.find?_eq_none.mp hfind r hr
    simp at hnone
  | some q =>
    have hcls : q.cls = r.cls := by simpa using List.find?_some hfind
    rw [List.inj_on_of_nodup_map hdistinct (List.mem_of_find?_eq_some hfind) hr hcls]

/-- A call is a version of each class, on its table alone. -/
theorem AppStep.call_views {rs : List (Release I)} (hinv : AppInv conf c a)
    (hadm : Admitted rules conf c a (.call rs)) (h : AppStep rules conf c a (.call rs) a') :
    Filed conf a' ∧ Confined c a'.store.db ∧
      ∀ r ∈ rs, AdmittedStep rules conf (c.className r.cls) (c.tableName r.cls)
        (a.view conf c r.cls) (.version r.model r.srv) (a'.view conf c r.cls) := by
  cases h with
  | @call _ saved store file order hdistinct hversions hturns hsave horder hkept hsrv =>
    have hall := hadm.all rs rfl
    have hreleased (r : Release I) (hr : r ∈ rs) : released rs r.cls = some r.model := by
      rw [released, find_release hdistinct hr]
      rfl
    have hadmits (r : Release I) (hr : r ∈ rs) : Admits rules conf (c.tableName r.cls)
        (a.view conf c r.cls) (.version r.model r.srv) := by
      refine hadm.own r.cls _ ?_
      rw [AppDoing.own, find_release hdistinct hr]
      exact List.mem_cons_self
    have hmig (i : I) : ∃ m, Migratable conf (c.tableName i) (a.view conf c i).history m := by
      obtain ⟨r, hr, rfl⟩ := List.mem_map.mp (hall i)
      exact ⟨r.model, (hadmits r hr).1⟩
    have hmeets := hinv.meets hmig
    obtain ⟨hconfined, rfl, -, hmigrates⟩ := hturns.parts hdistinct hversions hinv.confined
      fun r _ => hmeets r.cls
    refine ⟨.inr ?_, hconfined, fun r hr => ⟨hadmits r hr, ?_⟩⟩
    · have hlast (i : I) : ∃ m, released rs i = some m := by
        obtain ⟨r, hr, rfl⟩ := List.mem_map.mp (hall i)
        exact ⟨r.model, hreleased r hr⟩
      choose models hmodels using hlast
      refine ⟨rs.map Release.cls, models, hdistinct, hall, fun i => ?_, rfl, ?_⟩
      · show (released rs i).or (a.last i) = _
        rw [hmodels, Option.some_or]
      · rw [← hsave, List.map_map]
        refine congrArg _ (List.map_congr_left fun r hr => ?_)
        have hsame := Option.some.inj ((hmodels r.cls).symm.trans (hreleased r hr))
        rw [Function.comp_apply, hsame]
    · have hmeet := (hmeets r.cls).own.congr (DataStore.only_db a.store (c.tableName r.cls))
      have hmember := saveAll_member hsave (List.mem_map_of_mem hr)
      have hcolumns := DataStore.columnsOf_only store (c.tableName r.cls)
      have hserver : rules.server (c.tableName r.cls) (order r.cls)
          (columnsOf (store.only (c.tableName r.cls)).db (c.tableName r.cls)) = r.srv := by
        rw [hcolumns]
        exact hsrv r hr
      have horder' (col : Str) : col ∈ order r.cls ↔ (columnsOf
          (store.only (c.tableName r.cls)).db (c.tableName r.cls) col).isSome := by
        rw [hcolumns]
        exact horder r hr col
      have hstep := MigratesAlone.step (w := a.view conf c r.cls) hmeet (hversions r hr)
        (hmigrates r hr) hmember horder' hserver
      have hview : Application.view conf c ⟨some file, store,
          fun i => (released rs i).or (a.last i), order, fun i => (released rs i).or (a.client i)⟩
          r.cls = ⟨saveAll conf [] [r.model.saved], store.only (c.tableName r.cls), some r.model,
            order r.cls, some r.model⟩ := by
        simp only [Application.view, hreleased r hr, Option.some_or, Option.bind_some]
      rwa [hview]

/-- Another object or a request of a class is one for it, and nothing for the others. -/
theorem AppStep.use_views {l : AppDoing I} (hadm : Admitted rules conf c a l)
    (h : AppStep rules conf c a l a') (huse : ∀ rs, l ≠ .call rs) :
    a'.file = a.file ∧ a'.last = a.last ∧ a'.store.db = a.store.db ∧
      ∀ i, Execution (AdmittedStep rules conf (c.className i) (c.tableName i)) (a.view conf c i)
        (l.own i) (a'.view conf c i) := by
  cases h with
  | call => exact absurd rfl (huse _)
  | @model j =>
    refine ⟨rfl, rfl, rfl, fun i => ?_⟩
    by_cases hij : j = i
    · subst hij
      have hown : (AppDoing.model j).own j = [.model] := if_pos rfl
      have hview : Application.view conf c
          { a with client := Function.update a.client j (a.last j) } j =
            { a.view conf c j with client := (a.view conf c j).last } := by
        simp [Application.view]
      rw [hown, hview]
      exact .cons ⟨trivial, .model⟩ (.nil _)
    · have hown : (AppDoing.model j).own i = [] := if_neg hij
      have hview : Application.view conf c
          { a with client := Function.update a.client j (a.last j) } i = a.view conf c i := by
        simp [Application.view, Ne.symm hij]
      rw [hown, hview]
      exact .nil _
  | @request j m m' rows req answer hclient hserve =>
    refine ⟨rfl, rfl, rfl, fun i => ?_⟩
    by_cases hij : j = i
    · subst hij
      have hown : (AppDoing.request j req answer).own j = [.request req answer] := if_pos rfl
      have hadmits := hadm.own j (.request req answer) (by rw [hown]; exact List.mem_cons_self)
      have hview : Application.view conf c
          { a with
            store := ⟨a.store.db, Function.update a.store.data (c.tableName j) rows⟩
            client := Function.update a.client j (some m') } j =
          { a.view conf c j with
            store := ⟨(a.view conf c j).store.db,
              Function.update (a.view conf c j).store.data (c.tableName j) rows⟩
            client := some m' } := by
        simp only [Application.view, DataStore.only_update, Function.update_self]
      have hserved : ((a.view conf c j).server rules (c.tableName j)).step
          (m, (a.view conf c j).store.data (c.tableName j)) req = some ((m', rows), answer) := by
        rw [World.server, Application.view, DataStore.columnsOf_only, DataStore.only_data]
        exact hserve
      rw [hown, hview]
      exact .cons ⟨hadmits, .request hclient hserved⟩ (.nil _)
    · have hown : (AppDoing.request j req answer).own i = [] := if_neg hij
      have hne : c.tableName i ≠ c.tableName j := fun heq => hij (c.tables heq).symm
      have hview : Application.view conf c
          { a with
            store := ⟨a.store.db, Function.update a.store.data (c.tableName j) rows⟩
            client := Function.update a.client j (some m') } i = a.view conf c i := by
        simp only [Application.view, DataStore.only_update_of_ne _ hne,
          Function.update_of_ne (Ne.symm hij)]
      rw [hown, hview]
      exact .nil _

/-- What a step of the application is for each class, and that the file and the tables stay
those of the classes. -/
theorem AdmittedAppStep.views (hconf : conf.Grouped) {l : AppDoing I} (hinv : AppInv conf c a)
    (h : AdmittedAppStep rules conf c a l a') :
    AppInv conf c a' ∧ ∀ i, Execution (AdmittedStep rules conf (c.className i) (c.tableName i))
      (a.view conf c i) (l.own i) (a'.view conf c i) := by
  obtain ⟨hadm, hstep⟩ := h
  have hparts : (Filed conf a' ∧ Confined c a'.store.db) ∧ ∀ i,
      Execution (AdmittedStep rules conf (c.className i) (c.tableName i)) (a.view conf c i)
        (l.own i) (a'.view conf c i) := by
    cases l with
    | call rs =>
      obtain ⟨hfiled, hconfined, hviews⟩ := hstep.call_views hinv hadm
      refine ⟨⟨hfiled, hconfined⟩, fun i => ?_⟩
      obtain ⟨r, hr, rfl⟩ := List.mem_map.mp (hadm.all rs rfl i)
      have hdistinct : (rs.map Release.cls).Nodup := by
        cases hstep with
        | call hdistinct => exact hdistinct
      have hown : (AppDoing.call rs).own r.cls = [.version r.model r.srv] := by
        rw [AppDoing.own, find_release hdistinct hr]
        rfl
      rw [hown]
      exact .cons (hviews r hr) (.nil _)
    | model | request =>
      obtain ⟨hfile, hlast, hdb, hviews⟩ := hstep.use_views hadm nofun
      refine ⟨⟨?_, hdb ▸ hinv.confined⟩, hviews⟩
      have hfiled := hinv.filed
      unfold Filed at hfiled ⊢
      rwa [hfile, hlast]
  obtain ⟨⟨hfiled, hconfined⟩, hviews⟩ := hparts
  refine ⟨⟨hfiled, hconfined, fun i => ?_⟩, hviews⟩
  refine (hviews i).preserves (P := fun w => Inv conf _ _ w.history)
    (fun _ _ _ hw hstep => hstep.inv hconf hw) (hinv.inv i)

/-! ## The life of an application -/

theorem WorldStep.order_iff {className tableName : Str} {w w' : World} {m : Model}
    {srv : TableServer} (h : WorldStep rules conf className tableName w (.version m srv) w')
    (col : Str) : col ∈ w'.order ↔ (columnsOf w'.store.db tableName col).isSome := by
  cases h with
  | version _ _ _ _ _ _ horder => exact horder col

theorem exists_next_call (hinv : AppInv conf c a)
    (horder : ∀ i col, (columnsOf a.store.db (c.tableName i) col).isSome → col ∈ a.order i)
    {is : List I} (hdistinct : is.Nodup) (hall : ∀ i, i ∈ is) {models : I → Model}
    (hversions : ∀ i, IsVersion (c.className i) (c.tableName i) (models i))
    (hmig : ∀ i, Migratable conf (c.tableName i) (a.view conf c i).history (models i))
    (hstorable : ∀ i, (models i).saved.Storable conf) (hcols : ∀ i, (models i).metadata ≠ []) :
    ∃ (srv : I → TableServer) (a' : Application I),
      AppStep rules conf c a (.call (is.map fun i => ⟨i, models i, srv i⟩)) a' ∧
        ∀ i, ∀ col ∈ (srv i).columns,
          col ∈ a.order i ∨ col ∈ (models i).metadata.map FieldMeta.getColumnName := by
  have hknown (i : I) (col : Str)
      (hcol : (columnsOf (a.view conf c i).store.db (c.tableName i) col).isSome) :
      col ∈ (a.view conf c i).order := by
    rw [Application.view, DataStore.columnsOf_only] at hcol
    exact horder i col hcol
  have hsteps (i : I) := @exists_version_step rules conf _ _ _ _ (hinv.inv i) (hknown i)
    (hversions i) (hmig i) (hstorable i) (hcols i)
  choose srv worlds hsteps hbounds using hsteps
  have hmeets := hinv.meets fun i => ⟨models i, hmig i⟩
  have hmigrates (i : I) : MigratesAlone rules conf (a.last i) (models i)
      (a.store.only (c.tableName i)) (worlds i).store :=
    ((hsteps i).migrates ((hmeets i).own.congr (DataStore.only_db a.store (c.tableName i)))
      (hinv.inv i)).1
  obtain ⟨store, hturns, -, hstores⟩ := exists_turns hdistinct (fun i _ => hversions i)
    (fun i _ => hmeets i) (fun i _ => hmigrates i)
  have hcolumns (i : I) : columnsOf (worlds i).store.db (c.tableName i) =
      columnsOf store.db (c.tableName i) := by
    rw [← hstores i (hall i), DataStore.columnsOf_only]
  have hok : ∀ s ∈ is.map fun i => (models i).saved, s.Storable conf := by
    simpa using fun i _ => hstorable i
  have hcls : (is.map fun i => (⟨i, models i, srv i⟩ : Release I)).map Release.cls = is := by
    rw [List.map_map]
    exact List.map_id is
  refine ⟨srv, ⟨_, store, _, fun i => (worlds i).order, _⟩, .call (by rwa [hcls]) ?_ (hturns srv)
    (saveAll_eq _ hok []) ?_ (fun i hi => ?_) ?_, hbounds⟩
  · intro r hr
    obtain ⟨i, -, rfl⟩ := List.mem_map.mp hr
    exact hversions i
  · intro r hr
    obtain ⟨i, -, rfl⟩ := List.mem_map.mp hr
    intro col
    rw [← hcolumns i]
    exact (hsteps i).order_iff col
  · rw [hcls] at hi
    exact absurd (hall i) hi
  · intro r hr
    obtain ⟨i, -, rfl⟩ := List.mem_map.mp hr
    show rules.server (c.tableName i) (worlds i).order (columnsOf store.db (c.tableName i)) = srv i
    rw [← hcolumns i]
    exact (hsteps i).server_eq.2.1

end Views

def storedAdmin : Model := { storedUser with className := "Admin".toList }

/-- Users and administrators. -/
def sampleApplication : Classes Bool where
  className isUser := bif isUser then "User".toList else "Admin".toList
  tableName isUser := bif isUser then "user".toList else "admin".toList
  classes := by decide
  tables := by decide
  named := by decide
  apart := by decide

def sampleReleased (isUser : Bool) : Model := bif isUser then storedUser else storedAdmin

theorem sampleReleased_hostable (isUser : Bool) {srv : TableServer} {order : List Str}
    {cols : Str → Option ColumnDef}
    (hsrv : sampleRules.server (sampleApplication.tableName isUser) order cols = srv)
    (hcols : ∀ col ∈ srv.columns, col ∈ storedUserColumns) :
    Hostable (sampleReleased isUser) srv := by
  subst hsrv
  have huser : Hostable storedUser (sampleRules.server "user".toList order cols) :=
    storedUser_hostable (.inl rfl) rfl hcols
  cases isUser with
  | true => exact huser
  | false => exact { huser with named := ⟨by decide, by decide⟩ }

end TinyOrm
