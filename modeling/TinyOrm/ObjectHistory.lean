import Mathlib.Data.Set.List
import TinyOrm.RowMigration
import TinyOrm.ObjectStore
set_option autoImplicit false

/-!
The objects of a class over all its versions: `DB::AutoMigrate` of one version after another,
with the operations of any number of `Model` objects between them.
-/

namespace TinyOrm

open HostedClass
open Renaming (Change)

/-! ## The database and its clients -/

/-- The table as the statements of its class meet it. -/
def ValueRules.server (rules : ValueRules) (tableName : Str) (order : List Str)
    (cols : Str → Option ColumnDef) : TableServer where
  name := tableName
  columns := order
  truth := rules.truth
  keep col val := match cols col with
    | some defined => rules.keep defined val
    | none => val
  fill number col := (cols col).bind (rules.fill number)
  stale := rules.stale

/-- The metadata file, the database with its rows, the version that ran last, the columns of
its table in the order in which the server has them, and the `Model` object in use. -/
structure World where
  file : Option Str
  store : DataStore
  last : Option Model
  order : List Str
  client : Option Model

namespace World

def init : World := ⟨none, ⟨Database.empty, fun _ => ⟨[], 0⟩⟩, none, [], none⟩

def history (w : World) : History := ⟨w.file, w.store.db, w.last⟩

def server (rules : ValueRules) (tableName : Str) (w : World) : TableServer :=
  rules.server tableName w.order (columnsOf w.store.db tableName)

end World

/-- A process with the version runs `AutoMigrate`, which leaves it the table, another `Model`
object is made, or the one in use serves a request. -/
inductive Doing where
  | version (m : Model) (srv : TableServer)
  | model
  | request (req : List Call × Op) (answer : Answer)

inductive WorldStep (rules : ValueRules) (conf : Config) (className tableName : Str) :
    World → Doing → World → Prop
  | version {w : World} {m : Model} {fuel : Nat} {catalog : Catalog} {cmds sorted : List Cmd}
      {prev : Loaded} {store : DataStore} {file : Str} {order : List Str} {srv : TableServer}
      (hm : IsVersion className tableName m)
      (hcatalog : w.store.db = Database.empty → catalog = Catalog.empty)
      (hmigrate : m.AutoMigrate conf fuel w.file catalog {} = some (cmds, prev))
      (hsort : SortedFrom cmds sorted)
      (hstore : m.migrateData rules conf w.store sorted = some store)
      (hsave : saveAll conf [] [prev.saved m.className] = some file)
      (horder : ∀ col, col ∈ order ↔ (columnsOf store.db tableName col).isSome)
      (hsrv : rules.server tableName order (columnsOf store.db tableName) = srv) :
      WorldStep rules conf className tableName w (.version m srv)
        ⟨some file, store, some m, order, some m⟩
  | model {w : World} : WorldStep rules conf className tableName w .model
      { w with client := w.last }
  | request {w : World} {m m' : Model} {rows : StoredRows} {req : List Call × Op}
      {answer : Answer} (hclient : w.client = some m)
      (hserve : (w.server rules tableName).step (m, w.store.data tableName) req =
        some ((m', rows), answer)) :
      WorldStep rules conf className tableName w (.request req answer)
        { w with
          store := ⟨w.store.db, Function.update w.store.data tableName rows⟩
          client := some m' }

/-- A version step with its rows forgotten. -/
theorem WorldStep.forget {rules : ValueRules} {conf : Config} {className tableName : Str}
    {w w' : World} {m : Model} {srv : TableServer}
    (h : WorldStep rules conf className tableName w (.version m srv) w') :
    VersionStep conf className tableName w.history m w'.history := by
  cases h with
  | version hm hcatalog hmigrate hsort hstore hsave =>
    have hdb := m.migrateData_db rules conf w.store
    refine .run hm hcatalog hmigrate hsort ?_ hsave
    exact (hdb _).symm.trans (congrArg (Option.map DataStore.db) hstore)

/-! ## The objects -/

/-- A class with the objects that it has. -/
structure Told where
  cls : HostedClass
  objs : Collection cls

/-- The objects under the next version: as many, each with what its members had. -/
structure Carried (rules : ValueRules) (conf : Config) (a b : Told) : Prop where
  pending : b.objs.pending = []
  inserted : b.objs.inserted = a.objs.inserted
  length : b.objs.records.length = a.objs.records.length
  members : ∀ (i : Nat) (o : a.cls.Record) (o' : b.cls.Record), a.objs.records[i]? = some o →
    b.objs.records[i]? = some o' → ∀ (j : Nat) (field : FieldMeta),
      b.cls.model.metadata[j]? = some field →
        o'.obj.1[j]? = migratedCell rules conf a.cls.model i (row o) field

/-- What happens to the objects. -/
inductive TellStep (rules : ValueRules) (conf : Config) : Option Told → Doing → Option Told → Prop
  | first (h : HostedClass) : TellStep rules conf none (.version h.model h.srv)
      (some ⟨h, ⟨[], 0, []⟩⟩)
  | version {a b : Told} (hcarried : Carried rules conf a b) :
      TellStep rules conf (some a) (.version b.cls.model b.cls.srv) (some b)
  | none : TellStep rules conf none .model none
  | model {h : HostedClass} {s : Collection h} :
      TellStep rules conf (some ⟨h, s⟩) .model (some ⟨h, { s with pending := [] }⟩)
  | request {h : HostedClass} {s : Collection h} {req : List Call × StoreOp h}
      (hallows : s.allows req) : TellStep rules conf (some ⟨h, s⟩)
        (.request (req.1, req.2.op) (s.answer req)) (some ⟨h, s.next req⟩)

/-- The table and the `Model` object are those of the objects. -/
structure Shows (rules : ValueRules) (tableName : Str) (w : World) (a : Told) : Prop where
  last : w.last = some a.cls.model
  server : w.server rules tableName = a.cls.srv
  order : ∀ col, col ∈ w.order ↔ (columnsOf w.store.db tableName col).isSome
  client : w.client = some (a.cls.model.calls a.objs.pending)
  rows : w.store.data tableName = a.objs.stored

/-! ## What a life needs -/

/-- A server has what a version asks of it besides its columns. -/
structure Hostable (m : Model) (srv : TableServer) : Prop where
  connected : m.conn.isSome
  fresh : m.Fresh
  named : m.Named
  blank : m.blank.length = m.metadata.length
  marks : ∀ col ∈ srv.columns, '?' ∉ col
  dispatched : ∀ field ∈ m.metadata, field.cppType ∈ dispatchedTypes
  keeps : ∀ field ∈ m.metadata, field.ignore = false → ∀ val, IsMember field.cppType val →
    IsMember field.cppType (srv.keep field.getColumnName val)
  fills : ∀ field ∈ m.metadata, field.ignore = true → ∀ number, ∃ val,
    srv.fill number field.getColumnName = some val ∧ IsMember field.cppType val

/-- A value of one member type becomes one of the other in the column. -/
def Converts (rules : ValueRules) (col : ColumnDef) (old new : Str) : Prop :=
  ∀ val, IsMember old val → ∃ val', rules.convert col (some val) = some val' ∧ IsMember new val'

/-- What is carried over to a field has the type of its member. -/
def Carries (rules : ValueRules) (conf : Config) (prev : Model) (field : FieldMeta) : Prop :=
  match prev.metadata.find? (·.getColumnName = field.getColumnName) with
  | some old =>
    if FieldMeta.eq conf field old = some true then
      ∀ val, IsMember old.cppType val → IsMember field.cppType val
    else Converts rules (alteredDef conf field) old.cppType field.cppType
  | none =>
    match prev.metadata.find? (·.fieldName = field.fieldName) with
    | some old => Converts rules (alteredDef conf field) old.cppType field.cppType
    | none => ∀ i, ∃ val, rules.fill i (alteredDef conf field) = some val ∧
        IsMember field.cppType val

/-- A version can be migrated to, on a server that it can be used on, and an object allows
what is requested of it. -/
def Admits (rules : ValueRules) (conf : Config) (tableName : Str) (w : World) : Doing → Prop
  | .version m srv => Migratable conf tableName w.history m ∧ Hostable m srv ∧
      ∀ prev, w.last = some prev → NoneReturns prev m (columnsOf w.store.db tableName) ∧
        ∀ field ∈ m.metadata, Carries rules conf prev field
  | .model => True
  | .request req _ => ∀ a, Shows rules tableName w a →
      ∃ op, req.2 = op.op ∧ a.objs.allows (req.1, op)

def AdmittedStep (rules : ValueRules) (conf : Config) (className tableName : Str) (w : World)
    (l : Doing) (w' : World) : Prop :=
  Admits rules conf tableName w l ∧ WorldStep rules conf className tableName w l w'

/-! ## One step -/

section Step

variable {rules : ValueRules} {conf : Config} {className tableName : Str}

/-- The version on a server with its columns. -/
def Hostable.host {m : Model} {srv : TableServer} (h : Hostable m srv)
    (hm : IsVersion className tableName m) (hname : srv.name = tableName)
    (hsent : ∀ field ∈ m.metadata, field.getColumnName ∈ srv.columns) : HostedClass where
  model := m
  connected := h.connected
  types := by
    have htypes : ∀ cppType ∈ dispatchedTypes, cppType ∈ memberTypes := by decide
    exact fun field hfield => htypes _ (h.dispatched field hfield)
  columnToIndex := hm.columnToIndex
  srv := srv
  fresh := h.fresh
  named := h.named
  blank := h.blank
  table := hname.trans hm.tableName.symm
  distinct := hm.columnNames
  sent := by
    intro col hcol
    obtain ⟨i, field, hfield, -, rfl⟩ := ClassModel.mem_insertColumns.mp hcol
    exact hsent field (List.mem_of_getElem? hfield)
  marks := by
    refine List.forall_mem_cons.mpr ⟨fun hmark => ?_, h.marks⟩
    have hplain := h.named.1.2
    rw [List.contains_eq_mem, decide_eq_false_iff_not] at hplain
    exact hplain hmark
  dispatched := fun field hfield _ => h.dispatched field hfield
  keeps := h.keeps
  fills := fun field hfield hignore _ => h.fills field hfield hignore

/-- A row with a value of its type for each member is that of a record. -/
theorem exists_record {h : HostedClass} {r : TableRow}
    (htyped : ∀ field ∈ h.model.metadata, ∃ val, r field.getColumnName = some val ∧
      IsMember field.cppType val)
    (hsupported : ∀ col, col ∉ h.srv.columns → r col = none) : ∃ o : h.Record, row o = r := by
  have hmembers : List.Forall₂ (fun field val => IsMember field.cppType val) h.model.metadata
      (h.model.metadata.map fun field => (r field.getColumnName).getD (.int 0)) := by
    rw [List.forall₂_map_right_iff, List.forall₂_same]
    intro field hfield
    obtain ⟨val, hval, hmember⟩ := htyped field hfield
    rw [hval]
    exact hmember
  refine ⟨⟨r, _, hmembers⟩, funext fun col => ?_⟩
  by_cases hcol : col ∈ h.srv.columns
  · rcases h.column_cases col with ⟨i, field, hfield, rfl⟩ | hother
    · obtain ⟨val, hval, -⟩ := htyped field (List.mem_of_getElem? hfield)
      have hget : (h.model.metadata.map fun field =>
          (r field.getColumnName).getD (.int 0))[i]? = some val := by
        rw [List.getElem?_map, hfield, Option.map_some, hval]
        rfl
      rw [row_member ⟨r, _, hmembers⟩ hfield hget hcol, hval]
    · rw [row_other _ hother, if_pos hcol]
  · rw [row_absent _ hcol, hsupported col hcol]

theorem migratedCell_typed {h : HostedClass}
    (hcols : ∀ field ∈ h.model.metadata, field.getColumnName ∈ h.srv.columns) (o : h.Record)
    {field : FieldMeta} (hcarries : Carries rules conf h.model field) (i : Nat) :
    ∃ val, migratedCell rules conf h.model i (row o) field = some val ∧
      IsMember field.cppType val := by
  have hrow (old : FieldMeta) (hold : old ∈ h.model.metadata) :
      ∃ val, row o old.getColumnName = some val ∧ IsMember old.cppType val := by
    obtain ⟨j, hj⟩ := List.mem_iff_getElem?.mp hold
    obtain ⟨val, hval⟩ := members_getElem o.obj hj
    exact ⟨val, row_member o hj hval (hcols old hold), ClassModel.isMember_of_getElem o.obj hj hval⟩
  unfold Carries at hcarries
  unfold migratedCell
  split
  · rename_i old hfind
    simp only [hfind] at hcarries
    have hname : old.getColumnName = field.getColumnName := by simpa using List.find?_some hfind
    obtain ⟨val, hval, hmember⟩ := hrow old (List.mem_of_find?_eq_some hfind)
    rw [← hname, hval]
    split
    · rename_i heq
      rw [if_pos heq] at hcarries
      exact ⟨val, rfl, hcarries val hmember⟩
    · rename_i hne
      rw [if_neg hne] at hcarries
      exact hcarries val hmember
  · rename_i hfind
    simp only [hfind] at hcarries
    split
    · rename_i old hmember
      simp only [hmember] at hcarries
      obtain ⟨val, hval, htype⟩ := hrow old (List.mem_of_find?_eq_some hmember)
      rw [hval]
      exact hcarries val htype
    · rename_i hmember
      simp only [hmember] at hcarries
      exact hcarries i

/-- What is known of the world while the objects are these. -/
def Tells (rules : ValueRules) (conf : Config) (className tableName : Str) (w : World) :
    Option Told → Prop
  | none => w.last = none ∧ w.client = none ∧ w.file = none ∧ w.store.db = Database.empty ∧
      w.store.data tableName = ⟨[], 0⟩
  | some a => Behind conf className tableName w.history a.cls.model ∧ Shows rules tableName w a

theorem Tells.inv {w : World} {t : Option Told} (h : Tells rules conf className tableName w t) :
    Inv conf className tableName w.history := by
  cases t with
  | none =>
    obtain ⟨hlast, -, hfile, hdb, -⟩ := h
    have hnone : w.history.last = none := hlast
    rw [Inv, hnone]
    exact ⟨hfile, hdb⟩
  | some a =>
    have hsome : w.history.last = some a.cls.model := h.2.last
    rw [Inv, hsome]
    exact h.1

theorem readDdl_create {rest : Sql} {ddl : Ddl}
    (h : readDdl (lit "CREATE TABLE " ++ rest) = some ddl) :
    ∃ table columns keys, ddl = .createTable table columns keys := by
  have hlex : lexDdl .none (lit "CREATE TABLE " ++ rest) =
      .kw .CREATE :: .kw .TABLE :: lexDdl .none rest := rfl
  rw [readDdl, hlex] at h
  split at h
  · rename_i heq
    cases heq
  · obtain ⟨parts, -, hddl⟩ := Option.bind_eq_some_iff.mp h
    exact ⟨_, _, _, (Option.some.inj hddl).symm⟩
  · cases h

/-- A table is empty when it is created. -/
theorem created_rows {m : Model} {store store' : DataStore}
    (hdata : store.data tableName = ⟨[], 0⟩)
    (hstore : m.migrateData rules conf store [⟨[], .MIGACTION_CREATE_TABLE, []⟩] = some store') :
    store'.data tableName = ⟨[], 0⟩ := by
  have hrun : m.migrateData rules conf store [⟨[], .MIGACTION_CREATE_TABLE, []⟩] =
      some ((store.execute rules (m.createTable conf)).getD store) := rfl
  obtain rfl := Option.some.inj (hrun.symm.trans hstore)
  cases hddl : readDdl (m.createTable conf) with
  | none => rwa [DataStore.execute, hddl]
  | some ddl =>
    cases happly : store.db.apply ddl with
    | none => rwa [execute_blocked hddl happly]
    | some db =>
      have htext : m.createTable conf = lit "CREATE TABLE " ++ (word m.getTableName ++ (lit "(" ++
          (Model.createColumns conf m.metadata ++ (m.indices.entries.flatMap Model.createIndex ++
            lit ")")))) := by simp only [Model.createTable, List.append_assoc]
      rw [htext] at hddl
      obtain ⟨table, columns, keys, rfl⟩ := readDdl_create hddl
      rw [← htext] at hddl
      rw [execute_moved hddl happly]
      by_cases htable : tableName = table
      · rw [htable]
        exact Function.update_self _ _ _
      · exact (Function.update_of_ne htable _ _).trans hdata

/-- A version that can be migrated to is hosted on its table. -/
theorem version_hosted (hconf : conf.Grouped) {w w' : World} {m : Model} {srv : TableServer}
    (hinv : Inv conf className tableName w.history) (hmig : Migratable conf tableName w.history m)
    (hh : Hostable m srv)
    (hstep : WorldStep rules conf className tableName w (.version m srv) w') :
    Behind conf className tableName w'.history m ∧ ∃ h : HostedClass, h.model = m ∧ h.srv = srv ∧
      ∀ field ∈ m.metadata, field.getColumnName ∈ h.srv.columns := by
  obtain ⟨hlast, hinv'⟩ := inv_step hconf hinv hmig hstep.forget
  rw [Inv, hlast] at hinv'
  cases hstep with
  | version _ _ _ _ _ _ horder hsrv =>
    have hsent : ∀ field ∈ m.metadata, field.getColumnName ∈ srv.columns := by
      intro field hfield
      obtain ⟨col, hcol, -⟩ := hinv'.converged field hfield
      rw [← hsrv]
      refine (horder field.getColumnName).mpr ?_
      have hsome : columnsOf _ tableName field.getColumnName = some col := hcol
      rw [World.history] at hsome
      rw [hsome]
      rfl
    have hname : srv.name = tableName := (congrArg TableServer.name hsrv).symm
    exact ⟨hinv', hh.host hinv'.version hname hsent, rfl, rfl, hsent⟩

theorem tells_first (hconf : conf.Grouped) {w w' : World} {m : Model} {srv : TableServer}
    (htells : Tells rules conf className tableName w none)
    (hfits : Admits rules conf tableName w (.version m srv))
    (hstep : WorldStep rules conf className tableName w (.version m srv) w') :
    ∃ t, TellStep rules conf none (.version m srv) t ∧
      Tells rules conf className tableName w' t := by
  obtain ⟨hmig, hh, -⟩ := hfits
  obtain ⟨hbehind, h, rfl, rfl, -⟩ := version_hosted hconf htells.inv hmig hh hstep
  obtain ⟨-, -, hfile, hempty, hdata⟩ := htells
  refine ⟨_, .first h, hbehind, ?_⟩
  cases hstep with
  | version hm hcatalog hmigrate hsort hstore hsave horder hserver =>
    rw [hfile, hcatalog hempty, autoMigrate_first, Option.some.injEq, Prod.mk.injEq] at hmigrate
    obtain ⟨rfl, -⟩ := hmigrate
    rw [List.perm_singleton.mp hsort.perm] at hstore
    exact ⟨rfl, hserver, horder, rfl, created_rows hdata hstore⟩

/-- The records of the next version. -/
theorem exists_carried {a : Told} {h : HostedClass} {cols : Str → Option ColumnDef}
    {changes : List (Change Str)} (hp : IsVersion className tableName a.cls.model)
    (hm : IsVersion className tableName h.model)
    (hcols : ∀ old ∈ a.cls.model.metadata, ∃ col, cols old.getColumnName = some col ∧
      Agrees conf col old)
    (hperm : changes.Perm (h.model.metadata.filterMap (fieldChange conf a.cls.model)))
    (hmig : ∀ field ∈ h.model.metadata, ColumnMigratable conf a.cls.model h.model cols field)
    (hreturn : NoneReturns a.cls.model h.model cols)
    (hcarries : ∀ field ∈ h.model.metadata, Carries rules conf a.cls.model field)
    (hold : ∀ col, col ∈ a.cls.srv.columns ↔ (cols col).isSome)
    (hnew : ∀ col, col ∈ h.srv.columns ↔
      (Renaming.run (alteredAs conf h.model) cols changes col).isSome)
    (hsent : ∀ field ∈ h.model.metadata, field.getColumnName ∈ h.srv.columns) :
    ∃ s : Collection h, Carried rules conf a ⟨h, s⟩ ∧
      s.stored = a.objs.stored.mapRows (changedRow rules conf h.model cols changes) := by
  have hhosted : ∀ field ∈ a.cls.model.metadata, field.getColumnName ∈ a.cls.srv.columns := by
    intro field hfield
    obtain ⟨col, hcol, -⟩ := hcols field hfield
    rw [hold, hcol]
    rfl
  have hcell (i : Nat) (o : a.cls.Record) (field : FieldMeta)
      (hfield : field ∈ h.model.metadata) :
      changedRow rules conf h.model cols changes i (row o) field.getColumnName =
        migratedCell rules conf a.cls.model i (row o) field :=
    changedRow_cell hp hm hcols hperm hmig hreturn hfield i (row o)
  have hrecord (i : Nat) (o : a.cls.Record) :
      ∃ o' : h.Record, row o' = changedRow rules conf h.model cols changes i (row o) := by
    refine exists_record (fun field hfield => ?_) fun col hcol => ?_
    · rw [hcell i o field hfield]
      exact migratedCell_typed hhosted o (hcarries field hfield) i
    · have hstart : Renaming.Filled.Supported ⟨cols, row o⟩ := by
        intro k hk
        have hnone : cols k = none := hk
        refine row_absent o fun hmem => ?_
        rw [hold, hnone] at hmem
        cases hmem
      refine Renaming.carryAll_supported hstart col ?_
      rw [Renaming.carryAll_entries]
      rw [hnew] at hcol
      simpa using hcol
  obtain ⟨records, hrecords⟩ : (a.objs.records.map row).mapIdx
      (changedRow rules conf h.model cols changes) ∈ Set.range (List.map (row (h := h))) := by
    rw [Set.range_list_map]
    intro r hr
    obtain ⟨i, hlt, rfl⟩ := List.mem_mapIdx.mp hr
    rw [List.getElem_map]
    exact hrecord i _
  refine ⟨⟨records, a.objs.inserted, []⟩, ⟨rfl, rfl, ?_, ?_⟩, ?_⟩
  · have hlength := congrArg List.length hrecords
    rwa [List.length_map, List.length_mapIdx, List.length_map] at hlength
  · intro i o o' ho ho' j field hfield
    have hmem := List.mem_of_getElem? hfield
    have hrow : row o' = changedRow rules conf h.model cols changes i (row o) := by
      have hget := congrArg (·[i]?) hrecords
      simp only [List.getElem?_map, List.getElem?_mapIdx, ho, ho', Option.map_some,
        Option.some.injEq] at hget
      exact hget
    obtain ⟨val, hval⟩ := members_getElem o'.obj hfield
    rw [hval, ← row_member o' hfield hval (hsent field hmem), hrow, hcell i o field hmem]
  · exact congrArg (StoredRows.mk · a.objs.inserted) hrecords

theorem tells_version (hconf : conf.Grouped) {w w' : World} {m : Model} {srv : TableServer}
    {a : Told} (htells : Tells rules conf className tableName w (some a))
    (hfits : Admits rules conf tableName w (.version m srv))
    (hstep : WorldStep rules conf className tableName w (.version m srv) w') :
    ∃ t, TellStep rules conf (some a) (.version m srv) t ∧
      Tells rules conf className tableName w' t := by
  obtain ⟨hmig, hh, hnext⟩ := hfits
  obtain ⟨hbehind', h, rfl, rfl, hsent⟩ := version_hosted hconf htells.inv hmig hh hstep
  obtain ⟨hbehind, hshows⟩ := htells
  obtain ⟨hreturn, hcarries⟩ := hnext a.cls.model hshows.last
  obtain ⟨hwritten, halter⟩ := hmig
  have hlast : w.history.last = some a.cls.model := hshows.last
  rw [hlast] at halter
  cases hstep with
  | version hm hcatalog hmigrate hsort hstore hsave horder hserver =>
    obtain ⟨changes, hperm, hcolumns, hrows⟩ :=
      version_changes hbehind hm hwritten halter hmigrate hsort hstore
    have hold : ∀ col, col ∈ a.cls.srv.columns ↔ (columnsOf w.store.db tableName col).isSome := by
      rw [← hshows.server]
      exact hshows.order
    have hnew : ∀ col, col ∈ h.srv.columns ↔ (Renaming.run (alteredAs conf h.model)
        (columnsOf w.store.db tableName) changes col).isSome := by
      have hrun : columnsOf w.history.db tableName = columnsOf w.store.db tableName := rfl
      rw [hrun] at hcolumns
      rw [← hserver, ← hcolumns]
      exact horder
    obtain ⟨s, hcarried, hstored⟩ := exists_carried hbehind.version hm hbehind.converged hperm
      halter.columns hreturn hcarries hold hnew hsent
    refine ⟨_, .version hcarried, hbehind', rfl, hserver, horder, ?_, ?_⟩
    · rw [hcarried.pending]
      rfl
    · rw [hstored, ← hshows.rows]
      exact hrows

/-- A request that the objects allow is served as they answer it. -/
theorem Shows.step {w : World} {a : Told} (h : Shows rules tableName w a)
    {req : List Call × StoreOp a.cls} (hallows : a.objs.allows req) :
    (w.server rules tableName).step
        (a.cls.model.calls a.objs.pending, w.store.data tableName) (req.1, req.2.op) =
      some ((a.objs.next req).concrete, a.objs.answer req) := by
  rw [h.server, h.rows]
  exact Collection.step_concrete a.objs req hallows

/-- Every step of the world is one of the objects. -/
theorem tells_step (hconf : conf.Grouped) (w : World) (l : Doing) (w' : World) (t : Option Told)
    (htells : Tells rules conf className tableName w t)
    (hstep : AdmittedStep rules conf className tableName w l w') :
    ∃ t', TellStep rules conf t l t' ∧ Tells rules conf className tableName w' t' := by
  obtain ⟨hfits, hstep⟩ := hstep
  cases l with
  | version m srv =>
    cases t with
    | none => exact tells_first hconf htells hfits hstep
    | some a => exact tells_version hconf htells hfits hstep
  | model =>
    cases hstep
    cases t with
    | none =>
      obtain ⟨hlast, -, hrest⟩ := htells
      exact ⟨none, .none, hlast, hlast, hrest⟩
    | some a =>
      obtain ⟨hbehind, hshows⟩ := htells
      exact ⟨_, .model, hbehind, hshows.last, hshows.server, hshows.order, hshows.last, hshows.rows⟩
  | request req answer =>
    cases hstep with
    | request hclient hserve =>
      cases t with
      | none =>
        rw [htells.2.1] at hclient
        cases hclient
      | some a =>
        obtain ⟨hbehind, hshows⟩ := htells
        obtain ⟨op, hop, hallows⟩ := hfits a hshows
        obtain ⟨h, s⟩ := a
        obtain ⟨calls, op'⟩ := req
        obtain rfl : op' = op.op := hop
        obtain rfl := Option.some.inj (hshows.client.symm.trans hclient)
        have hnext := hshows.step hallows
        rw [hserve, Option.some.injEq, Prod.mk.injEq] at hnext
        obtain ⟨hstate, rfl⟩ := hnext
        obtain ⟨rfl, rfl⟩ := Prod.mk.inj hstate
        refine ⟨_, .request hallows, hbehind, hshows.last, hshows.server, hshows.order, rfl, ?_⟩
        exact Function.update_self _ _ _

/-! ## The next version -/

/-- A version adds no columns but those of its members. -/
theorem version_columns {w : History} {m : Model} {data : Str → StoredRows} {fuel : Nat}
    {catalog : Catalog} {cmds sorted : List Cmd} {loaded : Loaded} {store : DataStore}
    (hinv : Inv conf className tableName w) (hm : IsVersion className tableName m)
    (hmig : Migratable conf tableName w m) (hcols : m.metadata ≠ [])
    (hcatalog : w.db = Database.empty → catalog = Catalog.empty)
    (hmigrate : m.AutoMigrate conf fuel w.file catalog {} = some (cmds, loaded))
    (hsort : SortedFrom cmds sorted)
    (hstore : m.migrateData rules conf ⟨w.db, data⟩ sorted = some store) {col : Str}
    (hcol : columnsOf w.db tableName col = none)
    (hother : col ∉ m.metadata.map FieldMeta.getColumnName) :
    columnsOf store.db tableName col = none := by
  obtain ⟨hwritten, hmig⟩ := hmig
  unfold Inv at hinv
  cases hlast : w.last with
  | none =>
    rw [hlast] at hinv hmig
    obtain ⟨hfile, hempty⟩ := hinv
    rw [hfile, hcatalog hempty, autoMigrate_first, Option.some.injEq, Prod.mk.injEq] at hmigrate
    obtain ⟨rfl, -⟩ := hmigrate
    rw [List.perm_singleton.mp hsort.perm, hempty] at hstore
    have hdb := m.migrateData_db rules conf ⟨Database.empty, data⟩
      [⟨[], .MIGACTION_CREATE_TABLE, []⟩]
    have hrun : m.migrate conf Database.empty [⟨[], .MIGACTION_CREATE_TABLE, []⟩] =
        some ((Database.empty.execute (m.createTable conf)).getD Database.empty) := rfl
    have hnone : Database.empty m.getTableName = none := rfl
    obtain ⟨indices, hexec⟩ := execute_createTable hmig.tableName hnone hcols hwritten hmig.indices
    rw [hstore, hrun, hexec, Option.map_some, Option.getD_some, Option.some.injEq] at hdb
    rw [hdb, columnsOf, ← hm.tableName, Function.update_self, Option.bind_some,
      List.lookup_eq_none_iff]
    intro p hp
    obtain ⟨field, hfield, rfl⟩ := List.mem_map.mp hp
    have hne : col ≠ field.getColumnName := fun heq => hother (heq ▸ List.mem_map_of_mem hfield)
    simpa using hne
  | some prev =>
    rw [hlast] at hinv hmig
    obtain ⟨changes, hperm, hcolumns, -⟩ :=
      version_changes hinv hm hwritten hmig hmigrate hsort hstore
    rw [hcolumns]
    refine Renaming.run_untargeted hcol fun c hc htarget => hother ?_
    obtain ⟨field, hfield, hchange⟩ := List.mem_filterMap.mp (hperm.subset hc)
    rw [← htarget, fieldChange_target hchange]
    exact List.mem_map_of_mem hfield

theorem exists_version_step {w : World} {m : Model}
    (hinv : Inv conf className tableName w.history)
    (horder : ∀ col, (columnsOf w.store.db tableName col).isSome → col ∈ w.order)
    (hm : IsVersion className tableName m) (hmig : Migratable conf tableName w.history m)
    (hstorable : m.saved.Storable conf) (hcols : m.metadata ≠ []) :
    ∃ srv w', WorldStep rules conf className tableName w (.version m srv) w' ∧
      ∀ col ∈ srv.columns, col ∈ w.order ∨ col ∈ m.metadata.map FieldMeta.getColumnName := by
  obtain ⟨w', hstep⟩ := exists_step hinv hm hmig hstorable
  cases hstep with
  | run _ hcatalog hmigrate hsort hdb hsave =>
    have hforget := m.migrateData_db rules conf w.store
    have hmap := (hforget _).trans hdb
    obtain ⟨store, hstore, -⟩ := Option.map_eq_some_iff.mp hmap
    have hknown (col : Str) (hcol : (columnsOf store.db tableName col).isSome) :
        col ∈ w.order ++ m.metadata.map FieldMeta.getColumnName := by
      by_contra hnot
      rw [List.mem_append, not_or] at hnot
      have hbefore : columnsOf w.history.db tableName col = none := by
        by_contra hsome
        exact hnot.1 (horder col (Option.isSome_iff_ne_none.mpr hsome))
      rw [version_columns hinv hm hmig hcols hcatalog hmigrate hsort hstore hbefore hnot.2] at hcol
      cases hcol
    have horder (col : Str) : col ∈ (w.order ++ m.metadata.map FieldMeta.getColumnName).filter
        (fun col => (columnsOf store.db tableName col).isSome) ↔
          (columnsOf store.db tableName col).isSome := by
      rw [List.mem_filter]
      exact ⟨And.right, fun hcol => ⟨hknown col hcol, hcol⟩⟩
    refine ⟨_, _, .version hm hcatalog hmigrate hsort hstore hsave horder rfl, fun col hcol => ?_⟩
    exact List.mem_append.mp (List.mem_of_mem_filter hcol)

theorem Tells.order {w : World} {t : Option Told}
    (h : Tells rules conf className tableName w t) {col : Str}
    (hcol : (columnsOf w.store.db tableName col).isSome) : col ∈ w.order := by
  cases t with
  | none =>
    obtain ⟨-, -, -, hempty, -⟩ := h
    rw [hempty] at hcol
    cases hcol
  | some a => exact (h.2.order col).mpr hcol

end Step

def storedUser : Model := { sampleUser with blank := [.int 0, .int 0], conn := some 0 }

def storedUserRenamed : Model :=
  { sampleUserRenamed with blank := [.int 0, .int 0, .string []], conn := some 0 }

/-- The columns of both versions, with what they have been called. -/
def storedUserColumns : List Str :=
  ["id".toList, "age".toList, "years".toList, "nick".toList]

theorem storedUser_hostable {m : Model} (hm : m = storedUser ∨ m = storedUserRenamed)
    {srv : TableServer} {order : List Str} {cols : Str → Option ColumnDef}
    (hsrv : sampleRules.server "user".toList order cols = srv)
    (hcols : ∀ col ∈ srv.columns, col ∈ storedUserColumns) : Hostable m srv where
  connected := by rcases hm with rfl | rfl <;> rfl
  fresh := by rcases hm with rfl | rfl <;> exact ⟨rfl, rfl⟩
  named := by rcases hm with rfl | rfl <;> exact ⟨by decide, by decide⟩
  blank := by rcases hm with rfl | rfl <;> rfl
  marks := by
    have hplain : ∀ col ∈ storedUserColumns, '?' ∉ col := by decide
    exact fun col hcol => hplain col (hcols col hcol)
  dispatched := by rcases hm with rfl | rfl <;> decide
  keeps := by
    intro field _ _ val hval
    rw [← hsrv]
    show IsMember field.cppType (match cols field.getColumnName with
      | some defined => sampleRules.keep defined val
      | none => val)
    split <;> exact hval
  fills := by
    have hsent : ∀ field ∈ storedUser.metadata ++ storedUserRenamed.metadata,
        field.ignore = false := by decide
    intro field hfield hignore
    rw [hsent field (by rcases hm with rfl | rfl <;> simp [hfield])] at hignore
    cases hignore

theorem storedUser_object {h : HostedClass} (hmodel : h.model = storedUser) :
    ∃ t : h.Object, t.1 = [.int 1, .int 30] := by
  refine ⟨⟨_, ?_⟩, rfl⟩
  rw [hmodel]
  exact .cons (.inl rfl) (.cons (.inl rfl) .nil)

theorem storedUserRenamed_migratable {w : History} (hlast : w.last = some storedUser)
    (hnew : ∀ col ∈ ["years".toList, "nick".toList], columnsOf w.db "user".toList col = none) :
    Migratable rulesJson "user".toList w storedUserRenamed := by
  refine ⟨by decide, ?_⟩
  rw [hlast]
  refine ⟨by decide, nofun, fun field hfield => ?_⟩
  have hid : ∀ f ∈ storedUserRenamed.metadata, ∀ old ∈ storedUser.metadata,
      old.getColumnName = "id".toList → ¬ Renames storedUser old f := by decide
  simp only [storedUserRenamed, sampleUserRenamed, List.mem_cons, List.not_mem_nil,
    or_false] at hfield
  rcases hfield with rfl | rfl | rfl
  · exact ⟨fun f hf hrenames => absurd hrenames (hid f hf _ List.mem_cons_self rfl), rfl⟩
  · show match columnsOf w.db "user".toList "years".toList with
      | some col => _
      | none => _
    rw [hnew _ (by simp)]
    decide
  · show match columnsOf w.db "user".toList "nick".toList with
      | some col => _
      | none => _
    rw [hnew _ (by simp)]
    decide

theorem storedUserRenamed_carries :
    ∀ field ∈ storedUserRenamed.metadata, Carries sampleRules rulesJson storedUser field := by
  intro field hfield
  simp only [storedUserRenamed, sampleUserRenamed, List.mem_cons, List.not_mem_nil,
    or_false] at hfield
  rcases hfield with rfl | rfl | rfl
  · exact fun val hval => hval
  · exact fun val hval => ⟨val, rfl, hval⟩
  · exact fun i => ⟨_, rfl, .inr rfl⟩

theorem WorldStep.server_eq {rules : ValueRules} {conf : Config} {className tableName : Str}
    {w w' : World} {m : Model} {srv : TableServer}
    (h : WorldStep rules conf className tableName w (.version m srv) w') :
    w'.last = some m ∧ w'.server rules tableName = srv ∧ w'.order = srv.columns := by
  cases h with
  | version _ _ _ _ _ _ _ hsrv => exact ⟨rfl, hsrv, congrArg TableServer.columns hsrv⟩

end TinyOrm
