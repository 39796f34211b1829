import TinyOrm.ColumnHistory
import TinyOrm.MetadataLookup
import TinyOrm.MigrationRecords
import TinyOrm.WatchedMigration
set_option autoImplicit false

/-!
The names of the table of a model class over a history of versions: when the
statements of a migration find it.
-/

namespace TinyOrm

open LoadState

/-! ## The commands of a version -/

theorem allColumnCmds_priority {conf : Config} {prev : Loaded} {fields : List FieldMeta}
    {cmds : List Cmd} (h : Model.allColumnCmds conf prev fields = some cmds) :
    ∀ cmd ∈ cmds, 2 ≤ cmd.priority := by
  intro cmd hcmd
  have haction := (Model.allColumnCmds_target h cmd hcmd).2
  rcases haction with haction | haction <;> simp [Cmd.priority, haction]

theorem indexCmds_priority (m : Model) (prev : Loaded) :
    ∀ cmd ∈ m.indexCmds prev, 2 ≤ cmd.priority := by
  intro cmd hcmd
  have hindex := indexCmds_isIndex m prev cmd hcmd
  simp only [Cmd.isIndex, Bool.or_eq_true, decide_eq_true_eq] at hindex
  rcases hindex with haction | haction <;> simp [Cmd.priority, haction]

theorem columns_and_indexes_priority {conf : Config} {prev : Loaded} (m : Model)
    {fields : List FieldMeta} {cmds : List Cmd}
    (h : Model.allColumnCmds conf prev fields = some cmds) :
    ∀ cmd ∈ cmds ++ m.indexCmds prev, 2 ≤ cmd.priority := by
  intro cmd hcmd
  rcases List.mem_append.mp hcmd with hcmd | hcmd
  · exact allColumnCmds_priority h cmd hcmd
  · exact indexCmds_priority m prev cmd hcmd

/-- The sort puts the rename in front of the statements that use the new name. -/
theorem SortedFrom.first {cmd : Cmd} {cmds sorted : List Cmd} (h : SortedFrom (cmd :: cmds) sorted)
    (hcmd : cmd.priority = 1) (hcmds : ∀ c ∈ cmds, 2 ≤ c.priority) :
    ∃ rest, sorted = cmd :: rest ∧ ∀ c ∈ rest, 2 ≤ c.priority := by
  obtain ⟨hperm, hordered⟩ := h
  cases sorted with
  | nil => exact absurd hperm.length_eq (by simp)
  | cons first rest =>
    have hfirst : first = cmd := by
      by_contra hne
      have hlate : 2 ≤ first.priority := by
        have hmem := hperm.subset List.mem_cons_self
        exact hcmds first ((List.mem_cons.mp hmem).resolve_left hne)
      have hmem := hperm.symm.subset List.mem_cons_self
      have hrest : cmd ∈ rest := (List.mem_cons.mp hmem).resolve_left (Ne.symm hne)
      have hle := (List.pairwise_cons.mp hordered).1 cmd hrest
      omega
    refine ⟨rest, by rw [hfirst], fun c hc => ?_⟩
    rw [hfirst] at hperm
    exact hcmds c (hperm.cons_inv.subset hc)

/-- A table that the file does not name is not renamed by the comparison. -/
theorem diffTable_unnamed {conf : Config} {m : Model} {prev : Loaded} {cmds : List Cmd}
    (hname : prev.tableName = []) (h : m.diffTable conf prev = some cmds) :
    ∀ cmd ∈ cmds, 2 ≤ cmd.priority := by
  unfold Model.diffTable at h
  split at h
  · simp only [hname, Option.bind_eq_bind, Option.bind_eq_some_iff, Option.some.injEq] at h
    obtain ⟨columns, hcolumns, rfl⟩ := h
    simpa using columns_and_indexes_priority m hcolumns
  · obtain rfl : [] = cmds := Option.some.inj h
    simp

theorem setPk_keeps {out out' : Loaded} {name : Str} (h : out.setPk name = some out') :
    out'.tableName = out.tableName ∧ out'.fields.length = out.fields.length := by
  unfold Loaded.setPk at h
  cases hlookup : out.nameToIndex.lookup name with
  | none =>
    simp only [hlookup] at h
    split at h
    · obtain rfl := Option.some.inj h
      exact ⟨rfl, List.length_modify _ _ _⟩
    · cases h
  | some i =>
    simp only [hlookup] at h
    split at h
    · obtain rfl := Option.some.inj h
      exact ⟨rfl, List.length_modify _ _ _⟩
    · cases h

theorem addIndexRow_keeps {out out' : Loaded} {row : IndexRow}
    (h : out.addIndexRow row = some out') :
    out'.tableName = out.tableName ∧ out'.fields.length = out.fields.length := by
  unfold Loaded.addIndexRow at h
  split at h
  · obtain rfl := Option.some.inj h
    exact ⟨rfl, rfl⟩
  · split at h
    · obtain ⟨d, hd, heq⟩ := Option.bind_eq_some_iff.mp h
      obtain rfl := Option.some.inj heq
      have hkeeps := setPk_keeps hd
      exact hkeeps
    · obtain rfl := Option.some.inj h
      exact ⟨rfl, rfl⟩

theorem foldlM_addIndexRow_keeps {rows : List IndexRow} {out out' : Loaded}
    (h : rows.foldlM Loaded.addIndexRow out = some out') :
    out'.tableName = out.tableName ∧ out'.fields.length = out.fields.length := by
  induction rows generalizing out with
  | nil =>
    obtain rfl := Option.some.inj h
    exact ⟨rfl, rfl⟩
  | cons row rows ih =>
    rw [List.foldlM_cons] at h
    obtain ⟨next, hnext, hrest⟩ := Option.bind_eq_some_iff.mp h
    obtain ⟨hname, hlen⟩ := addIndexRow_keeps hnext
    obtain ⟨hname', hlen'⟩ := ih hrest
    exact ⟨hname'.trans hname, hlen'.trans hlen⟩

/-- What a lookup in the database leaves: no name, and a field for each row. -/
theorem loadFromDB_keeps {conf : Config} {catalog : Catalog} {table : Str} {rows : List ColumnRow}
    (hrows : catalog.getColumns table = some rows) {d : Loaded}
    (h : loadFromDB conf catalog table {} = some d) :
    d.tableName = [] ∧ d.fields.length = rows.length := by
  simp only [loadFromDB, hrows, Option.bind_eq_bind, Option.bind_some] at h
  split at h
  · rename_i hempty
    obtain rfl := Option.some.inj h
    rw [List.isEmpty_iff.mp hempty]
    exact ⟨rfl, rfl⟩
  · obtain ⟨indexRows, -, hfold⟩ := Option.bind_eq_some_iff.mp h
    obtain ⟨hname, hlen⟩ := foldlM_addIndexRow_keeps hfold
    obtain ⟨hfields, htable, -⟩ := addColumnRows_fields conf rows 0 {}
    rw [hfields] at hlen
    exact ⟨hname.trans htable, hlen.trans (by simp)⟩

namespace InformationSchema

/-- The query for a table finds columns exactly if there is such a table. -/
def Finds (is : InformationSchema) (schema table : Str) : Prop :=
  ∃ rows, (is.catalog schema).getColumns table = some rows ∧ (rows ≠ [] ↔ is.Exists schema table)

theorem finds_of_plain (is : InformationSchema) {schema table : Str} (hschema : Plain schema)
    (htable : Plain table) : is.Finds schema table :=
  ⟨_, getColumns_plain hschema htable, Iff.rfl⟩

/-- It shows the tables of a database. -/
def Shows (is : InformationSchema) (schema : Str) (db : Database) : Prop :=
  ∀ table, is.Exists schema table ↔ (db table).isSome

theorem loadFromDB_finds {is : InformationSchema} {schema table : Str} (h : is.Finds schema table)
    {conf : Config} {d : Loaded}
    (hload : loadFromDB conf (is.catalog schema) table {} = some d) :
    d.tableName = [] ∧ (d.fields.length = 0 ↔ ¬ is.Exists schema table) ∧
      (¬ is.Exists schema table → d = {}) := by
  obtain ⟨rows, hrows, hexists⟩ := h
  obtain ⟨hname, hlen⟩ := loadFromDB_keeps hrows hload
  refine ⟨hname, ?_, fun hmissing => ?_⟩
  · rw [hlen, ← hexists, not_not, List.length_eq_zero_iff]
  · have hnil : rows = [] := not_not.mp (mt hexists.mp hmissing)
    rw [loadFromDB, hrows, hnil] at hload
    exact (Option.some.inj hload).symm

end InformationSchema

section First

variable {conf : Config} {schema : Str} {is : InformationSchema} {m : Model}

/-- The commands of a class that the file does not know: none but on columns and
indexes if its table is there, a rename in front of them if it is there under the
default name, and else the one that creates it. -/
structure FirstCmds (is : InformationSchema) (schema : Str) (m : Model) (cmds : List Cmd) :
    Prop where
  declared : is.Exists schema m.getTableName → ∀ cmd ∈ cmds, 2 ≤ cmd.priority
  default_ : ¬ is.Exists schema m.getTableName → is.Exists schema m.getDefaultTableName →
    ∃ rest, cmds = m.renameCmd :: rest ∧ ∀ cmd ∈ rest, 2 ≤ cmd.priority
  created : ¬ is.Exists schema m.getTableName → ¬ is.Exists schema m.getDefaultTableName →
    cmds = [⟨[], .MIGACTION_CREATE_TABLE, []⟩]

theorem autoMigrate_unsaved {fuel : Nat} {cmds : List Cmd} {loaded : Loaded}
    (hdeclared : is.Finds schema m.getTableName)
    (hdefault : ¬ is.Exists schema m.getTableName → is.Finds schema m.getDefaultTableName)
    (h : m.AutoMigrate conf fuel none (is.catalog schema) {} = some (cmds, loaded)) :
    (∃ prev, loaded = m.recorded prev) ∧ FirstCmds is schema m cmds := by
  have hfile : loadFromFile fuel none m.className {} = some {} := rfl
  have hlen : ({} : Loaded).tableName.length = 0 := rfl
  simp only [Model.AutoMigrate, hfile, Model.searchTable, hlen, if_true, Option.bind_eq_bind,
    Option.bind_some, Option.bind_eq_some_iff, Prod.exists, Option.some.injEq,
    Prod.mk.injEq] at h
  obtain ⟨prev, found, ⟨d, hload, hsearch⟩, diff, hdiff, rfl, rfl⟩ := h
  obtain ⟨hname, hfields, hsame⟩ := InformationSchema.loadFromDB_finds hdeclared hload
  refine ⟨⟨prev, rfl⟩, ?_⟩
  by_cases hexists : is.Exists schema m.getTableName
  · rw [if_neg fun hzero => hfields.mp hzero hexists] at hsearch
    obtain ⟨rfl, rfl⟩ := Prod.mk.inj (Option.some.inj hsearch)
    constructor
    case declared => exact fun _ => diffTable_unnamed hname hdiff
    case default_ => exact fun hmissing => absurd hexists hmissing
    case created => exact fun hmissing => absurd hexists hmissing
  · rw [if_pos (hfields.mpr hexists), hsame hexists] at hsearch
    obtain ⟨d', hload', hsearch⟩ := Option.bind_eq_some_iff.mp hsearch
    obtain ⟨hname', hfields', hsame'⟩ :=
      InformationSchema.loadFromDB_finds (hdefault hexists) hload'
    by_cases hold : is.Exists schema m.getDefaultTableName
    · rw [if_neg fun hzero => hfields'.mp hzero hold] at hsearch
      obtain ⟨rfl, rfl⟩ := Prod.mk.inj (Option.some.inj hsearch)
      constructor
      case declared => exact fun hthere => absurd hthere hexists
      case default_ => exact fun _ _ => ⟨diff, rfl, diffTable_unnamed hname' hdiff⟩
      case created => exact fun _ hmissing => absurd hold hmissing
    · rw [if_pos (hfields'.mpr hold)] at hsearch
      obtain ⟨rfl, rfl⟩ := Prod.mk.inj (Option.some.inj hsearch)
      have hnone : diff = [] := by
        have hzero : ¬ d'.fields.length > 0 := by
          rw [hfields'.mpr hold]
          exact Nat.lt_irrefl 0
        rw [Model.diffTable, if_neg hzero] at hdiff
        exact (Option.some.inj hdiff).symm
      constructor
      case declared => exact fun hthere => absurd hthere hexists
      case default_ => exact fun _ hthere => absurd hthere hold
      case created => exact fun _ _ => by rw [hnone]; rfl

end First

/-! ## Histories of names -/

/-- The metadata file, the database as it is watched, and the version that ran last. -/
structure TableHistory where
  file : Option Str
  watched : Watched
  last : Option Model

def TableHistory.start (db : Database) : TableHistory := ⟨none, ⟨db, none, []⟩, none⟩

/-- A version, and what information_schema shows when it starts. -/
structure Launch where
  model : Model
  shown : InformationSchema

/-- The table that a class without one finds in the database. -/
def Model.adopts (m : Model) (db : Database) : Option Str :=
  if (db m.getTableName).isSome then some m.getTableName
  else if (db m.getDefaultTableName).isSome then some m.getDefaultTableName
  else none

/-- From the first run on the class has the table that this run has found, or made. -/
def Model.claims (m : Model) (s : Watched) : Watched :=
  { s with rows := s.rows.or (m.adopts s.db) }

/-- One process runs `AutoMigrate`, `migrate` and `saveModel` with the version; no
other one touches the database. -/
inductive NameStep (conf : Config) (schema className : Str) :
    TableHistory → Launch → TableHistory → Prop
  | run {w : TableHistory} {l : Launch} {fuel : Nat} {cmds sorted : List Cmd} {prev : Loaded}
      {s : Watched} {file : Str} (hclass : l.model.className = className)
      (hshows : l.shown.Shows schema w.watched.db)
      (hmigrate : l.model.AutoMigrate conf fuel w.file (l.shown.catalog schema) {} =
        some (cmds, prev))
      (hsort : SortedFrom cmds sorted)
      (hwatch : l.model.watch conf (l.model.claims w.watched) sorted = some s)
      (hsave : saveAll conf [] [prev.saved l.model.className] = some file) :
      NameStep conf schema className w l ⟨some file, s, some l.model⟩

/-- Every ALTER TABLE statement so far has found its table, and the rows are in the
table that the version names. -/
structure TableHistory.InPlace (w : TableHistory) (m : Model) : Prop where
  missed : w.watched.missed = []
  rows : w.watched.rows = some m.getTableName

/-! ## The condition -/

/-- The condition on the first version: the lookups tell whether the tables are there,
and the statement that creates one can be read. -/
structure FirstFollows (conf : Config) (schema : Str) (w : TableHistory) (l : Launch) : Prop where
  className : l.model.className ≠ []
  tableName : l.model.getTableName ≠ []
  declared : l.shown.Finds schema l.model.getTableName
  default_ : w.watched.db l.model.getTableName = none →
    l.shown.Finds schema l.model.getDefaultTableName
  creates : w.watched.db l.model.getTableName = none →
    w.watched.db l.model.getDefaultTableName = none →
    l.model.metadata ≠ [] ∧ Written conf l.model ∧ IndicesReadable l.model.indices

/-- The name of the table stays, or it was the default one and the new one is free. -/
def NameFollows (prev m : Model) (db : Database) : Prop :=
  m.getTableName = prev.getTableName ∨
    (prev.metadata ≠ [] ∧ prev.getTableName = m.getDefaultTableName ∧ db m.getTableName = none)

/-- The condition on a later version. -/
structure LaterFollows (conf : Config) (prev m : Model) (db : Database) : Prop where
  storable : prev.saved.Storable conf
  tableName : m.getTableName ≠ []
  name : NameFollows prev m db

def Follows (conf : Config) (schema : Str) (w : TableHistory) (l : Launch) : Prop :=
  match w.last with
  | none => FirstFollows conf schema w l
  | some prev => LaterFollows conf prev l.model w.watched.db

/-! ## One run -/

theorem cppToDbLoop_ne_nil (flag : Bool) (res sub name : Str) (h : sub ≠ [] ∨ name ≠ []) :
    (cppToDbLoop flag res sub name).2 ≠ [] := by
  induction name generalizing flag res sub with
  | nil => simpa [cppToDbLoop] using h
  | cons c name ih =>
    rw [cppToDbLoop]
    generalize (if isupper c then flag else false) = run
    by_cases hstart : (!run && isupper c) = true
    · rw [if_pos hstart]
      exact ih _ _ _ (Or.inl (List.cons_ne_nil _ _))
    · rw [if_neg hstart]
      exact ih _ _ _ (Or.inl (by simp))

theorem cppToDb_ne_nil {name : Str} (h : name ≠ []) : cppToDb name ≠ [] := by
  have hlen : name.length ≠ 0 := fun hzero => h (List.length_eq_zero_iff.mp hzero)
  have hsub := cppToDbLoop_ne_nil true [] [] name (Or.inr h)
  rw [cppToDb, if_neg hlen]
  simp [appendSub, Util.toLowerCase, hsub]

/-- No statement is struck off the list. -/
theorem watch_missed {conf : Config} {m : Model} {cmds : List Cmd} {s s' : Watched}
    (h : m.watch conf s cmds = some s') (hmissed : s'.missed = []) : s.missed = [] := by
  induction cmds generalizing s with
  | nil =>
    obtain rfl : s = s' := Option.some.inj h
    exact hmissed
  | cons cmd cmds ih =>
    rw [Model.watch_cons, Option.bind_eq_some_iff] at h
    obtain ⟨sql, -, hrest⟩ := h
    have hnext := ih hrest
    rw [Watched.execute] at hnext
    dsimp only at hnext
    split at hnext
    · exact hnext
    · simp at hnext

section Run

variable {conf : Config} {schema className : Str} {w w' : TableHistory} {prev : Model} {l : Launch}

/-- What a run leaves behind. -/
structure BehindNames (conf : Config) (className : Str) (w : TableHistory) (prev : Model) :
    Prop where
  className : prev.className = className
  file : saveAll conf [] [prev.saved] = w.file
  saved : w.file.isSome
  place : w.InPlace prev
  held : w.watched.Held

def NamesInv (conf : Config) (className : Str) (w : TableHistory) : Prop :=
  match w.last with
  | none => w = TableHistory.start w.watched.db
  | some prev => BehindNames conf className w prev

/-- The rename of a class whose rows are in a table, and the statements behind it. -/
theorem rename_iff {m : Model} (hclass : m.className ≠ []) (hT : m.getTableName ≠ [])
    {s s' : Watched} {old : Str} (hrows : s.rows = some old) (htable : (s.db old).isSome)
    (hmissed : s.missed = []) (hne : old ≠ m.getTableName) {rest : List Cmd}
    (hrest : ∀ cmd ∈ rest, 2 ≤ cmd.priority)
    (hwatch : m.watch conf s (m.renameCmd :: rest) = some s') :
    (s'.missed = [] ∧ s'.rows = some m.getTableName) ↔
      old = m.getDefaultTableName ∧ s.db m.getTableName = none := by
  have hdefault : m.getDefaultTableName ≠ [] := cppToDb_ne_nil hclass
  rw [Model.watch_cons, statement_rename, Option.bind_some] at hwatch
  cases hthere : s.db m.getDefaultTableName with
  | none =>
    rw [s.execute_rename_missing hdefault hT hthere] at hwatch
    constructor
    · intro h
      have hstray := watch_missed hwatch h.1
      simp at hstray
    · intro h
      rw [h.1, hthere] at htable
      cases htable
  | some t =>
    by_cases hfree : (s.db m.getTableName).isSome
    · rw [s.execute_rename_taken hdefault hT hthere hfree] at hwatch
      have hunmoved := watch_changes hT hrest hfree hwatch
      constructor
      · intro h
        have hsame := h.2
        rw [hunmoved.rows, hrows] at hsame
        exact absurd (Option.some.inj hsame) hne
      · intro h
        rw [h.2] at hfree
        cases hfree
    · rw [s.execute_rename_free hdefault hT hthere hfree] at hwatch
      have hunmoved := watch_changes hT hrest (by simp) hwatch
      rw [hunmoved.missed, hunmoved.rows, hrows, hmissed]
      have hnone : s.db m.getTableName = none := by simpa using hfree
      by_cases hold : old = m.getDefaultTableName
      · simp [hold, hnone]
      · simp [hold, hne]

theorem Watched.Held.claims {s : Watched} (h : s.Held) (m : Model) : (m.claims s).Held := by
  intro table hrows
  rcases Option.or_eq_some_iff.mp hrows with hold | ⟨-, hfound⟩
  · exact h table hold
  · unfold Model.adopts at hfound
    split at hfound
    · obtain rfl := Option.some.inj hfound
      assumption
    · split at hfound
      · obtain rfl := Option.some.inj hfound
        assumption
      · cases hfound

theorem BehindNames.file_eq (h : BehindNames conf className w prev)
    (hstorable : prev.saved.Storable conf) : w.file = some (fileBytes conf [prev.saved]) := by
  rw [← h.file, saveAll_eq _ (by simpa using hstorable), List.nil_append]

/-- The first run: the table is found under its name, or under the default one and
renamed, or it is created. -/
theorem inPlace_first {db : Database} (hfollows : FirstFollows conf schema (.start db) l)
    (hstep : NameStep conf schema className (.start db) l w') : w'.InPlace l.model := by
  have hT := hfollows.tableName
  cases hstep with
  | @run _ cmds sorted loaded s file hclass hshows hmigrate hsort hwatch hsave =>
    have hmissing (table : Str) : ¬ l.shown.Exists schema table ↔ db table = none := by
      rw [hshows table, Bool.not_eq_true, Option.isSome_eq_false_iff, Option.isNone_iff_eq_none]
      rfl
    obtain ⟨-, hcmds⟩ := autoMigrate_unsaved hfollows.declared
      (fun hgone => hfollows.default_ ((hmissing _).mp hgone)) hmigrate
    by_cases hdeclared : l.shown.Exists schema l.model.getTableName
    · have hthere : (db l.model.getTableName).isSome := (hshows _).mp hdeclared
      have hclaims : l.model.claims ⟨db, none, []⟩ = ⟨db, some l.model.getTableName, []⟩ := by
        simp [Model.claims, Model.adopts, hthere]
      rw [TableHistory.start, hclaims] at hwatch
      have hunmoved := watch_changes hT
        (fun cmd hcmd => hcmds.declared hdeclared cmd (hsort.perm.subset hcmd)) hthere hwatch
      exact ⟨hunmoved.missed, hunmoved.rows⟩
    · have hfree : db l.model.getTableName = none := (hmissing _).mp hdeclared
      by_cases hold : l.shown.Exists schema l.model.getDefaultTableName
      · have hthere : (db l.model.getDefaultTableName).isSome := (hshows _).mp hold
        have hclaims : l.model.claims ⟨db, none, []⟩ =
            ⟨db, some l.model.getDefaultTableName, []⟩ := by
          simp [Model.claims, Model.adopts, hthere, hfree]
        obtain ⟨rest, rfl, hrest⟩ := hcmds.default_ hdeclared hold
        obtain ⟨rest', rfl, hrest'⟩ := hsort.first rfl hrest
        have hne : l.model.getDefaultTableName ≠ l.model.getTableName := by
          intro heq
          rw [heq, hfree] at hthere
          cases hthere
        rw [TableHistory.start, hclaims] at hwatch
        have hplace := (rename_iff hfollows.className hT rfl hthere rfl hne hrest' hwatch).mpr
          ⟨rfl, hfree⟩
        exact ⟨hplace.1, hplace.2⟩
      · have hnone : db l.model.getDefaultTableName = none := (hmissing _).mp hold
        have hclaims : l.model.claims ⟨db, none, []⟩ = ⟨db, none, []⟩ := by
          simp [Model.claims, Model.adopts, hnone, hfree]
        obtain ⟨hcols, hwritten, hindices⟩ := hfollows.creates hfree hnone
        obtain rfl := hcmds.created hdeclared hold
        obtain rfl := List.perm_singleton.mp hsort.perm
        obtain ⟨t, hcreate⟩ := Watched.execute_createTable ⟨db, none, []⟩ hT hfree hcols hwritten
          hindices
        rw [TableHistory.start, hclaims] at hwatch
        obtain rfl : Watched.execute ⟨db, none, []⟩ (l.model.createTable conf) = s :=
          Option.some.inj hwatch
        rw [hcreate]
        exact ⟨rfl, rfl⟩

/-- A later run, exactly. -/
theorem inPlace_later_iff (hbehind : BehindNames conf className w prev)
    (hstorable : prev.saved.Storable conf) (hT : l.model.getTableName ≠ [])
    (hstep : NameStep conf schema className w l w') :
    w'.InPlace l.model ↔ NameFollows prev l.model w.watched.db := by
  cases hstep with
  | @run _ cmds sorted loaded' s file hclass hshows hmigrate hsort hwatch hsave =>
    have hsameClass : prev.className = l.model.className := hbehind.className.trans hclass.symm
    have hload := loads_saved hsameClass hstorable
    rw [hbehind.file_eq hstorable] at hmigrate
    obtain ⟨loaded, hloaded, -⟩ := Option.bind_eq_some_iff.mp hmigrate
    obtain rfl := hload.unique hloaded
    rw [autoMigrate_saved hstorable (loadedOf_describes hstorable) hloaded] at hmigrate
    have hrows := hbehind.place.rows
    have hclaims : l.model.claims w.watched = w.watched := by
      rw [Model.claims, hrows, Option.some_or, ← hrows]
    rw [hclaims] at hwatch
    have htable := hbehind.held _ hrows
    by_cases hnil : prev.metadata = []
    · rw [if_pos hnil, Option.some.injEq, Prod.mk.injEq] at hmigrate
      rw [← hmigrate.1] at hsort
      obtain rfl := hsort.perm.eq_nil
      obtain rfl : w.watched = s := Option.some.inj hwatch
      constructor
      · intro h
        have hsame := h.rows
        rw [hrows] at hsame
        exact .inl (Option.some.inj hsame).symm
      · intro h
        obtain hsame | hmoved := h
        · exact ⟨hbehind.place.missed, by rw [hsame]; exact hrows⟩
        · exact absurd hnil hmoved.1
    · rw [if_neg hnil, Option.map_eq_some_iff] at hmigrate
      obtain ⟨columns, hcolumns, heq⟩ := hmigrate
      obtain ⟨rfl, -⟩ := Prod.mk.inj heq
      have hpriority := columns_and_indexes_priority l.model hcolumns
      by_cases hsame : prev.getTableName = l.model.getTableName
      · rw [if_pos hsame, List.nil_append] at hsort
        rw [hsame] at htable hrows
        have hunmoved := watch_changes hT
          (fun cmd hcmd => hpriority cmd (hsort.perm.subset hcmd)) htable hwatch
        refine iff_of_true ⟨hunmoved.missed.trans hbehind.place.missed, ?_⟩ (.inl hsame.symm)
        exact hunmoved.rows.trans hrows
      · rw [if_neg hsame] at hsort
        obtain ⟨rest, rfl, hrest⟩ := hsort.first rfl hpriority
        have hname : l.model.className ≠ [] := by
          rw [← hsameClass]
          exact hstorable.className.1
        have hrename := rename_iff hname hT hrows htable hbehind.place.missed hsame hrest hwatch
        constructor
        · intro h
          obtain ⟨hdefault, hfree⟩ := hrename.mp ⟨h.missed, h.rows⟩
          exact .inr ⟨hnil, hdefault, hfree⟩
        · intro h
          obtain heq | ⟨-, hdefault, hfree⟩ := h
          · exact absurd heq.symm hsame
          · have hplace := hrename.mpr ⟨hdefault, hfree⟩
            exact ⟨hplace.1, hplace.2⟩

theorem behind_step (hinv : NamesInv conf className w) (hfollows : Follows conf schema w l)
    (hstep : NameStep conf schema className w l w') :
    w'.last = some l.model ∧ BehindNames conf className w' l.model := by
  have hheld : w.watched.Held := by
    unfold NamesInv at hinv
    cases hlast : w.last with
    | none =>
      rw [hlast] at hinv
      rw [hinv]
      exact fun table hrows => by cases hrows
    | some prev =>
      rw [hlast] at hinv
      exact hinv.held
  have hplace : w'.InPlace l.model := by
    unfold NamesInv at hinv
    unfold Follows at hfollows
    cases hlast : w.last with
    | none =>
      rw [hlast] at hinv hfollows
      rw [hinv] at hfollows hstep
      exact inPlace_first hfollows hstep
    | some prev =>
      rw [hlast] at hinv hfollows
      exact (inPlace_later_iff hinv hfollows.storable hfollows.tableName hstep).mpr hfollows.name
  cases hstep with
  | @run _ cmds sorted loaded s file hclass hshows hmigrate hsort hwatch hsave =>
    have hsaved := (autoMigrate_has hmigrate).1
    rw [hsaved] at hsave
    exact ⟨rfl, hclass, hsave, rfl, hplace, (hheld.claims l.model).watch hwatch⟩

end Run

/-! ## All runs -/

/-- A step of a version that meets the condition. -/
def FollowingStep (conf : Config) (schema className : Str) (w : TableHistory) (l : Launch)
    (w' : TableHistory) : Prop :=
  Follows conf schema w l ∧ NameStep conf schema className w l w'

theorem namesInv_run {conf : Config} {schema className : Str} {db : Database}
    {launches : List Launch} {w : TableHistory}
    (hrun : Execution (FollowingStep conf schema className) (.start db) launches w) :
    NamesInv conf className w := by
  refine hrun.preserves (P := NamesInv conf className) (fun w l w' hinv hstep => ?_) rfl
  obtain ⟨hlast, hbehind⟩ := behind_step hinv hstep.1 hstep.2
  unfold NamesInv
  rw [hlast]
  exact hbehind

/-- After every version of a history whose versions meet the condition, no ALTER TABLE
statement has missed its table, and the rows are in the table that the version names. -/
theorem names_in_place {conf : Config} {schema className : Str} {db : Database}
    {launches : List Launch} {l : Launch} {w : TableHistory}
    (hrun : Execution (FollowingStep conf schema className) (.start db) (launches ++ [l]) w) :
    w.InPlace l.model ∧ (w.watched.db l.model.getTableName).isSome := by
  obtain ⟨w₁, hbefore, hlast⟩ := hrun.split launches
  cases hlast with
  | cons hstep hnil =>
    cases hnil with
    | nil =>
      have hbehind := (behind_step (namesInv_run hbefore) hstep.1 hstep.2).2
      exact ⟨hbehind.place, hbehind.held _ hbehind.place.rows⟩

/-! ## Two versions -/

def noTables : InformationSchema where
  COLUMNS := []
  STATISTICS := []
  names_nodup _ _ := List.nodup_nil
  index_columns _ _ _ hrow := absurd hrow List.not_mem_nil

theorem noTables_shows (schema : Str) : noTables.Shows schema Database.empty :=
  fun _ => iff_of_false (fun h => h rfl) Bool.false_ne_true

theorem oneTable_shows (schema table : Str) (t : Table) :
    (InformationSchema.oneTable schema table).Shows schema
      (Function.update Database.empty table (some t)) := by
  intro name
  by_cases hname : name = table
  · simp [InformationSchema.Exists, InformationSchema.oneTable, rowsOf, hname]
  · simp [InformationSchema.Exists, InformationSchema.oneTable, rowsOf, hname, Ne.symm hname,
      Database.empty]

def sampleNamed (table : Option Str) : Model where
  className := "User".toList
  tableName := table
  metadata := [{ fieldName := "id".toList, cppType := "int".toList, isPk := true, notNull := true }]
  columnToIndex := (∅ : NameToIndex).insert "id".toList 0

theorem sampleNamed_follows {table : Option Str} (hT : (sampleNamed table).getTableName ≠ [])
    (hplain : Plain (sampleNamed table).getTableName) :
    FirstFollows rulesJson "app".toList (.start Database.empty)
      ⟨sampleNamed table, noTables⟩ where
  className := (by decide : "User".toList ≠ [])
  tableName := hT
  declared := InformationSchema.finds_of_plain _ (by decide) hplain
  default_ _ := InformationSchema.finds_of_plain _ (by decide)
    (by decide : Plain (cppToDb "User".toList))
  creates _ _ := by
    refine ⟨List.cons_ne_nil _ _, ?_, fun entry hentry => by cases hentry⟩
    intro field hfield
    rw [List.mem_singleton.mp hfield]
    decide

/-- Behind a first version that has created its table. -/
def sampleCreated (table : Option Str) (t : Table) : TableHistory where
  file := some (fileBytes rulesJson [(sampleNamed table).saved])
  watched :=
    ⟨Function.update Database.empty (sampleNamed table).getTableName (some t),
      some (sampleNamed table).getTableName, []⟩
  last := some (sampleNamed table)

/-- The first version creates its table, and the second one renames it. -/
theorem sample_launches (table table' : Option Str)
    (hstorable : (sampleNamed table).saved.Storable rulesJson)
    (hstorable' : (sampleNamed table').saved.Storable rulesJson)
    (hplain : Plain (sampleNamed table).getTableName)
    (hne : (sampleNamed table).getTableName ≠ (sampleNamed table').getTableName) :
    ∃ w₁ w, FollowingStep rulesJson "app".toList "User".toList (.start Database.empty)
        ⟨sampleNamed table, noTables⟩ w₁ ∧
      NameStep rulesJson "app".toList "User".toList w₁ ⟨sampleNamed table',
        InformationSchema.oneTable "app".toList (sampleNamed table).getTableName⟩ w ∧
      w₁.last = some (sampleNamed table) ∧
      w₁.watched.db (sampleNamed table').getTableName = none := by
  have hT : (sampleNamed table).getTableName ≠ [] := hstorable.tableName.1
  have hfollows := sampleNamed_follows hT hplain
  have hnonempty : (sampleNamed table).metadata ≠ [] := List.cons_ne_nil _ _
  have hmissing (name : Str) : ¬ noTables.Exists "app".toList name := fun h => h rfl
  have hcreate : (sampleNamed table).AutoMigrate rulesJson 0 none
      (noTables.catalog "app".toList) {} =
        some ([⟨[], .MIGACTION_CREATE_TABLE, []⟩], (sampleNamed table).recorded {}) := by
    have hfile : loadFromFile 0 none (sampleNamed table).className {} = some {} := rfl
    have hdefault : Plain (sampleNamed table).getDefaultTableName :=
      (by decide : Plain (cppToDb "User".toList))
    have hnone {name : Str} (hname : Plain name) :
        loadFromDB rulesJson (noTables.catalog "app".toList) name {} = some {} :=
      InformationSchema.loadFromDB_missing (by decide) hname rulesJson (hmissing name) {}
    have hload := hnone hplain
    have hload' := hnone hdefault
    simp only [Model.AutoMigrate, hfile, Model.searchTable, hload, hload', Option.bind_eq_bind,
      Option.bind_some]
    rfl
  obtain ⟨hcols, hwritten, hindices⟩ := hfollows.creates rfl rfl
  obtain ⟨t, hexec⟩ := Watched.execute_createTable ⟨Database.empty, none, []⟩ hT rfl hcols
    hwritten hindices
  have hfirst : NameStep rulesJson "app".toList "User".toList (.start Database.empty)
      ⟨sampleNamed table, noTables⟩ (sampleCreated table t) := by
    refine .run rfl (noTables_shows _) hcreate ⟨.refl _, List.pairwise_singleton _ _⟩ ?_
      (saveAll_eq [(sampleNamed table).saved] (by simpa using hstorable) [])
    exact congrArg some hexec
  have hclass : (sampleNamed table).className = (sampleNamed table').className := rfl
  obtain ⟨n, hload⟩ := loads_saved hclass hstorable
  have hcolumns : Model.allColumnCmds rulesJson (loadedOf rulesJson (sampleNamed table).saved)
      (sampleNamed table').metadata = some [] := rfl
  have hmigrate := autoMigrate_saved hstorable (loadedOf_describes hstorable)
    (hload n (Nat.le_refl n))
    ((InformationSchema.oneTable "app".toList (sampleNamed table).getTableName).catalog
      "app".toList)
  rw [if_neg hnonempty, hcolumns, Option.map_some, if_neg hne] at hmigrate
  have hsecond : NameStep rulesJson "app".toList "User".toList (sampleCreated table t)
      ⟨sampleNamed table',
        InformationSchema.oneTable "app".toList (sampleNamed table).getTableName⟩ _ :=
    .run rfl (oneTable_shows _ _ t) hmigrate ⟨.refl _, List.pairwise_singleton _ _⟩ rfl
      (saveAll_eq [(sampleNamed table').saved] (by simpa using hstorable') [])
  exact ⟨_, _, ⟨hfollows, hfirst⟩, hsecond, rfl, Function.update_of_ne (Ne.symm hne) _ _⟩

/-- A version that names its table `member`, and one that names it `person`: the second
run renames `user`, which is not there. -/
theorem names_lost : ¬ ∀ (conf : Config) (schema className : Str) (db : Database)
    (launches : List Launch) (l : Launch) (w : TableHistory),
    Execution (NameStep conf schema className) (.start db) (launches ++ [l]) w →
    w.InPlace l.model := by
  intro hall
  have hstorable : (sampleNamed (some "member".toList)).saved.Storable rulesJson := by decide
  obtain ⟨w₁, w, hfirst, hsecond, -, -⟩ := sample_launches (some "member".toList)
    (some "person".toList) hstorable (by decide) (by decide) (by decide)
  have hstart : NamesInv rulesJson "User".toList (.start Database.empty) := rfl
  have hbehind := (behind_step hstart hfirst.1 hfirst.2).2
  have hplace := hall _ _ _ _ [_] _ w (.cons hfirst.2 (.cons hsecond (.nil _)))
  obtain hsame | hdefault :=
    (inPlace_later_iff hbehind hstorable (by decide) hsecond).mp hplace
  · exact absurd hsame (by decide)
  · exact absurd hdefault.2.1 (by decide)

/-- No name at first, and then `member`. -/
theorem names_in_place_sample : ∃ w, Execution (NameStep rulesJson "app".toList "User".toList)
      (.start Database.empty)
      [⟨sampleNamed none, noTables⟩, ⟨sampleNamed (some "member".toList),
        InformationSchema.oneTable "app".toList "user".toList⟩] w ∧
    w.InPlace (sampleNamed (some "member".toList)) ∧
    (w.watched.db "member".toList).isSome := by
  have hstorable : (sampleNamed none).saved.Storable rulesJson := by decide
  obtain ⟨w₁, w, hfirst, hsecond, hlast, hfree⟩ := sample_launches none
    (some "member".toList) hstorable (by decide) (by decide) (by decide)
  have hfollows : Follows rulesJson "app".toList w₁ ⟨sampleNamed (some "member".toList),
      InformationSchema.oneTable "app".toList "user".toList⟩ := by
    unfold Follows
    rw [hlast]
    exact ⟨hstorable, by decide, .inr ⟨List.cons_ne_nil _ _, rfl, hfree⟩⟩
  have hrun : Execution (FollowingStep rulesJson "app".toList "User".toList)
      (.start Database.empty) ([⟨sampleNamed none, noTables⟩] ++
        [⟨sampleNamed (some "member".toList),
          InformationSchema.oneTable "app".toList "user".toList⟩]) w :=
    .cons hfirst (.cons ⟨hfollows, hsecond⟩ (.nil _))
  exact ⟨w, .cons hfirst.2 (.cons hsecond (.nil _)), names_in_place hrun⟩

end TinyOrm
