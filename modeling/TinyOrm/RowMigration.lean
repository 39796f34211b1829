import TinyOrm.Lib.Carrying
import TinyOrm.ColumnHistory
import TinyOrm.RowStore
set_option autoImplicit false

/-!
What the statements of a migration make of the rows that are stored.
-/

namespace TinyOrm

open Renaming (Change Filled carryAll)

/-! ## Rows and definitions -/

/-- How a server treats values: whether an atomic predicate is true of a row, what a column
keeps of a value that is sent to it, what the row with a number has where nothing is sent
(AUTO_INCREMENT, a default, NULL), and what becomes of a value whose column is defined anew.
`stale` is for the getters. -/
structure ValueRules where
  truth : TableRow → BoundAtom → Option Bool
  keep : ColumnDef → Value → Value
  fill : Nat → ColumnDef → Option Value
  convert : ColumnDef → Option Value → Option Value
  stale : Row

structure DataStore where
  db : Database
  data : Str → StoredRows

def StoredRows.mapRows (f : Nat → TableRow → TableRow) (t : StoredRows) : StoredRows :=
  ⟨t.rows.mapIdx f, t.inserted⟩

theorem StoredRows.mapRows_same {f : Nat → TableRow → TableRow} (h : ∀ i row, f i row = row)
    (t : StoredRows) : t.mapRows f = t := by
  refine congrArg (StoredRows.mk · t.inserted) (List.ext_getElem? fun i => ?_)
  rw [List.getElem?_mapIdx]
  cases t.rows[i]? with
  | none => rfl
  | some row => rw [Option.map_some, h]

theorem StoredRows.mapRows_mapRows (f g : Nat → TableRow → TableRow) (t : StoredRows) :
    (t.mapRows f).mapRows g = t.mapRows fun i row => g i (f i row) :=
  congrArg (StoredRows.mk · t.inserted) List.mapIdx_mapIdx

variable (rules : ValueRules)

/-- What a statement that the database accepts makes of the rows. -/
def Ddl.move (data : Str → StoredRows) : Ddl → Str → StoredRows
  | .createTable table _ _ => Function.update data table ⟨[], 0⟩
  | .renameTable old new => Function.update data new (data old)
  | .addColumn table name col => Function.update data table ((data table).mapRows fun i row =>
      Function.update row name (rules.fill i col))
  | .changeColumn table old name col => Function.update data table ((data table).mapRows
      fun _ row =>
        Function.update (Function.update row old none) name (rules.convert col (row old)))
  | .dropIndex _ _ => data
  | .addIndex _ _ => data

def DataStore.execute (w : DataStore) (sql : Sql) : Option DataStore := do
  let ddl ← readDdl sql
  let db ← w.db.apply ddl
  some ⟨db, ddl.move rules w.data⟩

/-- The loop of `migrate` over a database with rows. -/
def Model.migrateData (conf : Config) (m : Model) (w : DataStore) (cmds : List Cmd) :
    Option DataStore :=
  cmds.foldlM (fun w cmd => do
    let sql ← m.statement conf cmd
    some ((w.execute rules sql).getD w)) w

theorem DataStore.execute_db (w : DataStore) (sql : Sql) :
    (w.execute rules sql).map DataStore.db = w.db.execute sql := by
  rw [DataStore.execute, Database.execute]
  cases readDdl sql with
  | none => rfl
  | some ddl =>
    simp only [Option.bind_eq_bind, Option.bind_some]
    cases w.db.apply ddl <;> rfl

theorem DataStore.execute_getD_db (w : DataStore) (sql : Sql) :
    ((w.execute rules sql).getD w).db = (w.db.execute sql).getD w.db := by
  rw [← execute_db rules]
  cases w.execute rules sql <;> rfl

/-- The rows do not change what the definitions become. -/
theorem Model.migrateData_db (conf : Config) (m : Model) (w : DataStore) (cmds : List Cmd) :
    (m.migrateData rules conf w cmds).map DataStore.db = m.migrate conf w.db cmds := by
  induction cmds generalizing w with
  | nil => rfl
  | cons cmd cmds ih =>
    rw [migrateData, migrate, List.foldlM_cons, List.foldlM_cons]
    cases m.statement conf cmd with
    | none => rfl
    | some sql =>
      simp only [Option.bind_eq_bind, Option.bind_some]
      rw [← DataStore.execute_getD_db rules]
      exact ih _

variable {rules}

/-! ## One statement -/

section Statements

variable {conf : Config} {m : Model} {w : DataStore} {t : Table} {name : Str} {field : FieldMeta}

theorem readDdl_addColumn (hT : m.getTableName ≠ []) (hfield : m.getMetadata name = some field)
    (hname : name ≠ []) (htype : field.getColumnType conf ≠ []) (p : Str) {sql : Sql}
    (hsql : m.statement conf ⟨name, .MIGACTION_ADD_COLUMN, p⟩ = some sql) :
    readDdl sql = some (.addColumn m.getTableName name (alteredDef conf field)) := by
  obtain ⟨type, toks, hlex, hread⟩ := lexDdl_alterColumn hname htype
  have hadd (rest : Sql) : lexDdl .none (lit "ADD COLUMN " ++ rest) =
      .kw .ADD :: .kw .COLUMN :: lexDdl .none rest := rfl
  have htext : m.statement conf ⟨name, .MIGACTION_ADD_COLUMN, p⟩ = some
      (m.alterTable ++ (lit " " ++ (lit "ADD COLUMN " ++ Model.alterColumn conf name field))) := by
    simp only [Model.statement, hfield, Option.bind_eq_bind, Option.bind_some, List.append_assoc]
    rfl
  obtain rfl := Option.some.inj (htext.symm.trans hsql)
  rw [readDdl, lexDdl_alterTable hT, hadd, hlex]
  simp only [readAlter, hread]

theorem readDdl_changeColumn (hT : m.getTableName ≠ []) (hfield : m.getMetadata name = some field)
    (hname : name ≠ []) (htype : field.getColumnType conf ≠ []) {p old : Str} (hold : old ≠ [])
    (hp : (if p.length = 0 then name else p) = old) {sql : Sql}
    (hsql : m.statement conf ⟨name, .MIGACTION_CHANGE_COLUMN, p⟩ = some sql) :
    readDdl sql = some (.changeColumn m.getTableName old name (alteredDef conf field)) := by
  obtain ⟨type, toks, hlex, hread⟩ := lexDdl_alterColumn hname htype
  have hchange (rest : Sql) : lexDdl .none (lit "CHANGE " ++ (word old ++ (lit " " ++ rest))) =
      .kw .CHANGE :: .name old :: lexDdl .none rest := by
    have hkw (rest : Sql) : lexDdl .none (lit "CHANGE " ++ rest) =
        .kw .CHANGE :: lexDdl .none rest := rfl
    have hblank : lexDdl (.given old) (lit " " ++ rest) = .name old :: lexDdl .none rest := rfl
    rw [hkw, lexDdl_word hold, hblank]
  have htext : m.statement conf ⟨name, .MIGACTION_CHANGE_COLUMN, p⟩ = some
      (m.alterTable ++ (lit " " ++ (lit "CHANGE " ++ (word old ++ (lit " " ++
        Model.alterColumn conf name field))))) := by
    simp only [Model.statement, hfield, hp, Option.bind_eq_bind, Option.bind_some,
      List.append_assoc]
    rfl
  obtain rfl := Option.some.inj (htext.symm.trans hsql)
  rw [readDdl, lexDdl_alterTable hT, hchange, hlex]
  simp only [readAlter, hread]

theorem readAlter_drop {table : Str} {toks : List DdlTok} {ddl : Ddl}
    (h : readAlter table (.kw .DROP :: toks) = some ddl) : ∃ name, ddl = .dropIndex table name := by
  unfold readAlter at h
  split at h
  case h_4 => exact ⟨_, (Option.some.inj h).symm⟩
  case h_5 => exact ⟨_, (Option.some.inj h).symm⟩
  all_goals simp_all

theorem readDdl_dropIndex (hT : m.getTableName ≠ []) {p : Str} {sql : Sql}
    (hsql : m.statement conf ⟨name, .MIGACTION_DROP_INDEX, p⟩ = some sql) {ddl : Ddl}
    (hddl : readDdl sql = some ddl) : ∃ name, ddl = .dropIndex m.getTableName name := by
  obtain ⟨rest, rfl⟩ : ∃ rest, sql = m.alterTable ++ (lit " " ++ (lit "DROP " ++ rest)) := by
    simp only [Model.statement] at hsql
    split at hsql
    · exact ⟨lit "PRIMARY KEY", (Option.some.inj hsql).symm⟩
    · refine ⟨lit "INDEX " ++ word name, ?_⟩
      rw [← Option.some.inj hsql, List.append_assoc]
      rfl
  have hdrop : lexDdl .none (lit "DROP " ++ rest) = .kw .DROP :: lexDdl .none rest := rfl
  rw [readDdl, lexDdl_alterTable hT, hdrop] at hddl
  exact readAlter_drop hddl

/-- An index command leaves all rows alone. -/
theorem move_index (hT : m.getTableName ≠ []) {cmd : Cmd} (hcmd : cmd.isIndex) {sql : Sql}
    (hsql : m.statement conf cmd = some sql) {ddl : Ddl} (hddl : readDdl sql = some ddl)
    (data : Str → StoredRows) : ddl.move rules data = data := by
  obtain ⟨name, action, p⟩ := cmd
  cases action with
  | MIGACTION_DROP_INDEX =>
    obtain ⟨key, rfl⟩ := readDdl_dropIndex hT hsql hddl
    rfl
  | MIGACTION_ADD_INDEX =>
    have htext : m.statement conf ⟨name, .MIGACTION_ADD_INDEX, []⟩ = some sql := hsql
    cases hindex : m.indices.lookup name with
    | none => simp [Model.statement, Model.getIndex, hindex] at htext
    | some index =>
      have hread := readDdl_addIndex hT conf hindex
      rw [htext, Option.bind_some, hddl] at hread
      split at hread
      · obtain rfl := Option.some.inj hread
        rfl
      · cases hread
  | _ => simp [Cmd.isIndex] at hcmd

/-- A row behind some changes of the columns of its table. -/
def changedRow (rules : ValueRules) (conf : Config) (m : Model) (cols : Str → Option ColumnDef)
    (changes : List (Change Str)) (i : Nat) (row : TableRow) : TableRow :=
  (carryAll (alteredAs conf m) (fun name => rules.fill i (alteredAs conf m name))
    (fun name => rules.convert (alteredAs conf m name)) ⟨cols, row⟩ changes).contents

theorem changedRow_one (cols : Str → Option ColumnDef) (c : Change Str) (i : Nat)
    (row : TableRow) : changedRow rules conf m cols [c] i row =
      if Renaming.Blocked cols c then row
      else Renaming.move (fun name => rules.fill i (alteredAs conf m name))
        (fun name => rules.convert (alteredAs conf m name)) row c := rfl

theorem execute_blocked {sql : Sql} {ddl : Ddl} (hddl : readDdl sql = some ddl)
    (happly : w.db.apply ddl = none) : (w.execute rules sql).getD w = w := by
  rw [DataStore.execute, hddl, Option.bind_eq_bind, Option.bind_some, happly]
  rfl

theorem execute_moved {sql : Sql} {ddl : Ddl} {db : Database} (hddl : readDdl sql = some ddl)
    (happly : w.db.apply ddl = some db) :
    (w.execute rules sql).getD w = ⟨db, ddl.move rules w.data⟩ := by
  rw [DataStore.execute, hddl, Option.bind_eq_bind, Option.bind_some, happly]
  rfl

/-- One statement and what it makes of the rows. -/
theorem execute_rows (hT : m.getTableName ≠ []) (hdb : w.db m.getTableName = some t) {cmd : Cmd}
    (hcmd : Runnable conf m cmd) {sql : Sql} (hsql : m.statement conf cmd = some sql) :
    ((w.execute rules sql).getD w).data m.getTableName =
      (w.data m.getTableName).mapRows (changedRow rules conf m t.columns cmd.change.toList) := by
  have hsame (hchange : cmd.change = none) : w.data m.getTableName =
      (w.data m.getTableName).mapRows (changedRow rules conf m t.columns cmd.change.toList) := by
    rw [hchange]
    exact (StoredRows.mapRows_same (fun _ _ => rfl) _).symm
  have hblocked {c : Change Str} (hchange : cmd.change = some c)
      (hblock : Renaming.Blocked t.columns c) : w.data m.getTableName =
        (w.data m.getTableName).mapRows (changedRow rules conf m t.columns cmd.change.toList) := by
    rw [hchange, Option.toList_some, StoredRows.mapRows_same fun i row => ?_]
    rw [changedRow_one, if_pos hblock]
  have hindex (hcmd : cmd.isIndex) :
      ((w.execute rules sql).getD w).data m.getTableName = w.data m.getTableName := by
    cases hddl : readDdl sql with
    | none => rw [DataStore.execute, hddl]; rfl
    | some ddl =>
      cases happly : w.db.apply ddl with
      | none => rw [execute_blocked hddl happly]
      | some db => rw [execute_moved hddl happly, move_index hT hcmd hsql hddl]
  obtain ⟨name, action, p⟩ := cmd
  cases action with
  | MIGACTION_CREATE_TABLE => exact hcmd.elim
  | MIGACTION_CHANGE_TABLENAME => exact hcmd.elim
  | MIGACTION_DROP_INDEX => exact (hindex rfl).trans (hsame rfl)
  | MIGACTION_ADD_INDEX => exact (hindex rfl).trans (hsame rfl)
  | MIGACTION_ADD_COLUMN =>
    obtain ⟨hname, field, hfield, htype⟩ := hcmd
    have hD : alteredAs conf m name = alteredDef conf field := alteredAs_of_getMetadata hfield
    have hddl := readDdl_addColumn hT hfield hname htype p hsql
    have happly : w.db.apply (.addColumn m.getTableName name (alteredDef conf field)) =
        if (t.columns name).isSome then none
        else some (Function.update w.db m.getTableName (some { t with
          columns := Function.update t.columns name (some (alteredDef conf field)) })) := by
      by_cases hex : (t.columns name).isSome <;>
        simp [Database.apply, Database.alter, hdb, hex]
    by_cases hex : (t.columns name).isSome
    · rw [if_pos hex] at happly
      rw [execute_blocked hddl happly]
      exact hblocked rfl hex
    · rw [if_neg hex] at happly
      have hfree : ¬ Renaming.Blocked t.columns (.add name) := hex
      have hrows : changedRow rules conf m t.columns [.add name] = fun i row =>
          Function.update row name (rules.fill i (alteredDef conf field)) := by
        funext i row
        rw [changedRow_one, if_neg hfree, Renaming.move, hD]
      have hmoved : (w.execute rules sql).getD w = _ := execute_moved hddl happly
      have hdata := congrArg (fun w => w.data m.getTableName) hmoved
      exact hdata.trans ((Function.update_self _ _ _).trans
        (congrArg (StoredRows.mapRows · _) hrows.symm))
  | MIGACTION_CHANGE_COLUMN =>
    obtain ⟨hname, field, hfield, htype⟩ := hcmd
    have hD : alteredAs conf m name = alteredDef conf field := alteredAs_of_getMetadata hfield
    generalize hp : (if p.length = 0 then name else p) = old
    have hold : old ≠ [] := by
      rw [← hp]
      split
      · exact hname
      · exact fun he => absurd (congrArg List.length he) (by assumption)
    have hchange : Cmd.change ⟨name, .MIGACTION_CHANGE_COLUMN, p⟩ = some (.change old name) := by
      simp only [Cmd.change, hp]
    have hddl := readDdl_changeColumn hT hfield hname htype hold hp hsql
    have happly : w.db.apply (.changeColumn m.getTableName old name (alteredDef conf field)) =
        if (t.columns old).isNone ∨ (name ≠ old ∧ (t.columns name).isSome) then none
        else some (Function.update w.db m.getTableName (some { t with
          columns := Function.update (Function.update t.columns old none) name
            (some (alteredDef conf field)) })) := by
      simp only [Database.apply, Database.alter, hdb, Option.bind_eq_bind, Option.bind_some]
      split <;> rfl
    by_cases hex : (t.columns old).isNone ∨ (name ≠ old ∧ (t.columns name).isSome)
    · rw [if_pos hex] at happly
      rw [execute_blocked hddl happly]
      exact hblocked hchange hex
    · rw [if_neg hex] at happly
      have hfree : ¬ Renaming.Blocked t.columns (.change old name) := hex
      have hrows : changedRow rules conf m t.columns [.change old name] = fun _ row =>
          Function.update (Function.update row old none) name
            (rules.convert (alteredDef conf field) (row old)) := by
        funext i row
        rw [changedRow_one, if_neg hfree, Renaming.move, hD]
      have hmoved : (w.execute rules sql).getD w = _ := execute_moved hddl happly
      have hdata := congrArg (fun w => w.data m.getTableName) hmoved
      rw [hchange]
      exact hdata.trans ((Function.update_self _ _ _).trans
        (congrArg (StoredRows.mapRows · _) hrows.symm))

/-- The commands of a migration and what they make of the rows. -/
theorem migrateData_rows (hT : m.getTableName ≠ []) (hdb : w.db m.getTableName = some t)
    {cmds : List Cmd} (hcmds : ∀ cmd ∈ cmds, Runnable conf m cmd) {w' : DataStore}
    (hmigrate : m.migrateData rules conf w cmds = some w') :
    w'.data m.getTableName = (w.data m.getTableName).mapRows
      (changedRow rules conf m t.columns (cmds.filterMap Cmd.change)) := by
  induction cmds generalizing w t with
  | nil =>
    obtain rfl : w = w' := Option.some.inj hmigrate
    exact (StoredRows.mapRows_same (fun _ _ => rfl) _).symm
  | cons cmd cmds ih =>
    obtain ⟨sql, t₁, hsql, ht₁, hcols⟩ := execute_columns hT hdb (hcmds cmd (by simp))
    have hcons : m.migrateData rules conf w (cmd :: cmds) =
        (m.statement conf cmd).bind fun sql =>
          m.migrateData rules conf ((w.execute rules sql).getD w) cmds := by
      simp [Model.migrateData, Option.bind_assoc]
    rw [hcons, hsql, Option.bind_some] at hmigrate
    have hrest := ih (by rw [DataStore.execute_getD_db rules]; exact ht₁)
      (fun c hc => hcmds c (by simp [hc])) hmigrate
    rw [hrest, execute_rows hT hdb (hcmds cmd (by simp)) hsql, StoredRows.mapRows_mapRows]
    refine congrArg (StoredRows.mapRows · _) ?_
    funext i row
    have hsplit : (cmd :: cmds).filterMap Cmd.change =
        cmd.change.toList ++ cmds.filterMap Cmd.change := by
      cases hchange : cmd.change with
      | none => rw [List.filterMap_cons_none hchange]; rfl
      | some c => rw [List.filterMap_cons_some hchange]; rfl
    have hentries : t₁.columns = (carryAll (alteredAs conf m)
        (fun name => rules.fill i (alteredAs conf m name))
        (fun name => rules.convert (alteredAs conf m name)) ⟨t.columns, row⟩
        cmd.change.toList).entries := by
      rw [Renaming.carryAll_entries, hcols]
      cases cmd.change <;> rfl
    rw [hsplit, changedRow, changedRow, changedRow, Renaming.carryAll_append, hentries]

end Statements

/-! ## The cells of a version -/

/-- What the row with an index has for a field behind the version `prev`: what it had in the
column of the field or else of the member, converted where the column is defined anew, or
what the server fills in. -/
def migratedCell (rules : ValueRules) (conf : Config) (prev : Model) (i : Nat) (row : TableRow)
    (field : FieldMeta) : Option Value :=
  match prev.metadata.find? (·.getColumnName = field.getColumnName) with
  | some old =>
    if FieldMeta.eq conf field old = some true then row field.getColumnName
    else rules.convert (alteredDef conf field) (row field.getColumnName)
  | none =>
    match prev.metadata.find? (·.fieldName = field.fieldName) with
    | some old => rules.convert (alteredDef conf field) (row old.getColumnName)
    | none => rules.fill i (alteredDef conf field)

/-- No column that the table still has from earlier versions is declared again. -/
def NoneReturns (prev m : Model) (cols : Str → Option ColumnDef) : Prop :=
  ∀ field ∈ m.metadata, (∀ old ∈ prev.metadata, old.getColumnName ≠ field.getColumnName) →
    cols field.getColumnName = none

instance (prev m : Model) (cols : Str → Option ColumnDef) : Decidable (NoneReturns prev m cols) :=
  inferInstanceAs (Decidable (∀ field ∈ m.metadata, _ → _))

section Cells

variable {conf : Config} {className tableName : Str} {prev m : Model}
variable {cols : Str → Option ColumnDef} {changes : List (Change Str)}

/-- A column of the previous version whose member keeps it. -/
theorem changedRow_old (hp : IsVersion className tableName prev)
    (hm : IsVersion className tableName m)
    (hperm : changes.Perm (m.metadata.filterMap (fieldChange conf prev)))
    {field old : FieldMeta} (hfield : field ∈ m.metadata)
    (hfind : prev.metadata.find? (·.getColumnName = field.getColumnName) = some old)
    (hcol : (cols old.getColumnName).isSome)
    (hkeep : ∀ f ∈ m.metadata, Renames prev old f → (cols f.getColumnName).isSome) (i : Nat)
    (row : TableRow) : changedRow rules conf m cols changes i row field.getColumnName =
      if FieldMeta.eq conf field old = some true then row field.getColumnName
      else rules.convert (alteredDef conf field) (row field.getColumnName) := by
  have hold := List.mem_of_find?_eq_some hfind
  have hname : old.getColumnName = field.getColumnName := by simpa using List.find?_some hfind
  have hnodup : (changes.map Change.target).Nodup :=
    (hperm.map Change.target).nodup_iff.mpr (targets_nodup hm)
  have hrun : changedRow rules conf m cols changes i row old.getColumnName = _ :=
    Renaming.carryAll_kept hcol (kept_changes hp hperm hold hkeep) (own_changes hperm hold) hnodup
  have hchange : fieldChange conf prev field = if FieldMeta.eq conf field old = some true then none
      else some (.change field.getColumnName field.getColumnName) := by
    simp only [fieldChange, hfind]
  have htargeted : (∃ c ∈ changes, c.target = field.getColumnName) ↔
      FieldMeta.eq conf field old ≠ some true := by
    constructor
    · intro hex heq
      obtain ⟨c, hc, htarget⟩ := hex
      obtain ⟨f, hf, hfc⟩ := List.mem_filterMap.mp (hperm.subset hc)
      have hsame :=
        find_column hm.columnNames hfield hf ((fieldChange_target hfc).symm.trans htarget)
      rw [hsame, hchange, heq] at hfc
      simp at hfc
    · intro hne
      refine ⟨.change field.getColumnName field.getColumnName, ?_, rfl⟩
      refine hperm.symm.subset (List.mem_filterMap.mpr ⟨field, hfield, ?_⟩)
      rw [hchange, if_neg hne]
  rw [← hname, hrun, hname, alteredAs_of_mem hm hfield]
  by_cases heq : FieldMeta.eq conf field old = some true
  · rw [if_neg fun hex => htargeted.mp hex heq, if_pos heq]
  · rw [if_pos (htargeted.mpr heq), if_neg heq]

/-- A column that the table did not have. -/
theorem changedRow_new (hp : IsVersion className tableName prev)
    (hm : IsVersion className tableName m)
    (hcols : ∀ old ∈ prev.metadata, ∃ col, cols old.getColumnName = some col ∧ Agrees conf col old)
    (hperm : changes.Perm (m.metadata.filterMap (fieldChange conf prev)))
    (hmig : ∀ field ∈ m.metadata, ColumnMigratable conf prev m cols field)
    {field : FieldMeta} (hfield : field ∈ m.metadata)
    (hnew : ∀ old ∈ prev.metadata, old.getColumnName ≠ field.getColumnName)
    (hnone : cols field.getColumnName = none) (i : Nat) (row : TableRow) {c : Change Str}
    (hchange : fieldChange conf prev field = some c) :
    changedRow rules conf m cols changes i row field.getColumnName =
      Renaming.made (fun name => rules.fill i (alteredAs conf m name))
        (fun name => rules.convert (alteredAs conf m name)) row c := by
  have htarget := fieldChange_target hchange
  have hmem : c ∈ changes := hperm.symm.subset (List.mem_filterMap.mpr ⟨field, hfield, hchange⟩)
  obtain ⟨before, after, hsplit⟩ := List.append_of_mem hmem
  have hnodup : (changes.map Change.target).Nodup :=
    (hperm.map Change.target).nodup_iff.mpr (targets_nodup hm)
  rw [hsplit, List.map_append, List.map_cons, List.nodup_append] at hnodup
  have hbefore : ∀ c' ∈ before, c'.target ≠ c.target := fun c' hc' =>
    hnodup.2.2 _ (List.mem_map_of_mem hc') _ (by simp)
  have hin : ∀ c' ∈ before, c' ∈ changes := fun c' hc' => by simp [hsplit, hc']
  have hafter : ∀ c' ∈ after, c'.source ≠ some c.target := by
    intro c' hc' hsource
    have hin' : c' ∈ changes := by simp [hsplit, hc']
    obtain ⟨f, hf, hchange'⟩ := List.mem_filterMap.mp (hperm.subset hin')
    obtain ⟨old, hold, hname, -⟩ := fieldChange_source hchange' hsource
    exact hnew old hold (hname.trans htarget)
  -- Nobody declares the column that is taken over, or it would not have been given away.
  have hlone : ∀ k, c.source = some k → ∀ c' ∈ before, c'.target ≠ k ∧ c'.source ≠ some k := by
    intro k hk c' hc'
    obtain ⟨old, hold, hname, hcase⟩ := fieldChange_source hchange hk
    have hrename := hcase.resolve_left fun he => hnew old hold (hname.trans he)
    obtain ⟨f, hf, hchange'⟩ := List.mem_filterMap.mp (hperm.subset (hin c' hc'))
    have hundeclared : f.getColumnName ≠ k := by
      intro he
      have hfold : prev.metadata.find? (·.getColumnName = f.getColumnName) = some old := by
        cases hfind : prev.metadata.find? (·.getColumnName = f.getColumnName) with
        | none =>
          rw [List.find?_eq_none] at hfind
          exact absurd (hname.trans he.symm) (by simpa using hfind old hold)
        | some o =>
          have ho : o.getColumnName = f.getColumnName := by simpa using List.find?_some hfind
          exact congrArg some (find_column hp.columnNames hold (List.mem_of_find?_eq_some hfind)
            (ho.trans (he.trans hname.symm)))
      have hkeep := hmig f hf
      simp only [ColumnMigratable, hfold] at hkeep
      have hsome := hkeep.1 field hfield hrename
      rw [hnone] at hsome
      cases hsome
    refine ⟨fun ht => hundeclared ((fieldChange_target hchange').symm.trans ht), fun hs => ?_⟩
    obtain ⟨old', hold', hname', hcase'⟩ := fieldChange_source hchange' hs
    have hrename' := hcase'.resolve_left fun he => hundeclared he.symm
    have hsame : old' = old := find_column hp.columnNames hold hold' (hname'.trans hname.symm)
    have hmember : f.fieldName = field.fieldName := by rw [← hrename'.2, hsame, hrename.2]
    have heq : f = field := List.inj_on_of_nodup_map hm.fieldNames hf hfield hmember
    exact hbefore c' hc' (by rw [fieldChange_target hchange', heq, htarget])
  have hsource : ∀ k, c.source = some k → (Renaming.run (alteredAs conf m) cols before k).isSome ∧
      ∀ c' ∈ before, c'.target ≠ k ∧ c'.source ≠ some k := fun k hk =>
    ⟨renamed_present hp hm hcols hperm hfield hnew hchange
      (fun c' hc' => ⟨hin c' hc', htarget ▸ hbefore c' hc'⟩) hk, hlone k hk⟩
  have habsent : cols c.target = none := by
    rw [htarget]
    exact hnone
  have hrun : changedRow rules conf m cols (before ++ c :: after) i row c.target = _ :=
    Renaming.carryAll_created habsent hbefore hafter hsource
  rw [htarget] at hrun
  rw [hsplit]
  exact hrun

/-- In whatever order the commands have been sorted, every row has in the columns of the
version what its members had. -/
theorem changedRow_cell (hp : IsVersion className tableName prev)
    (hm : IsVersion className tableName m)
    (hcols : ∀ old ∈ prev.metadata, ∃ col, cols old.getColumnName = some col ∧ Agrees conf col old)
    (hperm : changes.Perm (m.metadata.filterMap (fieldChange conf prev)))
    (hmig : ∀ field ∈ m.metadata, ColumnMigratable conf prev m cols field)
    (hreturn : NoneReturns prev m cols) {field : FieldMeta} (hfield : field ∈ m.metadata) (i : Nat)
    (row : TableRow) : changedRow rules conf m cols changes i row field.getColumnName =
      migratedCell rules conf prev i row field := by
  cases hfind : prev.metadata.find? (·.getColumnName = field.getColumnName) with
  | some old =>
    obtain ⟨col, hcol, -⟩ := hcols old (List.mem_of_find?_eq_some hfind)
    have hkeep := hmig field hfield
    simp only [ColumnMigratable, hfind] at hkeep
    rw [changedRow_old hp hm hperm hfield hfind (by rw [hcol]; rfl) hkeep.1, migratedCell, hfind]
  | none =>
    have hnew : ∀ old ∈ prev.metadata, old.getColumnName ≠ field.getColumnName := by
      simpa using List.find?_eq_none.mp hfind
    have hmade {c : Change Str} (hchange : fieldChange conf prev field = some c) :
        changedRow rules conf m cols changes i row field.getColumnName = _ :=
      changedRow_new hp hm hcols hperm hmig hfield hnew (hreturn field hfield hnew) i row hchange
    cases hmember : prev.metadata.find? (·.fieldName = field.fieldName) with
    | none =>
      rw [hmade (c := .add field.getColumnName) (by simp only [fieldChange, hfind, hmember]),
        migratedCell, hfind, hmember, Renaming.made, alteredAs_of_mem hm hfield]
    | some old =>
      rw [hmade (c := .change old.getColumnName field.getColumnName)
          (by simp only [fieldChange, hfind, hmember]),
        migratedCell, hfind, hmember, Renaming.made, alteredAs_of_mem hm hfield]

end Cells

/-! ## The rows of a version -/

section Versions

variable {conf : Config} {className tableName : Str} {prev m : Model}

/-- What a run of versions that meet the condition leaves behind. -/
theorem behind_run (hconf : conf.Grouped) {versions : List Model} {w : History}
    (hrun :
      Execution (MigratableStep conf className tableName) History.init (versions ++ [prev]) w) :
    w.last = some prev ∧ Behind conf className tableName w prev := by
  obtain ⟨w₁, hversions, hlast⟩ := hrun.split versions
  have hinv : Inv conf className tableName w₁ :=
    hversions.preserves (P := Inv conf className tableName)
      (fun _ _ _ hinv hstep => (inv_step hconf hinv hstep.1 hstep.2).2) inv_init
  cases hlast with
  | cons hstep hnil =>
    cases hnil with
    | nil =>
      obtain ⟨hprev, hinv'⟩ := inv_step hconf hinv hstep.1 hstep.2
      unfold Inv at hinv'
      rw [hprev] at hinv'
      exact ⟨hprev, hinv'⟩

/-- The columns of the table are changed as the fields ask for, in some order, and the rows
with them. -/
theorem version_changes {w : History} (hbehind : Behind conf className tableName w prev)
    (hm : IsVersion className tableName m) (hwritten : Written conf m)
    (halter : Alterable conf prev m (columnsOf w.db tableName)) {data : Str → StoredRows}
    {fuel : Nat} {catalog : Catalog} {cmds sorted : List Cmd} {loaded' : Loaded}
    {store : DataStore}
    (hmigrate : m.AutoMigrate conf fuel w.file catalog {} = some (cmds, loaded'))
    (hsort : SortedFrom cmds sorted)
    (hstore : m.migrateData rules conf ⟨w.db, data⟩ sorted = some store) :
    ∃ changes, changes.Perm (m.metadata.filterMap (fieldChange conf prev)) ∧
      columnsOf store.db tableName =
        Renaming.run (alteredAs conf m) (columnsOf w.db tableName) changes ∧
      store.data tableName = (data tableName).mapRows
        (changedRow rules conf m (columnsOf w.db tableName) changes) := by
  have hclass := hbehind.version.className.trans hm.className.symm
  have hload := loads_saved hclass halter.storable
  have hdescribes := loadedOf_describes halter.storable
  rw [hbehind.file_eq halter.storable] at hmigrate
  obtain ⟨loaded, hloaded, -⟩ := Option.bind_eq_some_iff.mp hmigrate
  obtain rfl := hload.unique hloaded
  rw [autoMigrate_later hbehind.version hm halter.storable hdescribes hloaded] at hmigrate
  by_cases hnil : prev.metadata = []
  · rw [if_pos hnil, Option.some.injEq, Prod.mk.injEq] at hmigrate
    obtain ⟨rfl, -⟩ := hmigrate
    obtain rfl := List.nil_perm.mp hsort.perm.symm
    obtain rfl : (⟨w.db, data⟩ : DataStore) = store := Option.some.inj hstore
    rw [halter.nonempty hnil]
    exact ⟨[], .refl _, rfl, (StoredRows.mapRows_same (fun _ _ => rfl) _).symm⟩
  · rw [if_neg hnil, Option.map_eq_some_iff] at hmigrate
    obtain ⟨columns, hcolumns, heq⟩ := hmigrate
    rw [Prod.mk.injEq] at heq
    obtain ⟨rfl, -⟩ := heq
    have hT : m.getTableName ≠ [] := by
      rw [hm.tableName, ← hbehind.version.tableName]
      exact halter.storable.tableName.1
    obtain ⟨t, ht⟩ : ∃ t, w.db m.getTableName = some t := by
      obtain ⟨old, hold⟩ := List.exists_mem_of_ne_nil _ hnil
      obtain ⟨col, hcol, -⟩ := hbehind.converged old hold
      obtain ⟨t, ht, -⟩ := Option.bind_eq_some_iff.mp hcol
      exact ⟨t, hm.tableName ▸ ht⟩
    have hcols : columnsOf w.db tableName = t.columns := by
      funext name
      rw [← hm.tableName]
      simp [columnsOf, ht]
    have hrunnable : ∀ cmd ∈ sorted, Runnable conf m cmd := fun cmd hcmd =>
      runnable_later hm hwritten hcolumns cmd (hsort.perm.subset hcmd)
    have hchanges : (sorted.filterMap Cmd.change).Perm
        (m.metadata.filterMap (fieldChange conf prev)) := by
      have hperm := hsort.perm.filterMap Cmd.change
      rw [List.filterMap_append, indexCmds_change, List.append_nil,
        allColumnCmds_change hdescribes (fun old hold => (hbehind.written old hold).1)
          hcolumns] at hperm
      exact hperm
    obtain ⟨db', t', hdb', ht', hrun⟩ := migrate_columns hT ht hrunnable
    have hdb : store.db = db' := by
      have hforget := m.migrateData_db rules conf ⟨w.db, data⟩ sorted
      rw [hstore, Option.map_some, hdb'] at hforget
      exact Option.some.inj hforget
    refine ⟨_, hchanges, ?_, ?_⟩
    · rw [hcols, ← hrun]
      funext name
      rw [← hm.tableName, columnsOf, hdb, ht']
      rfl
    · rw [hcols]
      have hrows := migrateData_rows hT ht hrunnable hstore
      rwa [hm.tableName] at hrows

end Versions

/-- It keeps all values as they are, and fills in a zero or an empty text. -/
def sampleRules : ValueRules where
  truth _ _ := none
  keep _ val := val
  fill number col := if col.autoInc then some (.int (Int32.ofNat (number + 1)))
    else if col.type = "varchar(32)".toList then some (.string []) else some (.int 0)
  convert _ val := val
  stale := ⟨fun _ => 7, fun _ => [], fun _ => 0⟩

def sampleRow : TableRow := fun col =>
  if col = "id".toList then some (.int 1) else if col = "age".toList then some (.int 30) else none

end TinyOrm
