import TinyOrm.ColumnDdl
import TinyOrm.ColumnMigration
set_option autoImplicit false

/-!
A migration as it is watched: which table the statements of `migrate` address, and
in which one the rows of the class are.
-/

namespace TinyOrm

/-! ## Watching a migration -/

/-- The table named behind ALTER TABLE is there. -/
def addresses (db : Database) (sql : Sql) : Bool :=
  match lexDdl .none sql with
  | .kw .ALTER :: .kw .TABLE :: .name table :: _ => (db table).isSome
  | .kw .ALTER :: _ => false
  | _ => true

/-- Where the rows are behind a statement that was accepted: a class without rows
gets its table by CREATE TABLE. -/
def follow (rows : Option Str) : Option Ddl → Option Str
  | some (.createTable table _ _) => rows.or (some table)
  | some (.renameTable old new) => if rows = some old then some new else rows
  | _ => rows

/-- The database, the table with the rows of the class, and the ALTER TABLE
statements so far that named no table. -/
structure Watched where
  db : Database
  rows : Option Str
  missed : List Sql

namespace Watched

def execute (s : Watched) (sql : Sql) : Watched where
  db := (s.db.execute sql).getD s.db
  rows := if (s.db.execute sql).isSome then follow s.rows (readDdl sql) else s.rows
  missed := if addresses s.db sql then s.missed else s.missed ++ [sql]

end Watched

/-- The loop of `migrate`, watched. -/
def Model.watch (conf : Config) (m : Model) (s : Watched) (cmds : List Cmd) : Option Watched :=
  cmds.foldlM (fun s cmd => (m.statement conf cmd).map s.execute) s

theorem Model.watch_cons (conf : Config) (m : Model) (s : Watched) (cmd : Cmd) (cmds : List Cmd) :
    m.watch conf s (cmd :: cmds) =
      (m.statement conf cmd).bind fun sql => m.watch conf (s.execute sql) cmds := by
  rw [Model.watch, List.foldlM_cons]
  cases m.statement conf cmd <;> rfl

/-- The database is what `migrate` makes of it. -/
theorem Model.watch_db (conf : Config) (m : Model) (s : Watched) (cmds : List Cmd) :
    (m.watch conf s cmds).map Watched.db = m.migrate conf s.db cmds := by
  induction cmds generalizing s with
  | nil => rfl
  | cons cmd cmds ih =>
    have hcons : m.migrate conf s.db (cmd :: cmds) =
        (m.statement conf cmd).bind fun sql =>
          m.migrate conf ((s.db.execute sql).getD s.db) cmds := by
      simp [Model.migrate, Option.bind_assoc]
    rw [Model.watch_cons, hcons]
    cases m.statement conf cmd with
    | none => rfl
    | some sql => exact ih (s.execute sql)

/-! ## Statements on the table -/

/-- The table that a statement changes without giving it another name. -/
def Ddl.altered : Ddl → Option Str
  | .addColumn table _ _ => some table
  | .changeColumn table _ _ _ => some table
  | .dropIndex table _ => some table
  | .addIndex table _ => some table
  | .createTable _ _ _ => none
  | .renameTable _ _ => none

theorem Database.alter_isSome {db db' : Database} {table : Str} {change : Table → Option Table}
    (h : db.alter table change = some db') (name : Str) : (db' name).isSome = (db name).isSome := by
  simp only [Database.alter, Option.bind_eq_bind, Option.bind_eq_some_iff, Option.some.injEq] at h
  obtain ⟨t, ht, t', -, rfl⟩ := h
  by_cases hname : name = table
  · rw [hname, Function.update_self, ht]
    rfl
  · rw [Function.update_of_ne hname]

theorem Database.apply_altered {db db' : Database} {ddl : Ddl} {table : Str}
    (hddl : ddl.altered = some table) (h : db.apply ddl = some db') (name : Str) :
    (db' name).isSome = (db name).isSome := by
  cases ddl with
  | addColumn table' name' col => exact alter_isSome h name
  | changeColumn table' old name' col => exact alter_isSome h name
  | dropIndex table' name' => exact alter_isSome h name
  | addIndex table' key => exact alter_isSome h name
  | createTable table' columns keys => cases hddl
  | renameTable old new => cases hddl

theorem follow_altered {ddl : Ddl} {table : Str} (hddl : ddl.altered = some table)
    (rows : Option Str) : follow rows (some ddl) = rows := by
  cases ddl with
  | createTable table' columns keys => cases hddl
  | renameTable old new => cases hddl
  | _ => rfl

theorem readAlter_altered {table : Str} {k : Keyword} {toks : List DdlTok} {ddl : Ddl}
    (hk : k ≠ .RENAME) (h : readAlter table (.kw k :: toks) = some ddl) :
    ddl.altered = some table := by
  unfold readAlter at h
  split at h
  · rename_i heq
    exact absurd (DdlTok.kw.inj (List.cons.inj heq).1) hk
  · split at h <;> cases h
    rfl
  · split at h <;> cases h
    rfl
  · cases h
    rfl
  · cases h
    rfl
  · split at h <;> cases h
    rfl
  · split at h <;> cases h
    rfl
  · split at h <;> cases h
    rfl
  · cases h

section Statements

variable {conf : Config} {m : Model}

/-- The commands on columns and indexes alter the table under its own name. -/
theorem statement_alters {cmd : Cmd} (hcmd : 2 ≤ cmd.priority) (hT : m.getTableName ≠ [])
    {sql : Sql} (hsql : m.statement conf cmd = some sql) :
    ∃ k toks, lexDdl .none sql =
      .kw .ALTER :: .kw .TABLE :: .name m.getTableName :: .kw k :: toks ∧ k ≠ .RENAME := by
  obtain ⟨name, action, old⟩ := cmd
  have hlex (sql : Sql) := lexDdl_alterTable hT sql
  cases action with
  | MIGACTION_CREATE_TABLE => simp [Cmd.priority] at hcmd
  | MIGACTION_CHANGE_TABLENAME => simp [Cmd.priority] at hcmd
  | MIGACTION_CHANGE_COLUMN =>
    obtain ⟨field, -, heq⟩ := Option.bind_eq_some_iff.mp hsql
    rw [← Option.some.inj heq]
    simp only [List.append_assoc]
    exact ⟨.CHANGE, _, hlex (lit "CHANGE " ++ _), by decide⟩
  | MIGACTION_ADD_COLUMN =>
    obtain ⟨field, -, heq⟩ := Option.bind_eq_some_iff.mp hsql
    rw [← Option.some.inj heq]
    simp only [List.append_assoc]
    exact ⟨.ADD, _, hlex (lit "ADD COLUMN " ++ _), by decide⟩
  | MIGACTION_DROP_INDEX =>
    by_cases hprimary : name = PRIMARY
    · simp only [Model.statement, hprimary, if_true, Option.some.injEq] at hsql
      rw [← hsql]
      exact ⟨.DROP, _, hlex (lit "DROP PRIMARY KEY"), by decide⟩
    · simp only [Model.statement, hprimary, if_false, Option.some.injEq] at hsql
      rw [← hsql, List.append_assoc]
      exact ⟨.DROP, _, hlex (lit "DROP INDEX " ++ _), by decide⟩
  | MIGACTION_ADD_INDEX =>
    obtain ⟨index, -, heq⟩ := Option.bind_eq_some_iff.mp hsql
    rw [← Option.some.inj heq]
    simp only [List.append_assoc]
    exact ⟨.ADD, _, hlex (lit "ADD " ++ _), by decide⟩

/-- The same tables, the same rows, and no statement astray. -/
structure Watched.Unmoved (s s' : Watched) : Prop where
  tables : ∀ name, (s'.db name).isSome = (s.db name).isSome
  rows : s'.rows = s.rows
  missed : s'.missed = s.missed

theorem Watched.Unmoved.trans {s s' s'' : Watched} (h : s.Unmoved s') (h' : s'.Unmoved s'') :
    s.Unmoved s'' where
  tables name := (h'.tables name).trans (h.tables name)
  rows := h'.rows.trans h.rows
  missed := h'.missed.trans h.missed

theorem Watched.execute_alters {s : Watched} {table : Str} (htable : (s.db table).isSome)
    {sql : Sql} {k : Keyword} {toks : List DdlTok}
    (hlex : lexDdl .none sql = .kw .ALTER :: .kw .TABLE :: .name table :: .kw k :: toks)
    (hk : k ≠ .RENAME) : s.Unmoved (s.execute sql) := by
  have hread : readDdl sql = readAlter table (.kw k :: toks) := by rw [readDdl, hlex]
  have haddresses : addresses s.db sql = true := by
    rw [addresses, hlex]
    exact htable
  cases hddl : readAlter table (.kw k :: toks) with
  | none =>
    have hexec : s.db.execute sql = none := by rw [Database.execute, hread, hddl]; rfl
    constructor
    case tables =>
      intro name
      rw [execute, hexec]
      rfl
    case rows => rw [execute, hexec]; rfl
    case missed => rw [execute, haddresses]; rfl
  | some ddl =>
    have haltered := readAlter_altered hk hddl
    have hexec : s.db.execute sql = s.db.apply ddl := by rw [Database.execute, hread, hddl]; rfl
    constructor
    case tables =>
      intro name
      rw [execute, hexec]
      cases happly : s.db.apply ddl with
      | none => rfl
      | some db' => exact Database.apply_altered haltered happly name
    case rows =>
      rw [execute, hread, hddl, follow_altered haltered, ite_self]
    case missed => rw [execute, haddresses]; rfl

/-- The commands on columns and indexes find their table and leave it in its place. -/
theorem watch_changes (hT : m.getTableName ≠ []) {cmds : List Cmd}
    (hcmds : ∀ cmd ∈ cmds, 2 ≤ cmd.priority) {s s' : Watched}
    (htable : (s.db m.getTableName).isSome) (h : m.watch conf s cmds = some s') :
    s.Unmoved s' := by
  induction cmds generalizing s with
  | nil =>
    obtain rfl : s = s' := Option.some.inj h
    exact ⟨fun _ => rfl, rfl, rfl⟩
  | cons cmd cmds ih =>
    rw [Model.watch_cons, Option.bind_eq_some_iff] at h
    obtain ⟨sql, hsql, hrest⟩ := h
    obtain ⟨k, toks, hlex, hk⟩ := statement_alters (hcmds cmd (by simp)) hT hsql
    have hstep := Watched.execute_alters htable hlex hk
    have htable' : ((s.execute sql).db m.getTableName).isSome := by
      rw [hstep.tables]
      exact htable
    exact hstep.trans (ih (fun c hc => hcmds c (by simp [hc])) htable' hrest)

/-! ## The table with the rows -/

/-- The table with the rows is there. -/
def Watched.Held (s : Watched) : Prop := ∀ table, s.rows = some table → (s.db table).isSome

theorem Watched.Held.execute {s : Watched} (h : s.Held) (sql : Sql) : (s.execute sql).Held := by
  intro table hrows
  rw [Watched.execute] at hrows ⊢
  dsimp only at hrows ⊢
  cases hread : readDdl sql with
  | none =>
    have hexec : s.db.execute sql = none := by rw [Database.execute, hread]; rfl
    rw [hexec] at hrows ⊢
    exact h table hrows
  | some ddl =>
    have hexec : s.db.execute sql = s.db.apply ddl := by rw [Database.execute, hread]; rfl
    rw [hexec, hread] at hrows
    rw [hexec]
    cases happly : s.db.apply ddl with
    | none =>
      rw [happly] at hrows
      exact h table hrows
    | some db' =>
      rw [happly] at hrows
      replace hrows : follow s.rows (some ddl) = some table := hrows
      show (db' table).isSome
      cases ddl with
      | createTable created columns keys =>
        simp only [Database.apply] at happly
        split at happly
        · cases happly
        · rw [← Option.some.inj happly]
          by_cases hsame : table = created
          · simp [hsame]
          · rw [Function.update_of_ne hsame]
            rcases Option.or_eq_some_iff.mp hrows with hold | ⟨-, hnew⟩
            · exact h table hold
            · exact absurd (Option.some.inj hnew).symm hsame
      | renameTable old new =>
        simp only [Database.apply, Option.bind_eq_bind, Option.bind_eq_some_iff] at happly
        obtain ⟨t, ht, happly⟩ := happly
        split at happly
        · cases happly
        · rw [← Option.some.inj happly]
          by_cases hnew : table = new
          · simp [hnew]
          · simp only [follow] at hrows
            split at hrows
            · exact absurd (Option.some.inj hrows).symm hnew
            · rename_i hold
              have hne : table ≠ old := fun heq => hold (heq ▸ hrows)
              rw [Function.update_of_ne hnew, Function.update_of_ne hne]
              exact h table hrows
      | _ =>
        rw [Database.apply_altered rfl happly]
        exact h table hrows

theorem Watched.Held.watch {s s' : Watched} (h : s.Held) {cmds : List Cmd}
    (hwatch : m.watch conf s cmds = some s') : s'.Held := by
  induction cmds generalizing s with
  | nil =>
    obtain rfl : s = s' := Option.some.inj hwatch
    exact h
  | cons cmd cmds ih =>
    rw [Model.watch_cons, Option.bind_eq_some_iff] at hwatch
    obtain ⟨sql, -, hrest⟩ := hwatch
    exact ih (h.execute sql) hrest

/-! ## The rename -/

/-- The text of the rename. -/
def renameSql (old new : Str) : Sql :=
  lit "ALTER TABLE " ++ word old ++ lit " RENAME AS " ++ word new

theorem statement_rename : m.statement conf m.renameCmd =
    some (renameSql m.getDefaultTableName m.getTableName) := rfl

theorem lexDdl_rename {old new : Str} (hold : old ≠ []) (hnew : new ≠ []) :
    lexDdl .none (renameSql old new) =
      [.kw .ALTER, .kw .TABLE, .name old, .kw .RENAME, .kw .AS, .name new] := by
  have halter (rest : Sql) : lexDdl .none (lit "ALTER TABLE " ++ rest) =
      .kw .ALTER :: .kw .TABLE :: lexDdl .none rest := rfl
  have hrename (rest : Sql) : lexDdl (.given old) (lit " RENAME AS " ++ rest) =
      .name old :: .kw .RENAME :: .kw .AS :: lexDdl .none rest := rfl
  have hend := lexDdl_word hnew []
  rw [List.append_nil] at hend
  rw [renameSql, List.append_assoc, List.append_assoc, halter, lexDdl_word hold, hrename, hend]
  rfl

section Rename

variable (s : Watched) {old new : Str} (hold : old ≠ []) (hnew : new ≠ [])
include hold hnew

theorem readDdl_rename : readDdl (renameSql old new) = some (.renameTable old new) := by
  rw [readDdl, lexDdl_rename hold hnew]
  rfl

theorem addresses_rename (db : Database) : addresses db (renameSql old new) = (db old).isSome := by
  rw [addresses, lexDdl_rename hold hnew]

theorem Watched.execute_rename_missing (h : s.db old = none) :
    s.execute (renameSql old new) = { s with missed := s.missed ++ [renameSql old new] } := by
  simp [execute, Database.execute, readDdl_rename hold hnew, addresses_rename hold hnew,
    Database.apply, h]

theorem Watched.execute_rename_taken {t : Table} (h : s.db old = some t)
    (hfree : (s.db new).isSome) : s.execute (renameSql old new) = s := by
  simp [execute, Database.execute, readDdl_rename hold hnew, addresses_rename hold hnew,
    Database.apply, h, hfree]

theorem Watched.execute_rename_free {t : Table} (h : s.db old = some t)
    (hfree : ¬ (s.db new).isSome) : s.execute (renameSql old new) =
      { s with
        db := Function.update (Function.update s.db old none) new (some t)
        rows := if s.rows = some old then some new else s.rows } := by
  simp [execute, Database.execute, readDdl_rename hold hnew, addresses_rename hold hnew,
    Database.apply, h, hfree, follow]

end Rename

/-- CREATE TABLE gives the class its table. -/
theorem Watched.execute_createTable (s : Watched) (hT : m.getTableName ≠ [])
    (hfree : s.db m.getTableName = none) (hcols : m.metadata ≠ []) (hwritten : Written conf m)
    (hindices : IndicesReadable m.indices) :
    ∃ t, s.execute (m.createTable conf) =
      { s with
        db := Function.update s.db m.getTableName (some t)
        rows := s.rows.or (some m.getTableName) } := by
  obtain ⟨keys, hread⟩ := readDdl_createTable hT hcols hwritten hindices
  obtain ⟨t, hexec⟩ : ∃ t, s.db.execute (m.createTable conf) =
      some (Function.update s.db m.getTableName (some t)) := by
    obtain ⟨indices, hexec⟩ := TinyOrm.execute_createTable hT hfree hcols hwritten hindices
    exact ⟨_, hexec⟩
  have haddresses : addresses s.db (m.createTable conf) = true := by
    simp only [Model.createTable, List.append_assoc]
    rfl
  refine ⟨t, ?_⟩
  rw [execute, hexec, haddresses, hread]
  rfl

end Statements

end TinyOrm
