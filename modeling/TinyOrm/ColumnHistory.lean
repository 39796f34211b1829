import TinyOrm.ColumnMigration
set_option autoImplicit false

/-!
The commands of a version as additions and renamings of columns, and what a run
of versions makes of the table.
-/

namespace TinyOrm

open Renaming (Change)
open LoadState

/-! ## Commands as changes -/

def Cmd.change (cmd : Cmd) : Option (Change Str) :=
  match cmd.action with
  | .MIGACTION_ADD_COLUMN => some (.add cmd.targetName)
  | .MIGACTION_CHANGE_COLUMN =>
    some (.change (if cmd.prevTargetName.length = 0 then cmd.targetName else cmd.prevTargetName)
      cmd.targetName)
  | _ => none

/-- The column that ADD COLUMN and CHANGE define under a name. -/
def alteredAs (conf : Config) (m : Model) (name : Str) : ColumnDef :=
  alteredDef conf ((m.getMetadata name).getD {})

/-- A command whose names the model has. -/
def Runnable (conf : Config) (m : Model) (cmd : Cmd) : Prop :=
  match cmd.action with
  | .MIGACTION_ADD_COLUMN | .MIGACTION_CHANGE_COLUMN => cmd.targetName ≠ [] ∧
    ∃ field, m.getMetadata cmd.targetName = some field ∧ field.getColumnType conf ≠ []
  | .MIGACTION_DROP_INDEX => True
  | .MIGACTION_ADD_INDEX => ∃ index, m.indices.lookup cmd.targetName = some index
  | _ => False

section Migrate

variable {conf : Config} {m : Model} {db : Database} {t : Table}

/-- The statement of an index command leaves the columns alone. -/
theorem execute_index_columns (hT : m.getTableName ≠ []) (hdb : db m.getTableName = some t)
    {cmd : Cmd} (hcmd : cmd.isIndex) {sql : Sql} (hsql : m.statement conf cmd = some sql) :
    ∃ t', ((db.execute sql).getD db) m.getTableName = some t' ∧ t'.columns = t.columns := by
  have hexec := execute_index hT hdb conf hcmd
  rw [hsql, Option.bind_some] at hexec
  rw [hexec]
  cases indexAct m cmd (t.indices cmd.targetName) with
  | none => exact ⟨t, hdb, rfl⟩
  | some v => exact ⟨_, Function.update_self _ _ _, rfl⟩

theorem alteredAs_of_getMetadata {name : Str} {field : FieldMeta}
    (h : m.getMetadata name = some field) : alteredAs conf m name = alteredDef conf field := by
  rw [alteredAs, h]
  rfl

/-- One statement and what it makes of the columns. -/
theorem execute_columns (hT : m.getTableName ≠ []) (hdb : db m.getTableName = some t) {cmd : Cmd}
    (hcmd : Runnable conf m cmd) :
    ∃ sql t', m.statement conf cmd = some sql ∧
      ((db.execute sql).getD db) m.getTableName = some t' ∧
      t'.columns = match cmd.change with
        | none => t.columns
        | some c => Renaming.act (alteredAs conf m) t.columns c := by
  obtain ⟨name, action, p⟩ := cmd
  cases action with
  | MIGACTION_CREATE_TABLE => exact hcmd.elim
  | MIGACTION_CHANGE_TABLENAME => exact hcmd.elim
  | MIGACTION_ADD_COLUMN =>
    obtain ⟨hname, field, hfield, htype⟩ := hcmd
    obtain ⟨sql, hsql, hexec⟩ := execute_addColumn hT hdb hfield hname htype p
    have hD : alteredAs conf m name = alteredDef conf field := alteredAs_of_getMetadata hfield
    refine ⟨sql, ?_⟩
    by_cases hex : (t.columns name).isSome
    · exact ⟨t, hsql, by rw [hexec, if_pos hex]; exact hdb, by simp [Cmd.change, Renaming.act, hex]⟩
    · refine ⟨_, hsql, by rw [hexec, if_neg hex]; exact Function.update_self _ _ _, ?_⟩
      simp [Cmd.change, Renaming.act, hex, hD]
  | MIGACTION_CHANGE_COLUMN =>
    obtain ⟨hname, field, hfield, htype⟩ := hcmd
    have hD : alteredAs conf m name = alteredDef conf field := alteredAs_of_getMetadata hfield
    generalize hp : (if p.length = 0 then name else p) = old
    have hold : old ≠ [] := by
      rw [← hp]
      split
      · exact hname
      · exact fun he => absurd (congrArg List.length he) (by assumption)
    have hchange : Cmd.change ⟨name, .MIGACTION_CHANGE_COLUMN, p⟩ = some (.change old name) := by
      simp only [Cmd.change, hp]
    obtain ⟨sql, hsql, hexec⟩ := execute_changeColumn hT hdb hfield hname htype hold hp
    rw [hchange]
    refine ⟨sql, ?_⟩
    by_cases hex : (t.columns old).isNone ∨ (name ≠ old ∧ (t.columns name).isSome)
    · refine ⟨t, hsql, by rw [hexec, if_pos hex]; exact hdb, ?_⟩
      simp only [Renaming.act, if_pos hex]
    · refine ⟨_, hsql, by rw [hexec, if_neg hex]; exact Function.update_self _ _ _, ?_⟩
      simp only [Renaming.act, if_neg hex, hD]
  | MIGACTION_DROP_INDEX =>
    have hsql : ∃ sql, m.statement conf ⟨name, .MIGACTION_DROP_INDEX, p⟩ = some sql := by
      simp only [Model.statement]
      split <;> exact ⟨_, rfl⟩
    obtain ⟨sql, hsql⟩ := hsql
    obtain ⟨t', ht', hcols⟩ := execute_index_columns hT hdb rfl hsql
    exact ⟨sql, t', hsql, ht', hcols⟩
  | MIGACTION_ADD_INDEX =>
    obtain ⟨index, hlookup⟩ := hcmd
    have hsql : ∃ sql, m.statement conf ⟨name, .MIGACTION_ADD_INDEX, p⟩ = some sql :=
      ⟨m.alterTable ++ lit " ADD " ++ Model.addIndex name index, by
        simp [Model.statement, Model.getIndex, hlookup]⟩
    obtain ⟨sql, hsql⟩ := hsql
    obtain ⟨t', ht', hcols⟩ := execute_index_columns hT hdb rfl hsql
    exact ⟨sql, t', hsql, ht', hcols⟩

theorem migrate_columns (hT : m.getTableName ≠ []) (hdb : db m.getTableName = some t)
    {cmds : List Cmd} (hcmds : ∀ cmd ∈ cmds, Runnable conf m cmd) :
    ∃ db' t', m.migrate conf db cmds = some db' ∧ db' m.getTableName = some t' ∧
      t'.columns = Renaming.run (alteredAs conf m) t.columns (cmds.filterMap Cmd.change) := by
  induction cmds generalizing db t with
  | nil => exact ⟨db, t, rfl, hdb, rfl⟩
  | cons cmd cmds ih =>
    obtain ⟨sql, t₁, hsql, ht₁, hcols⟩ := execute_columns hT hdb (hcmds cmd (by simp))
    obtain ⟨db', t', hmigrate, ht', hrun⟩ := ih ht₁ fun c hc => hcmds c (by simp [hc])
    refine ⟨db', t', ?_, ht', ?_⟩
    · have hcons : m.migrate conf db (cmd :: cmds) =
          (m.statement conf cmd).bind fun sql =>
            m.migrate conf ((db.execute sql).getD db) cmds := by
        simp [Model.migrate, Option.bind_assoc]
      rw [hcons, hsql, Option.bind_some, hmigrate]
    · rw [hrun, hcols]
      cases hchange : cmd.change with
      | none => rw [List.filterMap_cons_none hchange]
      | some c =>
        rw [List.filterMap_cons_some hchange]
        rfl

end Migrate

/-! ## The changes of a version -/

/-- The change that a field asks for behind the version `prev`. -/
def fieldChange (conf : Config) (prev : Model) (field : FieldMeta) : Option (Change Str) :=
  match prev.metadata.find? (·.getColumnName = field.getColumnName) with
  | some old =>
    if FieldMeta.eq conf field old = some true then none
    else some (.change field.getColumnName field.getColumnName)
  | none =>
    match prev.metadata.find? (·.fieldName = field.fieldName) with
    | none => some (.add field.getColumnName)
    | some old => some (.change old.getColumnName field.getColumnName)

/-- What the file says about a column of the version it holds. -/
theorem describes_find {conf : Config} {prev : Model} {loaded : Loaded}
    (h : loaded.Describes conf prev.saved) (name : Str) :
    match prev.metadata.find? (·.getColumnName = name) with
    | none => loaded.nameToIndex.lookup name = none
    | some old => ∃ i, loaded.nameToIndex.lookup name = some i ∧
        loaded.fields[i]? = some (old.stored conf) := by
  cases hfind : prev.metadata.find? (·.getColumnName = name) with
  | none =>
    cases hlookup : loaded.nameToIndex.lookup name with
    | none => rfl
    | some i =>
      have hget := (h.nameToIndex name i).mp hlookup
      obtain ⟨old, hold, hname⟩ := List.mem_map.mp (List.mem_of_getElem? hget)
      rw [List.find?_eq_none] at hfind
      exact absurd (by simpa using hname) (hfind old hold)
  | some old =>
    obtain ⟨i, hi⟩ := List.getElem?_of_mem (List.mem_of_find?_eq_some hfind)
    have hname : old.getColumnName = name := by simpa using List.find?_some hfind
    obtain ⟨hlookup, hget⟩ := h.lookup hi
    rw [hname] at hlookup
    exact ⟨i, hlookup, hget⟩

theorem columnCmds_change {conf : Config} {prev : Model} {loaded : Loaded}
    (h : loaded.Describes conf prev.saved)
    (hnames : ∀ old ∈ prev.metadata, old.getColumnName ≠ []) {field : FieldMeta} {cmds : List Cmd}
    (hcmds : Model.columnCmds conf loaded field = some cmds) :
    cmds.filterMap Cmd.change = (fieldChange conf prev field).toList := by
  have hdesc := describes_find h field.getColumnName
  unfold Model.columnCmds at hcmds
  unfold fieldChange
  cases hfind : prev.metadata.find? (·.getColumnName = field.getColumnName) with
  | none =>
    rw [hfind] at hdesc
    have hfields : loaded.fields.find? (·.fieldName = field.fieldName) =
        (prev.metadata.find? (·.fieldName = field.fieldName)).map (FieldMeta.stored conf) := by
      rw [h.fields, List.find?_map]
      rfl
    simp only [hdesc, hfields] at hcmds
    cases hmember : prev.metadata.find? (·.fieldName = field.fieldName) with
    | none =>
      simp only [hmember, Option.map_none, Option.some.injEq] at hcmds
      subst hcmds
      simp [Cmd.change]
    | some old =>
      simp only [hmember, Option.map_some, Option.some.injEq] at hcmds
      subst hcmds
      have hne := hnames old (List.mem_of_find?_eq_some hmember)
      have hname : (old.stored conf).getColumnName = old.getColumnName := rfl
      simp [Cmd.change, hname, hne]
  | some old =>
    rw [hfind] at hdesc
    obtain ⟨i, hlookup, hget⟩ := hdesc
    simp only [hlookup, hget, Option.bind_eq_bind, Option.bind_some, Option.bind_eq_some_iff,
      Option.some.injEq] at hcmds
    obtain ⟨same, heq, rfl⟩ := hcmds
    have hsame : FieldMeta.eq conf field old = some same := heq
    cases same <;> simp [hsame, Cmd.change]

theorem allColumnCmds_change {conf : Config} {prev : Model} {loaded : Loaded}
    (h : loaded.Describes conf prev.saved)
    (hnames : ∀ old ∈ prev.metadata, old.getColumnName ≠ []) {fields : List FieldMeta}
    {cmds : List Cmd} (hcmds : Model.allColumnCmds conf loaded fields = some cmds) :
    cmds.filterMap Cmd.change = fields.filterMap (fieldChange conf prev) := by
  induction fields generalizing cmds with
  | nil => simp_all [Model.allColumnCmds]
  | cons field fields ih =>
    simp only [Model.allColumnCmds, Option.bind_eq_bind, Option.bind_eq_some_iff,
      Option.some.injEq] at hcmds
    obtain ⟨own, hown, rest, hrest, rfl⟩ := hcmds
    rw [List.filterMap_append, columnCmds_change h hnames hown, ih hrest]
    cases hfield : fieldChange conf prev field with
    | none => rw [List.filterMap_cons_none hfield]; rfl
    | some c => rw [List.filterMap_cons_some hfield]; rfl

section Changes

variable {conf : Config} {className tableName : Str} {prev m : Model}

/-- A field asks for a change of its own name. -/
theorem fieldChange_target {field : FieldMeta} {c : Change Str}
    (h : fieldChange conf prev field = some c) : c.target = field.getColumnName := by
  unfold fieldChange at h
  split at h
  · split at h <;> simp at h
    rw [← h]
    rfl
  · split at h <;> simp at h <;> rw [← h] <;> rfl

/-- What a change takes its column from. -/
theorem fieldChange_source {field : FieldMeta} {c : Change Str} {k : Str}
    (h : fieldChange conf prev field = some c) (hk : c.source = some k) :
    ∃ old ∈ prev.metadata, old.getColumnName = k ∧
      (k = field.getColumnName ∨ Renames prev old field) := by
  unfold fieldChange at h
  split at h
  · rename_i old hfind
    have hmem := List.mem_of_find?_eq_some hfind
    have hname : old.getColumnName = field.getColumnName := by simpa using List.find?_some hfind
    split at h <;> simp at h
    rw [← h] at hk
    have hk : field.getColumnName = k := Option.some.inj hk
    exact ⟨old, hmem, hname.trans hk, Or.inl hk.symm⟩
  · rename_i hfind
    rw [List.find?_eq_none] at hfind
    split at h <;> simp at h
    · rw [← h] at hk
      cases hk
    · rename_i old hmember
      have hmem := List.mem_of_find?_eq_some hmember
      have hfield : old.fieldName = field.fieldName := by simpa using List.find?_some hmember
      rw [← h] at hk
      have hk : old.getColumnName = k := Option.some.inj hk
      exact ⟨old, hmem, hk, Or.inr ⟨by simpa using hfind, hfield⟩⟩

/-- A column that the previous version has under the same name is changed in its place. -/
theorem fieldChange_own {old field : FieldMeta} {c : Change Str} (hold : old ∈ prev.metadata)
    (hname : old.getColumnName = field.getColumnName) (h : fieldChange conf prev field = some c) :
    c.source = some field.getColumnName := by
  unfold fieldChange at h
  split at h
  · split at h <;> simp at h
    rw [← h]
    rfl
  · rename_i hfind
    rw [List.find?_eq_none] at hfind
    exact absurd (by simpa using hname) (hfind old hold)

theorem find_column (hnodup : (m.metadata.map FieldMeta.getColumnName).Nodup) {field : FieldMeta}
    (hfield : field ∈ m.metadata) {f : FieldMeta} (hf : f ∈ m.metadata)
    (hname : f.getColumnName = field.getColumnName) : f = field :=
  List.inj_on_of_nodup_map hnodup hf hfield hname

theorem getMetadata_of_mem (hm : IsVersion className tableName m) {field : FieldMeta}
    (hfield : field ∈ m.metadata) : m.getMetadata field.getColumnName = some field := by
  obtain ⟨i, hi⟩ := List.getElem?_of_mem hfield
  have hlookup : m.columnToIndex.lookup field.getColumnName = some i := by
    rw [hm.lookup]
    simp [hi]
  simp [Model.getMetadata, hlookup, hi]

theorem alteredAs_of_mem (hm : IsVersion className tableName m) {field : FieldMeta}
    (hfield : field ∈ m.metadata) :
    alteredAs conf m field.getColumnName = alteredDef conf field :=
  alteredAs_of_getMetadata (getMetadata_of_mem hm hfield)

theorem targets_nodup (hm : IsVersion className tableName m) :
    ((m.metadata.filterMap (fieldChange conf prev)).map Change.target).Nodup := by
  have hnames := hm.columnNames
  rw [List.Nodup, List.pairwise_map] at hnames
  rw [List.Nodup, List.pairwise_map, List.pairwise_filterMap]
  refine hnames.imp fun hne c hc c' hc' => ?_
  rw [fieldChange_target hc, fieldChange_target hc']
  exact hne

variable {cols : Str → Option ColumnDef} {changes : List (Change Str)}

/-- A column of the previous version that no other field takes away for good. -/
theorem kept_changes (hp : IsVersion className tableName prev)
    (hperm : changes.Perm (m.metadata.filterMap (fieldChange conf prev))) {old : FieldMeta}
    (hold : old ∈ prev.metadata)
    (hkeep : ∀ f ∈ m.metadata, Renames prev old f → (cols f.getColumnName).isSome) :
    Renaming.Kept cols changes old.getColumnName := by
  intro c hc hsource
  obtain ⟨f, hf, hchange⟩ := List.mem_filterMap.mp (hperm.subset hc)
  obtain ⟨old', hold', hname, hcase⟩ := fieldChange_source hchange hsource
  have heq : old' = old := find_column hp.columnNames hold hold' hname
  subst heq
  rw [fieldChange_target hchange]
  refine hcase.imp Eq.symm fun hrename => ⟨hkeep f hf hrename, ?_⟩
  intro c' hc' hsource'
  obtain ⟨f', hf', hchange'⟩ := List.mem_filterMap.mp (hperm.subset hc')
  obtain ⟨old'', hold'', hname', -⟩ := fieldChange_source hchange' hsource'
  exact hrename.1 old'' hold'' hname'

/-- A change with a column of the previous version as its target rewrites it. -/
theorem own_changes (hperm : changes.Perm (m.metadata.filterMap (fieldChange conf prev)))
    {old : FieldMeta} (hold : old ∈ prev.metadata) :
    ∀ c ∈ changes, c.target = old.getColumnName → c.source = some old.getColumnName := by
  intro c hc htarget
  obtain ⟨f, hf, hchange⟩ := List.mem_filterMap.mp (hperm.subset hc)
  rw [fieldChange_target hchange] at htarget
  rw [fieldChange_own hold htarget.symm hchange, htarget]

/-- A column that stays under its name. -/
theorem run_old_column (hconf : conf.Grouped) (hp : IsVersion className tableName prev)
    (hm : IsVersion className tableName m)
    (hperm : changes.Perm (m.metadata.filterMap (fieldChange conf prev)))
    {field old : FieldMeta} (hfield : field ∈ m.metadata)
    (hfind : prev.metadata.find? (·.getColumnName = field.getColumnName) = some old)
    {col : ColumnDef} (hcol : cols old.getColumnName = some col) (hagrees : Agrees conf col old)
    (hmig : ColumnMigratable conf prev m cols field) :
    ∃ col', Renaming.run (alteredAs conf m) cols changes field.getColumnName = some col' ∧
      Agrees conf col' field := by
  have hold := List.mem_of_find?_eq_some hfind
  have hname : old.getColumnName = field.getColumnName := by simpa using List.find?_some hfind
  simp only [ColumnMigratable, hfind] at hmig
  obtain ⟨hkeep, hmig⟩ := hmig
  have hrun := Renaming.run_kept (D := alteredAs conf m) hcol (kept_changes hp hperm hold hkeep)
    (own_changes hperm hold)
  rw [hname] at hrun
  have hchange : fieldChange conf prev field = if FieldMeta.eq conf field old = some true then none
      else some (.change field.getColumnName field.getColumnName) := by
    simp only [fieldChange, hfind]
  cases heq : FieldMeta.eq conf field old with
  | none => simp [heq] at hmig
  | some same =>
    simp only [heq] at hmig
    cases same with
    | true =>
      -- No command: the column is as it was.
      have hnot : ¬ ∃ c ∈ changes, c.target = field.getColumnName := by
        rintro ⟨c, hc, htarget⟩
        obtain ⟨f, hf, hfc⟩ := List.mem_filterMap.mp (hperm.subset hc)
        have hsame :=
          find_column hm.columnNames hfield hf ((fieldChange_target hfc).symm.trans htarget)
        rw [hsame, hchange, heq] at hfc
        simp at hfc
      rw [if_neg hnot] at hrun
      exact ⟨col, hrun, hagrees.of_eq hconf heq hmig⟩
    | false =>
      have hex : ∃ c ∈ changes, c.target = field.getColumnName := by
        refine ⟨.change field.getColumnName field.getColumnName, ?_, rfl⟩
        refine hperm.symm.subset (List.mem_filterMap.mpr ⟨field, hfield, ?_⟩)
        simp [hchange, heq]
      rw [if_pos hex, alteredAs_of_mem hm hfield] at hrun
      exact ⟨_, hrun, agrees_altered hmig⟩

/-- The column that a field takes over is still there when its turn comes. -/
theorem renamed_present (hp : IsVersion className tableName prev)
    (hm : IsVersion className tableName m)
    (hcols : ∀ old ∈ prev.metadata, ∃ col, cols old.getColumnName = some col ∧ Agrees conf col old)
    (hperm : changes.Perm (m.metadata.filterMap (fieldChange conf prev)))
    {field : FieldMeta} (hfield : field ∈ m.metadata)
    (hnew : ∀ old ∈ prev.metadata, old.getColumnName ≠ field.getColumnName) {c : Change Str}
    (hchange : fieldChange conf prev field = some c) {before : List (Change Str)}
    (hbefore : ∀ c' ∈ before, c' ∈ changes ∧ c'.target ≠ field.getColumnName) {k : Str}
    (hk : c.source = some k) : (Renaming.run (alteredAs conf m) cols before k).isSome := by
  obtain ⟨old, hold, hname, hcase⟩ := fieldChange_source hchange hk
  have hne : k ≠ field.getColumnName := fun he => hnew old hold (hname.trans he)
  have hrename := hcase.resolve_left hne
  obtain ⟨col, hcol, -⟩ := hcols old hold
  rw [hname] at hcol
  have hkept : Renaming.Kept cols before k := by
    intro c' hc' hsource'
    obtain ⟨f, hf, hchange'⟩ := List.mem_filterMap.mp (hperm.subset (hbefore c' hc').1)
    obtain ⟨old', hold', hname', hcase'⟩ := fieldChange_source hchange' hsource'
    rcases hcase' with hk' | hrename'
    · exact Or.inl ((fieldChange_target hchange').trans hk'.symm)
    · have hsame : old' = old := find_column hp.columnNames hold hold' (hname'.trans hname.symm)
      have hmember : f.fieldName = field.fieldName := by
        rw [← hrename'.2, hsame, hrename.2]
      have heq : f = field := List.inj_on_of_nodup_map hm.fieldNames hf hfield hmember
      refine absurd ?_ (hbefore c' hc').2
      rw [fieldChange_target hchange', heq]
  have hown : ∀ c' ∈ before, c'.target = k → c'.source = some k := by
    intro c' hc' ht'
    have hrest := own_changes hperm hold c' (hbefore c' hc').1
    rw [hname] at hrest
    exact hrest ht'
  rw [Renaming.run_kept hcol hkept hown]
  split <;> rfl

/-- A column that the previous version did not have under this name. -/
theorem run_new_column (hp : IsVersion className tableName prev)
    (hm : IsVersion className tableName m)
    (hcols : ∀ old ∈ prev.metadata, ∃ col, cols old.getColumnName = some col ∧ Agrees conf col old)
    (hperm : changes.Perm (m.metadata.filterMap (fieldChange conf prev)))
    {field : FieldMeta} (hfield : field ∈ m.metadata)
    (hfind : prev.metadata.find? (·.getColumnName = field.getColumnName) = none)
    (hmig : ColumnMigratable conf prev m cols field) :
    ∃ col, Renaming.run (alteredAs conf m) cols changes field.getColumnName = some col ∧
      Agrees conf col field := by
  have hnew : ∀ old ∈ prev.metadata, old.getColumnName ≠ field.getColumnName := by
    simpa using List.find?_eq_none.mp hfind
  have hsources : ∀ c ∈ changes, c.source ≠ some field.getColumnName := by
    intro c hc hsource
    obtain ⟨f, hf, hchange⟩ := List.mem_filterMap.mp (hperm.subset hc)
    obtain ⟨old, hold, hname, -⟩ := fieldChange_source hchange hsource
    exact hnew old hold hname
  simp only [ColumnMigratable, hfind] at hmig
  cases hcol : cols field.getColumnName with
  | some col =>
    rw [hcol] at hmig
    exact ⟨col, Renaming.run_unsourced hcol hsources, hmig⟩
  | none =>
    rw [hcol] at hmig
    obtain ⟨c, hchange⟩ : ∃ c, fieldChange conf prev field = some c := by
      simp only [fieldChange, hfind]
      split <;> exact ⟨_, rfl⟩
    have htarget := fieldChange_target hchange
    have hmem : c ∈ changes := hperm.symm.subset (List.mem_filterMap.mpr ⟨field, hfield, hchange⟩)
    obtain ⟨before, after, hsplit⟩ := List.append_of_mem hmem
    have hnodup : (changes.map Change.target).Nodup :=
      (hperm.map Change.target).nodup_iff.mpr (targets_nodup hm)
    rw [hsplit, List.map_append, List.map_cons, List.nodup_append] at hnodup
    have hbefore : ∀ c' ∈ before, c'.target ≠ c.target := fun c' hc' =>
      hnodup.2.2 _ (List.mem_map_of_mem hc') _ (by simp)
    have hsource : ∀ k, c.source = some k →
        (Renaming.run (alteredAs conf m) cols before k).isSome := fun k hk =>
      renamed_present hp hm hcols hperm hfield hnew hchange
        (fun c' hc' => ⟨by simp [hsplit, hc'], htarget ▸ hbefore c' hc'⟩) hk
    have hafter : ∀ c' ∈ after, c'.source ≠ some c.target := by
      intro c' hc'
      rw [htarget]
      exact hsources c' (by simp [hsplit, hc'])
    have hrun := Renaming.run_created (D := alteredAs conf m) (by rw [htarget]; exact hcol) hbefore
      hafter hsource
    rw [htarget, alteredAs_of_mem hm hfield] at hrun
    rw [hsplit]
    exact ⟨_, hrun, agrees_altered hmig⟩

end Changes

/-! ## One run -/

theorem exists_sorted (cmds : List Cmd) : ∃ sorted, SortedFrom cmds sorted := by
  refine ⟨cmds.mergeSort fun a b => a.priority ≤ b.priority, List.mergeSort_perm _ _, ?_⟩
  have hsorted := @List.pairwise_mergeSort Cmd (fun a b => decide (a.priority ≤ b.priority))
    (fun a b c hab hbc => by simp only [decide_eq_true_eq] at hab hbc ⊢; omega)
    (fun a b => by simp only [Bool.or_eq_true, decide_eq_true_eq]; omega) cmds
  exact hsorted.imp fun h => by simpa using h

theorem runnable_index (conf : Config) (m : Model) (loaded : Loaded) :
    ∀ cmd ∈ m.indexCmds loaded, Runnable conf m cmd := by
  intro cmd hcmd
  have hmem : cmd ∈ (m.indexCmds loaded).filter fun c => c.targetName = cmd.targetName := by
    simp [hcmd]
  rw [indexCmds_filter] at hmem
  rcases mem_indexCmdsAt hmem with hdrop | hadd
  · rw [hdrop]
    trivial
  · cases hnew : m.indices.lookup cmd.targetName with
    | none =>
      rw [hnew, hadd] at hmem
      cases hold : loaded.indices.lookup cmd.targetName <;> rw [hadd] at hold <;>
        simp [indexCmdsAt, hold] at hmem
    | some index =>
      rw [hadd]
      exact ⟨index, hnew⟩

theorem indexCmds_change (m : Model) (loaded : Loaded) :
    (m.indexCmds loaded).filterMap Cmd.change = [] := by
  rw [List.filterMap_eq_nil_iff]
  intro cmd hcmd
  have hindex := indexCmds_isIndex m loaded cmd hcmd
  simp only [Cmd.isIndex, Bool.or_eq_true, decide_eq_true_eq] at hindex
  rcases hindex with h | h <;> simp [Cmd.change, h]

theorem lookup_columns {fields : List FieldMeta} (f : FieldMeta → ColumnDef)
    (hnodup : (fields.map FieldMeta.getColumnName).Nodup) {field : FieldMeta}
    (hfield : field ∈ fields) :
    (fields.map fun field => (field.getColumnName, f field)).lookup field.getColumnName =
      some (f field) := by
  induction fields with
  | nil => cases hfield
  | cons first fields ih =>
    simp only [List.map_cons, List.nodup_cons] at hnodup
    rw [List.map_cons, List.lookup_cons]
    rcases List.mem_cons.mp hfield with rfl | hfield
    · simp
    · have hne : (field.getColumnName == first.getColumnName) = false := by
        rw [beq_eq_false_iff_ne]
        intro he
        exact hnodup.1 (he ▸ List.mem_map_of_mem hfield)
      rw [hne]
      exact ih hnodup.2 hfield

section Step

variable {conf : Config} {className tableName : Str} {prev m : Model}

/-- Without a file and without tables there is one command. -/
theorem autoMigrate_first (conf : Config) (fuel : Nat) (m : Model) :
    m.AutoMigrate conf fuel none Catalog.empty {} =
      some ([⟨[], .MIGACTION_CREATE_TABLE, []⟩], m.recorded {}) := rfl

theorem converged_first (hm : IsVersion className tableName m) (hwritten : Written conf m)
    (hcreate : Creatable conf m) {db : Database}
    (hdb : m.migrate conf Database.empty [⟨[], .MIGACTION_CREATE_TABLE, []⟩] = some db) :
    Converged conf tableName db m := by
  intro field hfield
  have hnone : Database.empty m.getTableName = none := rfl
  obtain ⟨indices, hexec⟩ := execute_createTable hcreate.tableName hnone
    (List.ne_nil_of_mem hfield) hwritten hcreate.indices
  have hmigrate : m.migrate conf Database.empty [⟨[], .MIGACTION_CREATE_TABLE, []⟩] =
      some ((Database.empty.execute (m.createTable conf)).getD Database.empty) := rfl
  rw [hmigrate, hexec, Option.getD_some, Option.some.injEq] at hdb
  refine ⟨createdDef conf field, ?_, agrees_created (hcreate.extra field hfield)
    (hcreate.autoInc field hfield) (hm.pk field hfield)⟩
  rw [columnsOf, ← hdb, ← hm.tableName, Function.update_self]
  exact lookup_columns (createdDef conf) hm.columnNames hfield

/-- Behind a version that the file holds. -/
theorem autoMigrate_saved (hstorable : prev.saved.Storable conf) {loaded : Loaded}
    (hloaded : loaded.Describes conf prev.saved) {fuel : Nat} {file : Str}
    (hload : loadFromFile fuel (some file) m.className {} = some loaded) (catalog : Catalog) :
    m.AutoMigrate conf fuel (some file) catalog {} =
      if prev.metadata = [] then some ([], m.recorded loaded)
      else (Model.allColumnCmds conf loaded m.metadata).map fun cmds =>
        ((if prev.getTableName = m.getTableName then [] else [m.renameCmd]) ++
          (cmds ++ m.indexCmds loaded), m.recorded loaded) := by
  have htable : loaded.tableName = prev.getTableName := hloaded.tableName
  have hne : loaded.tableName.length ≠ 0 := by
    rw [hloaded.tableName]
    exact fun hlen => hstorable.tableName.1 (List.length_eq_zero_iff.mp hlen)
  have hsearch : m.searchTable conf catalog loaded = some (loaded, []) := by
    simp [Model.searchTable, hne]
  have hfields : loaded.fields.length = prev.metadata.length := by
    rw [hloaded.fields, List.length_map]
    rfl
  simp only [Model.AutoMigrate, hload, hsearch, Option.bind_eq_bind, Option.bind_some,
    List.nil_append]
  by_cases hnil : prev.metadata = []
  · have hzero : ¬ loaded.fields.length > 0 := by simp [hfields, hnil]
    simp [Model.diffTable, hzero, hnil]
  · have hpos : loaded.fields.length > 0 := by
      rw [hfields]
      exact List.length_pos_iff.mpr hnil
    have hrename : (if loaded.tableName.length ≠ 0 ∧ loaded.tableName ≠ m.getTableName then
        [m.renameCmd] else []) =
        if prev.getTableName = m.getTableName then [] else [m.renameCmd] := by
      rw [htable] at hne ⊢
      by_cases hsame : prev.getTableName = m.getTableName <;> simp [hne, hsame]
    simp only [Model.diffTable, hpos, if_true, hrename, hnil, if_false, List.append_assoc]
    cases Model.allColumnCmds conf loaded m.metadata <;> rfl

theorem autoMigrate_later (hp : IsVersion className tableName prev)
    (hm : IsVersion className tableName m) (hstorable : prev.saved.Storable conf)
    {loaded : Loaded} (hloaded : loaded.Describes conf prev.saved) {fuel : Nat} {file : Str}
    (hload : loadFromFile fuel (some file) m.className {} = some loaded) (catalog : Catalog) :
    m.AutoMigrate conf fuel (some file) catalog {} =
      if prev.metadata = [] then some ([], m.recorded loaded)
      else (Model.allColumnCmds conf loaded m.metadata).map fun cmds =>
        (cmds ++ m.indexCmds loaded, m.recorded loaded) := by
  rw [autoMigrate_saved hstorable hloaded hload, if_pos (hp.tableName.trans hm.tableName.symm)]
  rfl

/-- The commands of a later version find all their names. -/
theorem runnable_later (hm : IsVersion className tableName m) (hwritten : Written conf m)
    {loaded : Loaded} {cmds : List Cmd}
    (hcmds : Model.allColumnCmds conf loaded m.metadata = some cmds) :
    ∀ cmd ∈ cmds ++ m.indexCmds loaded, Runnable conf m cmd := by
  have hactions := Model.allColumnCmds_target hcmds
  intro cmd hcmd
  rcases List.mem_append.mp hcmd with hcmd | hcmd
  · obtain ⟨⟨field, hfield, hname⟩, haction⟩ := hactions cmd hcmd
    have hmeta : cmd.targetName ≠ [] ∧
        ∃ field, m.getMetadata cmd.targetName = some field ∧ field.getColumnType conf ≠ [] := by
      rw [hname]
      exact ⟨(hwritten field hfield).1, field, getMetadata_of_mem hm hfield,
        (hwritten field hfield).2⟩
    unfold Runnable
    rcases haction with haction | haction <;> rw [haction] <;> exact hmeta
  · exact runnable_index conf m loaded cmd hcmd

theorem converged_later (hconf : conf.Grouped) (hp : IsVersion className tableName prev)
    (hpw : Written conf prev) (hm : IsVersion className tableName m) (hwritten : Written conf m)
    {db db' : Database} (hconverged : Converged conf tableName db prev)
    (hnonempty : prev.metadata ≠ [])
    (hmig : ∀ field ∈ m.metadata, ColumnMigratable conf prev m (columnsOf db tableName) field)
    {loaded : Loaded} (hloaded : loaded.Describes conf prev.saved) {cmds sorted : List Cmd}
    (hT : m.getTableName ≠ []) (hcmds : Model.allColumnCmds conf loaded m.metadata = some cmds)
    (hsort : SortedFrom (cmds ++ m.indexCmds loaded) sorted)
    (hdb : m.migrate conf db sorted = some db') : Converged conf tableName db' m := by
  have hchanges : (sorted.filterMap Cmd.change).Perm
      (m.metadata.filterMap (fieldChange conf prev)) := by
    have hperm := hsort.perm.filterMap Cmd.change
    rw [List.filterMap_append, indexCmds_change, List.append_nil,
      allColumnCmds_change hloaded (fun old hold => (hpw old hold).1) hcmds] at hperm
    exact hperm
  obtain ⟨t, ht⟩ : ∃ t, db tableName = some t := by
    obtain ⟨old, hold⟩ := List.exists_mem_of_ne_nil _ hnonempty
    obtain ⟨col, hcol, -⟩ := hconverged old hold
    obtain ⟨t, ht, -⟩ := Option.bind_eq_some_iff.mp hcol
    exact ⟨t, ht⟩
  have hcols : columnsOf db tableName = t.columns := by
    funext name
    simp [columnsOf, ht]
  rw [← hm.tableName] at ht
  have hrunnable : ∀ cmd ∈ sorted, Runnable conf m cmd := fun cmd hcmd =>
    runnable_later hm hwritten hcmds cmd (hsort.perm.subset hcmd)
  obtain ⟨db'', t', hmigrate, ht', hrun⟩ := migrate_columns hT ht hrunnable
  obtain rfl : db'' = db' := Option.some.inj (hmigrate.symm.trans hdb)
  have hcols' : columnsOf db'' tableName = t'.columns := by
    funext name
    rw [hm.tableName] at ht'
    simp [columnsOf, ht']
  unfold Converged at hconverged
  rw [hcols] at hmig hconverged
  intro field hfield
  rw [hcols', hrun]
  cases hfind : prev.metadata.find? (·.getColumnName = field.getColumnName) with
  | none =>
    exact run_new_column hp hm hconverged hchanges hfield hfind (hmig field hfield)
  | some old =>
    obtain ⟨col, hcol, hagrees⟩ := hconverged old (List.mem_of_find?_eq_some hfind)
    exact run_old_column hconf hp hm hchanges hfield hfind hcol hagrees (hmig field hfield)

/-- What the file of a storable version gives its successor. -/
theorem loads_saved (hclass : prev.className = m.className) (hstorable : prev.saved.Storable conf) :
    Loads (LoadState.fileBytes conf [prev.saved]) m.className (loadedOf conf prev.saved) := by
  have hload := loads_fileBytes [prev.saved] (by simpa using hstorable) m.className
  have hname : prev.saved.className = m.className := hclass
  simpa [hname] using hload

/-- What a version leaves behind. -/
structure Behind (conf : Config) (className tableName : Str) (w : History) (prev : Model) :
    Prop where
  version : IsVersion className tableName prev
  written : Written conf prev
  file : saveAll conf [] [prev.saved] = w.file
  saved : w.file.isSome
  converged : Converged conf tableName w.db prev

def Inv (conf : Config) (className tableName : Str) (w : History) : Prop :=
  match w.last with
  | none => w.file = none ∧ w.db = Database.empty
  | some prev => Behind conf className tableName w prev

theorem inv_init : Inv conf className tableName History.init := ⟨rfl, rfl⟩

theorem Behind.file_eq {w : History} (h : Behind conf className tableName w prev)
    (hstorable : prev.saved.Storable conf) :
    w.file = some (LoadState.fileBytes conf [prev.saved]) := by
  rw [← h.file, saveAll_eq _ (by simpa using hstorable), List.nil_append]

theorem inv_step (hconf : conf.Grouped) {w w' : History} (hinv : Inv conf className tableName w)
    (hmig : Migratable conf tableName w m) (hstep : VersionStep conf className tableName w m w') :
    w'.last = some m ∧ Inv conf className tableName w' := by
  obtain ⟨hwritten, hmig⟩ := hmig
  cases hstep with
  | @run fuel catalog cmds sorted loaded' db file hm hcatalog hmigrate hsort hdb hsave =>
    have hbehind (hrecorded : ∃ loaded, loaded' = m.recorded loaded)
        (hconverged : Converged conf tableName db m) :
        Behind conf className tableName ⟨some file, db, some m⟩ m := by
      obtain ⟨loaded, rfl⟩ := hrecorded
      exact ⟨hm, hwritten, hsave, rfl, hconverged⟩
    refine ⟨rfl, ?_⟩
    unfold Inv at hinv
    cases hlast : w.last with
    | none =>
      rw [hlast] at hinv hmig
      obtain ⟨hfile, hempty⟩ := hinv
      rw [hfile, hcatalog hempty, autoMigrate_first, Option.some.injEq, Prod.mk.injEq] at hmigrate
      obtain ⟨rfl, hrecorded⟩ := hmigrate
      have hsorted := List.perm_singleton.mp hsort.perm
      rw [hsorted, hempty] at hdb
      exact hbehind ⟨_, hrecorded.symm⟩ (converged_first hm hwritten hmig hdb)
    | some prev =>
      rw [hlast] at hinv hmig
      have hclass := hinv.version.className.trans hm.className.symm
      have hload := loads_saved hclass hmig.storable
      have hdescribes := loadedOf_describes hmig.storable
      rw [hinv.file_eq hmig.storable] at hmigrate
      obtain ⟨loaded, hloaded, -⟩ := Option.bind_eq_some_iff.mp hmigrate
      obtain rfl := hload.unique hloaded
      rw [autoMigrate_later hinv.version hm hmig.storable hdescribes hloaded] at hmigrate
      by_cases hnil : prev.metadata = []
      · rw [if_pos hnil, Option.some.injEq, Prod.mk.injEq] at hmigrate
        refine hbehind ⟨_, hmigrate.2.symm⟩ ?_
        intro field hfield
        rw [hmig.nonempty hnil] at hfield
        cases hfield
      · rw [if_neg hnil, Option.map_eq_some_iff] at hmigrate
        obtain ⟨columns, hcolumns, heq⟩ := hmigrate
        rw [Prod.mk.injEq] at heq
        obtain ⟨rfl, hrecorded⟩ := heq
        have hT : m.getTableName ≠ [] := by
          rw [hm.tableName, ← hinv.version.tableName]
          exact hmig.storable.tableName.1
        exact hbehind ⟨_, hrecorded.symm⟩
          (converged_later hconf hinv.version hinv.written hm hwritten
          hinv.converged hnil hmig.columns hdescribes hT hcolumns hsort hdb)

/-- The comparison with the file has a result for every field. -/
theorem allColumnCmds_isSome {cols : Str → Option ColumnDef} {loaded : Loaded}
    (hloaded : loaded.Describes conf prev.saved) {fields : List FieldMeta}
    (hmig : ∀ field ∈ fields, ColumnMigratable conf prev m cols field) :
    ∃ cmds, Model.allColumnCmds conf loaded fields = some cmds := by
  induction fields with
  | nil => exact ⟨[], rfl⟩
  | cons field fields ih =>
    obtain ⟨rest, hrest⟩ := ih fun f hf => hmig f (by simp [hf])
    obtain ⟨own, hown⟩ : ∃ own, Model.columnCmds conf loaded field = some own := by
      have hdesc := describes_find hloaded field.getColumnName
      have hfield := hmig field (by simp)
      unfold ColumnMigratable at hfield
      unfold Model.columnCmds
      cases hfind : prev.metadata.find? (·.getColumnName = field.getColumnName) with
      | none =>
        rw [hfind] at hdesc
        simp only [hdesc]
        cases loaded.fields.find? (·.fieldName = field.fieldName) with
        | none => exact ⟨_, rfl⟩
        | some member => exact ⟨_, rfl⟩
      | some old =>
        rw [hfind] at hdesc hfield
        obtain ⟨i, hlookup, hget⟩ := hdesc
        cases heq : FieldMeta.eq conf field old with
        | none => simp [heq] at hfield
        | some same =>
          have heq' : FieldMeta.eq conf field (old.stored conf) = some same := heq
          exact ⟨_, by simp only [hlookup, hget, heq', Option.bind_eq_bind, Option.bind_some]; rfl⟩
    exact ⟨own ++ rest, by simp [Model.allColumnCmds, hown, hrest]⟩

theorem exists_step {w : History} (hinv : Inv conf className tableName w)
    (hm : IsVersion className tableName m) (hmig : Migratable conf tableName w m)
    (hstorable : m.saved.Storable conf) : ∃ w', VersionStep conf className tableName w m w' := by
  obtain ⟨hwritten, hmig⟩ := hmig
  have hsave (loaded : Loaded) : ∃ file, saveAll conf [] [(m.recorded loaded).saved m.className] =
      some file := ⟨_, saveAll_eq [m.saved] (by simpa using hstorable) []⟩
  unfold Inv at hinv
  cases hlast : w.last with
  | none =>
    rw [hlast] at hinv
    obtain ⟨hfile, hempty⟩ := hinv
    obtain ⟨file, hfile'⟩ := hsave {}
    have hmigrate := autoMigrate_first conf 0 m
    rw [← hfile] at hmigrate
    exact ⟨_, .run hm (fun _ => rfl) hmigrate ⟨.refl _, List.pairwise_singleton _ _⟩ rfl hfile'⟩
  | some prev =>
    rw [hlast] at hinv hmig
    have hclass := hinv.version.className.trans hm.className.symm
    obtain ⟨n, hload⟩ := loads_saved hclass hmig.storable
    have hdescribes := loadedOf_describes hmig.storable
    have hmigrate := autoMigrate_later hinv.version hm hmig.storable hdescribes
      (hload n (Nat.le_refl n)) Catalog.empty
    rw [← hinv.file_eq hmig.storable] at hmigrate
    obtain ⟨file, hfile⟩ := hsave (loadedOf conf prev.saved)
    by_cases hnil : prev.metadata = []
    · rw [if_pos hnil] at hmigrate
      exact ⟨_, .run hm (fun _ => rfl) hmigrate ⟨.refl _, .nil⟩ rfl hfile⟩
    · obtain ⟨columns, hcolumns⟩ := allColumnCmds_isSome hdescribes hmig.columns
      rw [if_neg hnil, hcolumns, Option.map_some] at hmigrate
      obtain ⟨sorted, hsort⟩ := exists_sorted (columns ++ m.indexCmds (loadedOf conf prev.saved))
      have hT : m.getTableName ≠ [] := by
        rw [hm.tableName, ← hinv.version.tableName]
        exact hmig.storable.tableName.1
      obtain ⟨t, ht⟩ : ∃ t, w.db m.getTableName = some t := by
        obtain ⟨old, hold⟩ := List.exists_mem_of_ne_nil _ hnil
        obtain ⟨col, hcol, -⟩ := hinv.converged old hold
        obtain ⟨t, ht, -⟩ := Option.bind_eq_some_iff.mp hcol
        exact ⟨t, hm.tableName ▸ ht⟩
      obtain ⟨db, t', hdb, -⟩ := migrate_columns hT ht fun cmd hcmd =>
        runnable_later hm hwritten hcolumns cmd (hsort.perm.subset hcmd)
      exact ⟨_, .run hm (fun _ => rfl) hmigrate hsort hdb hfile⟩

end Step

/-! ## All runs -/

/-- A step of a version that meets the condition. -/
def MigratableStep (conf : Config) (className tableName : Str) (w : History) (m : Model)
    (w' : History) : Prop :=
  Migratable conf tableName w m ∧ VersionStep conf className tableName w m w'

/-- After every version of a history whose versions meet the condition the table
has the columns of that version, and the next one that meets it can run. -/
theorem columns_converge {conf : Config} (hconf : conf.Grouped) {className tableName : Str}
    {versions : List Model} {m : Model} {w : History}
    (hrun : Execution (MigratableStep conf className tableName) History.init (versions ++ [m]) w) :
    Converged conf tableName w.db m ∧
      ∀ m', IsVersion className tableName m' → Migratable conf tableName w m' →
        m'.saved.Storable conf → ∃ w', VersionStep conf className tableName w m' w' := by
  obtain ⟨w₁, hversions, hlast⟩ := hrun.split versions
  have hinv : Inv conf className tableName w₁ :=
    hversions.preserves (P := Inv conf className tableName)
      (fun _ _ _ hinv hstep => (inv_step hconf hinv hstep.1 hstep.2).2) inv_init
  cases hlast with
  | cons hstep hnil =>
    cases hnil with
    | nil =>
      obtain ⟨hm, hinv'⟩ := inv_step hconf hinv hstep.1 hstep.2
      refine ⟨?_, fun m' => exists_step hinv'⟩
      unfold Inv at hinv'
      rw [hm] at hinv'
      exact hinv'.converged

/-- A first version with a column declared `TAGS(TAG_EXTRA(unsigned))`. -/
def sampleUnsigned : Model where
  className := "User".toList
  metadata := [{ fieldName := "age".toList, cppType := "int".toList, extra := "unsigned".toList }]
  columnToIndex := (∅ : NameToIndex).insert "age".toList 0

/-- CREATE TABLE leaves out the extra attribute. -/
theorem created_without_extra :
    ¬ ∀ (conf : Config) (className tableName : Str) (versions : List Model) (m : Model)
      (w : History),
      conf.Grouped →
      Execution (VersionStep conf className tableName) History.init (versions ++ [m]) w →
      Converged conf tableName w.db m := by
  intro hclaim
  have hmigrate := autoMigrate_first rulesJson 0 sampleUnsigned
  have hstep : VersionStep rulesJson "User".toList "user".toList History.init sampleUnsigned _ :=
    .run (by decide) (fun _ => rfl) hmigrate ⟨.refl _, List.pairwise_singleton _ _⟩ rfl
      (saveAll_eq [sampleUnsigned.saved] (by decide) [])
  obtain ⟨col, hcol, hagrees⟩ := hclaim rulesJson "User".toList "user".toList [] sampleUnsigned _
    rulesJson_grouped (.cons hstep (.nil _)) _ (List.mem_singleton_self _)
  have hextra : col.extra = [] := by
    obtain rfl := Option.some.inj hcol
    rfl
  exact absurd (hextra.symm.trans hagrees.extra) (by decide)

def sampleUser : Model where
  className := "User".toList
  metadata :=
    [{ fieldName := "id".toList, cppType := "int".toList, isPk := true, autoInc := true,
       notNull := true },
     { fieldName := "age".toList, cppType := "int".toList, default_ := "0".toList }]
  columnToIndex := ((∅ : NameToIndex).insert "id".toList 0).insert "age".toList 1

/-- The member `age` under another column name and type, and a new member. -/
def sampleUserRenamed : Model where
  className := "User".toList
  metadata :=
    [{ fieldName := "id".toList, cppType := "int".toList, isPk := true, autoInc := true,
       notNull := true },
     { fieldName := "age".toList, cppType := "int".toList, columnName := some "years".toList,
       columnType := some "smallint".toList },
     { fieldName := "nick".toList, cppType := "std::string".toList,
       columnType := some "varchar(32)".toList, notNull := true }]
  columnToIndex := (((∅ : NameToIndex).insert "id".toList 0).insert "years".toList 1).insert
    "nick".toList 2


def sampleHistory : History where
  file := some (fileBytes rulesJson [sampleUser.saved])
  db := (Database.empty.execute (sampleUser.createTable rulesJson)).getD Database.empty
  last := some sampleUser

theorem sampleHistory_step :
    MigratableStep rulesJson "User".toList "user".toList History.init sampleUser sampleHistory := by
  have hcreate : Creatable rulesJson sampleUser :=
    ⟨by decide, fun _ h => (List.not_mem_nil h).elim, by decide, by decide⟩
  exact ⟨⟨by decide, hcreate⟩,
    .run (by decide) (fun _ => rfl) (autoMigrate_first rulesJson 0 sampleUser)
    ⟨.refl _, List.pairwise_singleton _ _⟩ rfl (saveAll_eq [sampleUser.saved] (by decide) [])⟩

theorem sampleUserRenamed_migratable :
    Migratable rulesJson "user".toList sampleHistory sampleUserRenamed := by
  refine ⟨by decide, ⟨by decide, nofun, fun field hfield => ?_⟩⟩
  simp only [sampleUserRenamed, List.mem_cons, List.not_mem_nil, or_false] at hfield
  rcases hfield with rfl | rfl | rfl
  · exact And.intro (by decide) rfl
  · show ¬ Fused rulesJson _
    decide
  · show ¬ Fused rulesJson _
    decide

theorem columns_converge_sample :
    ∃ w, Execution (VersionStep rulesJson "User".toList "user".toList) History.init
        [sampleUser, sampleUserRenamed] w ∧
      Converged rulesJson "user".toList w.db sampleUserRenamed := by
  have hfirst := sampleHistory_step
  have hrun : Execution (MigratableStep rulesJson "User".toList "user".toList) History.init
      ([] ++ [sampleUser]) sampleHistory := .cons hfirst (.nil _)
  obtain ⟨w, hsecond⟩ := (columns_converge rulesJson_grouped hrun).2 sampleUserRenamed (by decide)
    sampleUserRenamed_migratable (by decide)
  have hruns : Execution (MigratableStep rulesJson "User".toList "user".toList) History.init
      ([sampleUser] ++ [sampleUserRenamed]) w :=
    .cons hfirst (.cons ⟨sampleUserRenamed_migratable, hsecond⟩ (.nil _))
  exact ⟨w, .cons hfirst.2 (.cons hsecond (.nil _)), (columns_converge rulesJson_grouped hruns).1⟩
end TinyOrm
