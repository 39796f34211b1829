import TinyOrm.Ddl
import TinyOrm.Lib.Keyed
set_option autoImplicit false

/-!
Index migration: when the DROP INDEX and ADD INDEX commands of `AutoMigrate`
leave the table with the declared indexes.
-/

namespace TinyOrm

def Cmd.isIndex (cmd : Cmd) : Bool :=
  cmd.action = .MIGACTION_DROP_INDEX || cmd.action = .MIGACTION_ADD_INDEX

def Index.key (index : Index) : TableKey := ⟨index.type, index.columns⟩

/-- The indexes of a table that an index map describes. -/
def Indices.keys (indices : Indices) (name : Str) : Option TableKey :=
  (indices.lookup name).map Index.key

/-! ## The statements -/

/-- An index whose ADD INDEX is a complete statement. -/
def Addable (name : Str) (index : Index) : Prop :=
  (index.type = .INDEX_TYPE_MUL ∨ index.type = .INDEX_TYPE_UNI) ∧ name ≠ [] ∧ name ≠ PRIMARY ∧
    NamesColumns index.columns

instance (name : Str) (index : Index) : Decidable (Addable name index) :=
  inferInstanceAs (Decidable (_ ∧ _ ∧ _ ∧ _))

/-- ADD PRIMARY KEY is printed without an opening parenthesis. -/
theorem readAlter_addPrimaryKey (table : Str) (columns : List Str) :
    readAlter table (.kw .ADD :: .kw .PRIMARY :: .kw .KEY ::
      lexDdl .none (Model.indexColumns columns ++ lit ")")) = none := by
  cases columns with
  | nil => rfl
  | cons col columns =>
    by_cases hcol : col = []
    · subst hcol
      cases columns with
      | nil => rfl
      | cons next columns => rw [indexColumns_cons]; rfl
    · cases columns with
      | nil =>
        have htext : Model.indexColumns [col] ++ lit ")" = word col ++ (lit ")" ++ []) := by
          simp [Model.indexColumns, Model.indexColumnsMore]
        rw [htext, lexDdl_word hcol, lexDdl_rpar]
        rfl
      | cons next columns =>
        rw [indexColumns_cons, List.append_assoc, List.append_assoc, lexDdl_word hcol, lexDdl_comma]
        rfl

section Execute

variable {m : Model} {db : Database} {t : Table}

theorem execute_dropIndex (hname : m.getTableName ≠ []) (hdb : db m.getTableName = some t)
    (conf : Config) (name : Str) :
    ((m.statement conf ⟨name, .MIGACTION_DROP_INDEX, []⟩).bind db.execute) =
      if name = [] ∨ t.indices name = none then none
      else some (Function.update db m.getTableName
        (some { t with indices := Function.update t.indices name none })) := by
  have happly (name : Str) : db.apply (.dropIndex m.getTableName name) =
      if t.indices name = none then none
      else some (Function.update db m.getTableName
        (some { t with indices := Function.update t.indices name none })) := by
    by_cases h : t.indices name = none <;> simp [Database.apply, Database.alter, hdb, h]
  by_cases hprimary : name = PRIMARY
  · subst hprimary
    have hread : readDdl (m.alterTable ++ lit " DROP PRIMARY KEY") =
        some (.dropIndex m.getTableName PRIMARY) := by
      have hlex := lexDdl_alterTable hname (lit "DROP PRIMARY KEY")
      rw [readDdl, show lit " DROP PRIMARY KEY" = lit " " ++ lit "DROP PRIMARY KEY" from rfl, hlex]
      rfl
    have hne : PRIMARY ≠ [] := by decide
    simp only [Model.statement, if_true, Option.bind_some, Database.execute, hread, happly, hne,
      false_or]
  · have hlex := lexDdl_alterTable hname (lit "DROP INDEX " ++ word name)
    have hdrop (rest : Sql) : lexDdl .none (lit "DROP INDEX " ++ rest) =
        .kw .DROP :: .kw .INDEX :: lexDdl .none rest := rfl
    have htext : m.alterTable ++ lit " DROP INDEX " ++ word name =
        m.alterTable ++ (lit " " ++ (lit "DROP INDEX " ++ word name)) := by
      rw [List.append_assoc]
      rfl
    simp only [Model.statement, hprimary, if_false, Option.bind_some, Database.execute, htext,
      readDdl, hlex, hdrop]
    by_cases hne : name = []
    · subst hne
      rfl
    · have hword := lexDdl_word hne []
      rw [List.append_nil] at hword
      rw [hword]
      simp only [lexDdl, Pending.flush, readAlter, Option.bind_some, happly, hne, false_or]

theorem apply_addIndex (hdb : db m.getTableName = some t) (key : Key) :
    db.apply (.addIndex m.getTableName key) =
      if key.name ≠ [] ∧ t.indices key.name = none then
        some (Function.update db m.getTableName (some
          { t with indices := Function.update t.indices key.name (some ⟨key.kind, key.columns⟩) }))
      else none := by
  by_cases hne : key.name = []
  · simp [Database.apply, Database.alter, hdb, hne]
  · by_cases hfree : t.indices key.name = none
    · simp [Database.apply, Database.alter, hdb, hne, hfree]
    · simp [Database.apply, Database.alter, hdb, hne, hfree, Option.isSome_iff_ne_none]

/-- An index whose clause behind ADD can be read. -/
def CompleteKey (name : Str) (index : Index) : Prop :=
  (index.type = .INDEX_TYPE_MUL ∨ index.type = .INDEX_TYPE_UNI) ∧ name ≠ PRIMARY ∧
    NamesColumns index.columns

instance (name : Str) (index : Index) : Decidable (CompleteKey name index) :=
  inferInstanceAs (Decidable (_ ∧ _ ∧ _))

theorem addable_iff {name : Str} {index : Index} :
    Addable name index ↔ name ≠ [] ∧ CompleteKey name index := by
  unfold Addable CompleteKey
  tauto

/-- ADD INDEX and ADD UNIQUE. -/
theorem readDdl_addKey (hname : m.getTableName ≠ []) {name : Str} {index : Index} (kw : Keyword)
    {sql : Sql} (hkind : index.type = .INDEX_TYPE_MUL ∨ index.type = .INDEX_TYPE_UNI)
    (htoks : lexDdl .none sql = .kw .ADD :: .kw kw :: lexDdl .none
      (word name ++ (lit "(" ++ (Model.indexColumns index.columns ++ (lit ")" ++ [])))))
    (hread : ∀ toks, readAlter m.getTableName (.kw .ADD :: .kw kw :: toks) =
      match readKey index.type toks with
      | some (key, []) => some (.addIndex m.getTableName key)
      | _ => none) :
    readDdl (m.alterTable ++ (lit " " ++ sql)) =
      if CompleteKey name index then
        some (.addIndex m.getTableName ⟨index.type, name, index.columns⟩)
      else none := by
  rw [readDdl, lexDdl_alterTable hname, htoks]
  simp only [hread, readKey_columns]
  by_cases hcols : name ≠ PRIMARY ∧ NamesColumns index.columns
  · have hcomplete : CompleteKey name index := ⟨hkind, hcols⟩
    have hend : lexDdl .none [] = [] := rfl
    rw [if_pos hcols, if_pos hcomplete, hend]
  · have hcomplete : ¬ CompleteKey name index := fun h => hcols h.2
    rw [if_neg hcols, if_neg hcomplete]

theorem statement_addIndex (conf : Config) {name : Str} {index : Index}
    (hindex : m.indices.lookup name = some index) :
    m.statement conf ⟨name, .MIGACTION_ADD_INDEX, []⟩ =
      some (m.alterTable ++ (lit " " ++ (lit "ADD " ++ Model.addIndex name index))) := by
  simp only [Model.statement, Model.getIndex, hindex, Option.bind_eq_bind, Option.bind_some]
  rw [List.append_assoc]
  rfl

theorem readDdl_addIndex (hname : m.getTableName ≠ []) (conf : Config) {name : Str} {index : Index}
    (hindex : m.indices.lookup name = some index) :
    (m.statement conf ⟨name, .MIGACTION_ADD_INDEX, []⟩).bind readDdl =
      if CompleteKey name index then
        some (.addIndex m.getTableName ⟨index.type, name, index.columns⟩)
      else none := by
  rw [statement_addIndex conf hindex, Option.bind_some]
  cases htype : index.type with
  | INDEX_TYPE_MUL =>
    rw [← htype]
    refine readDdl_addKey hname .INDEX (Or.inl htype) ?_ (fun _ => by rw [htype]; rfl)
    simp only [Model.addIndex, htype, List.append_assoc, List.append_nil]
    rfl
  | INDEX_TYPE_UNI =>
    rw [← htype]
    refine readDdl_addKey hname .UNIQUE (Or.inr htype) ?_ (fun _ => by rw [htype]; rfl)
    simp only [Model.addIndex, htype, List.append_assoc, List.append_nil]
    rfl
  | _ =>
    have hcomplete : ¬ CompleteKey name index := by simp [CompleteKey, htype]
    have htoks : lexDdl .none (lit "ADD " ++ Model.addIndex name index) =
        .kw .ADD :: .kw .PRIMARY :: .kw .KEY ::
          lexDdl .none (Model.indexColumns index.columns ++ lit ")") := by
      simp only [Model.addIndex, htype, List.append_assoc]
      rfl
    rw [readDdl, lexDdl_alterTable hname, htoks, if_neg hcomplete]
    exact readAlter_addPrimaryKey _ _

theorem execute_addIndex (hname : m.getTableName ≠ []) (hdb : db m.getTableName = some t)
    (conf : Config) {name : Str} {index : Index} (hindex : m.indices.lookup name = some index) :
    ((m.statement conf ⟨name, .MIGACTION_ADD_INDEX, []⟩).bind db.execute) =
      if Addable name index ∧ t.indices name = none then
        some (Function.update db m.getTableName
          (some { t with indices := Function.update t.indices name (some index.key) }))
      else none := by
  have hexecute : db.execute = fun sql => (readDdl sql).bind db.apply := rfl
  rw [hexecute, ← Option.bind_assoc, readDdl_addIndex hname conf hindex]
  by_cases hcomplete : CompleteKey name index
  · rw [if_pos hcomplete, Option.bind_some, apply_addIndex hdb]
    simp only [addable_iff, hcomplete, and_true]
    rfl
  · simp [addable_iff, hcomplete]

/-- What an index command makes of the entry of its index. -/
def indexAct (m : Model) (cmd : Cmd) (v : Option TableKey) : Option (Option TableKey) :=
  match cmd.action with
  | .MIGACTION_DROP_INDEX => if cmd.targetName = [] ∨ v = none then none else some none
  | .MIGACTION_ADD_INDEX => do
    let index ← m.indices.lookup cmd.targetName
    if Addable cmd.targetName index ∧ v = none then some (some index.key) else none
  | _ => none

theorem execute_index (hname : m.getTableName ≠ []) (hdb : db m.getTableName = some t)
    (conf : Config) {cmd : Cmd} (hcmd : cmd.isIndex) :
    (m.statement conf cmd).bind db.execute =
      (indexAct m cmd (t.indices cmd.targetName)).map fun v =>
        Function.update db m.getTableName
          (some { t with indices := Function.update t.indices cmd.targetName v }) := by
  obtain ⟨name, action, old⟩ := cmd
  cases action with
  | MIGACTION_DROP_INDEX =>
    refine (execute_dropIndex hname hdb conf name).trans ?_
    by_cases h : name = [] ∨ t.indices name = none <;> simp [indexAct, h]
  | MIGACTION_ADD_INDEX =>
    cases hindex : m.indices.lookup name with
    | none => simp [Model.statement, Model.getIndex, indexAct, hindex]
    | some index =>
      refine (execute_addIndex hname hdb conf hindex).trans ?_
      by_cases h : Addable name index ∧ t.indices name = none <;> simp [indexAct, hindex, h]
  | _ => simp [Cmd.isIndex] at hcmd

/-- Index commands change the indexes of the table, each its own. -/
theorem migrateAccepted_index (hname : m.getTableName ≠ []) (hdb : db m.getTableName = some t)
    (conf : Config) {cmds : List Cmd} (hcmds : ∀ cmd ∈ cmds, cmd.isIndex) :
    m.migrateAccepted conf db cmds =
      (Keyed.run Cmd.targetName (indexAct m) t.indices cmds).map fun indices =>
        Function.update db m.getTableName (some { t with indices := indices }) := by
  induction cmds generalizing db t with
  | nil =>
    have hsame : Function.update db m.getTableName (some t) = db := by
      rw [← hdb, Function.update_eq_self]
    simp [Model.migrateAccepted, Keyed.run, hsame]
  | cons cmd cmds ih =>
    have hstep := execute_index hname hdb conf (hcmds cmd (by simp))
    have hrun : m.migrateAccepted conf db (cmd :: cmds) =
        ((m.statement conf cmd).bind db.execute).bind fun db => m.migrateAccepted conf db cmds := by
      simp [Model.migrateAccepted]
    rw [hrun, hstep, Keyed.run_cons]
    cases indexAct m cmd (t.indices cmd.targetName) with
    | none => rfl
    | some v =>
      rw [Option.map_some, Option.bind_some, Option.bind_some,
        ih (Function.update_self _ _ _) fun c hc => hcmds c (by simp [hc])]
      simp [Function.update_idem]

end Execute

/-! ## The commands of one index -/

theorem filter_flatMap_entries (f : (Sigma fun _ : Str => Index) → List Cmd)
    (hf : ∀ entry, ∀ cmd ∈ f entry, cmd.targetName = entry.1) (name : Str)
    {entries : List (Sigma fun _ : Str => Index)} (hkeys : entries.NodupKeys) :
    (entries.flatMap f).filter (fun cmd => cmd.targetName = name) =
      match entries.dlookup name with
      | none => []
      | some index => f ⟨name, index⟩ := by
  induction entries with
  | nil => rfl
  | cons entry entries ih =>
    rw [List.nodupKeys_cons] at hkeys
    rw [List.flatMap_cons, List.filter_append, ih hkeys.2]
    by_cases hname : name = entry.1
    · subst hname
      have hown : (f entry).filter (fun cmd => cmd.targetName = entry.1) = f entry :=
        List.filter_eq_self.mpr fun cmd hcmd => by simpa using hf entry cmd hcmd
      have hrest : entries.dlookup entry.1 = none := List.dlookup_eq_none.mpr hkeys.1
      rw [hown, hrest, List.dlookup_cons_eq, List.append_nil]
    · have hown : (f entry).filter (fun cmd => cmd.targetName = name) = [] := by
        rw [List.filter_eq_nil_iff]
        intro cmd hcmd
        simpa [hf entry cmd hcmd] using Ne.symm hname
      rw [hown, List.nil_append, List.dlookup_cons_ne _ _ hname]

/-- The commands that concern one name, from its two entries. -/
def indexCmdsAt (name : Str) : Option Index → Option Index → List Cmd
  | none, none => []
  | none, some _ => [⟨name, .MIGACTION_ADD_INDEX, []⟩]
  | some _, none => [⟨name, .MIGACTION_DROP_INDEX, []⟩]
  | some old, some new =>
    if old.eq new then []
    else [⟨name, .MIGACTION_DROP_INDEX, []⟩, ⟨name, .MIGACTION_ADD_INDEX, []⟩]

theorem mem_indexCmdsAt {name : Str} {old new : Option Index} {cmd : Cmd}
    (h : cmd ∈ indexCmdsAt name old new) :
    cmd = ⟨name, .MIGACTION_DROP_INDEX, []⟩ ∨ cmd = ⟨name, .MIGACTION_ADD_INDEX, []⟩ := by
  unfold indexCmdsAt at h
  split at h
  · cases h
  · exact Or.inr (List.mem_singleton.mp h)
  · exact Or.inl (List.mem_singleton.mp h)
  · split at h
    · cases h
    · simpa using h

theorem indexCmds_filter (m : Model) (prev : Loaded) (name : Str) :
    (m.indexCmds prev).filter (fun cmd => cmd.targetName = name) =
      indexCmdsAt name (prev.indices.lookup name) (m.indices.lookup name) := by
  have hchanged : ∀ entry, ∀ cmd ∈ m.changedIndexCmds entry, cmd.targetName = entry.1 := by
    intro entry cmd hcmd
    unfold Model.changedIndexCmds at hcmd
    split at hcmd
    · simp_all
    · split at hcmd <;> simp at hcmd
      rcases hcmd with rfl | rfl <;> rfl
  have hnew : ∀ entry, ∀ cmd ∈ Model.newIndexCmds prev entry, cmd.targetName = entry.1 := by
    intro entry cmd hcmd
    unfold Model.newIndexCmds at hcmd
    split at hcmd <;> simp at hcmd
    rw [hcmd]
  rw [Model.indexCmds, List.filter_append,
    filter_flatMap_entries _ hchanged name prev.indices.nodupKeys,
    filter_flatMap_entries _ hnew name m.indices.nodupKeys]
  show (match prev.indices.lookup name with | none => [] | some index => _) ++
    (match m.indices.lookup name with | none => [] | some index => _) = _
  cases hold : prev.indices.lookup name <;> cases hdecl : m.indices.lookup name <;>
    simp [Model.changedIndexCmds, Model.newIndexCmds, indexCmdsAt, hold, hdecl]

/-- The sort leaves the commands of one name in the order in which they are added. -/
theorem indexCmdsAt_sorted {name : Str} {old new : Option Index} {cmds : List Cmd}
    (hperm : cmds.Perm (indexCmdsAt name old new))
    (hordered : cmds.Pairwise fun a b => a.priority ≤ b.priority) :
    cmds = indexCmdsAt name old new := by
  have hsorted : (indexCmdsAt name old new).Pairwise fun a b => a.priority ≤ b.priority := by
    unfold indexCmdsAt
    split <;> try simp
    split <;> simp [Cmd.priority]
  refine List.Perm.eq_of_pairwise ?_ hordered hsorted hperm
  intro a b ha hb hab hba
  rcases mem_indexCmdsAt (hperm.subset ha) with rfl | rfl <;>
    rcases mem_indexCmdsAt hb with rfl | rfl <;> simp_all [Cmd.priority]

/-- The condition on the two entries of a name. -/
def IndexMigratable (name : Str) : Option Index → Option Index → Prop
  | none, none => True
  | none, some new => Addable name new
  | some _, none => name ≠ []
  | some old, some new => if old.eq new then old.columns = new.columns else Addable name new

instance (name : Str) (old new : Option Index) : Decidable (IndexMigratable name old new) := by
  cases old <;> cases new <;> unfold IndexMigratable <;> infer_instance

theorem runAt_indexCmdsAt (m : Model) (name : Str) (old : Option Index) :
    Keyed.runAt (indexAct m) (old.map Index.key) (indexCmdsAt name old (m.indices.lookup name)) =
        some (m.indices.keys name) ↔
      IndexMigratable name old (m.indices.lookup name) := by
  have hkeys : m.indices.keys name = (m.indices.lookup name).map Index.key := rfl
  rw [hkeys]
  cases hdecl : m.indices.lookup name with
  | none =>
    cases old with
    | none => simp [indexCmdsAt, Keyed.runAt, IndexMigratable]
    | some old =>
      by_cases hname : name = [] <;>
        simp [indexCmdsAt, Keyed.runAt, indexAct, IndexMigratable, hname]
  | some new =>
    cases old with
    | none =>
      by_cases hadd : Addable name new <;>
        simp [indexCmdsAt, Keyed.runAt, indexAct, IndexMigratable, hdecl, hadd]
    | some old =>
      cases heq : old.eq new with
      | true =>
        have htype := (Index.eq_name_type heq).2
        simp [indexCmdsAt, Keyed.runAt, IndexMigratable, heq, Index.key, htype]
      | false =>
        by_cases hadd : Addable name new
        · have hname : name ≠ [] := hadd.2.1
          simp [indexCmdsAt, Keyed.runAt, indexAct, IndexMigratable, hdecl, hadd, heq, hname]
        · by_cases hname : name = []
          · subst hname
            simp [indexCmdsAt, Keyed.runAt, indexAct, IndexMigratable, hadd, heq]
          · simp [indexCmdsAt, Keyed.runAt, indexAct, IndexMigratable, hdecl, hadd, heq, hname]

/-! ## All commands -/

theorem allColumnCmds_not_index {conf : Config} {prev : Loaded} {fields : List FieldMeta}
    {cmds : List Cmd} (h : Model.allColumnCmds conf prev fields = some cmds) :
    ∀ cmd ∈ cmds, cmd.isIndex = false := by
  intro cmd hcmd
  rcases (Model.allColumnCmds_target h cmd hcmd).2 with haction | haction <;>
    simp [Cmd.isIndex, haction]

theorem indexCmds_isIndex (m : Model) (prev : Loaded) : ∀ cmd ∈ m.indexCmds prev, cmd.isIndex := by
  intro cmd hcmd
  have hmem : cmd ∈ (m.indexCmds prev).filter fun c => c.targetName = cmd.targetName := by
    simp [hcmd]
  rw [indexCmds_filter] at hmem
  rcases mem_indexCmdsAt hmem with h | h <;> rw [h] <;> rfl

theorem diffTable_filter {conf : Config} {m : Model} {prev : Loaded} {cmds : List Cmd}
    (hfields : prev.fields ≠ []) (hdiff : m.diffTable conf prev = some cmds) :
    cmds.filter Cmd.isIndex = m.indexCmds prev := by
  have hpos : prev.fields.length > 0 := List.length_pos_iff.mpr hfields
  simp only [Model.diffTable, hpos, if_true, Option.bind_eq_bind, Option.bind_eq_some_iff,
    Option.some.injEq] at hdiff
  obtain ⟨columns, hcolumns, rfl⟩ := hdiff
  have hcols : columns.filter Cmd.isIndex = [] :=
    List.filter_eq_nil_iff.mpr fun cmd hcmd => by simp [allColumnCmds_not_index hcolumns cmd hcmd]
  have hindices : (m.indexCmds prev).filter Cmd.isIndex = m.indexCmds prev :=
    List.filter_eq_self.mpr (indexCmds_isIndex m prev)
  rw [List.filter_append, List.filter_append, hcols, hindices]
  split <;> simp [Model.renameCmd, Cmd.isIndex]

/-- Every index command of the sorted list is accepted, and they leave the table
with the declared indexes. -/
def IndexesConverge (conf : Config) (m : Model) (db : Database) (sorted : List Cmd) : Prop :=
  ∃ db' t', m.migrateAccepted conf db (sorted.filter Cmd.isIndex) = some db' ∧
    db' m.getTableName = some t' ∧ t'.indices = m.indices.keys

/-- A table with the indexes `prev` describes, and the commands for it, sorted. -/
structure IndexRun (conf : Config) (m : Model) (prev : Loaded) (db : Database) (sorted : List Cmd) :
    Prop where
  name : m.getTableName ≠ []
  fields : prev.fields ≠ []
  table : ∃ t, db m.getTableName = some t ∧ t.indices = prev.indices.keys
  cmds : ∃ cmds, m.diffTable conf prev = some cmds ∧ SortedFrom cmds sorted

/-- One table of two columns with a unique index on both. -/
def sampleColumns : List FieldMeta :=
  [{ fieldName := "a".toList, cppType := "int".toList },
   { fieldName := "b".toList, cppType := "int".toList }]

def uniqueOn (columns : List String) : Indices :=
  (∅ : Indices).insert "uni".toList ⟨.INDEX_TYPE_UNI, "uni".toList, columns.map String.toList⟩

def samplePrev (indices : Indices) : Loaded where
  tableName := "user".toList
  fields := sampleColumns
  indices := indices
  nameToIndex := ((∅ : NameToIndex).insert "a".toList 0).insert "b".toList 1

def sampleDeclared (indices : Indices) : Model where
  className := "User".toList
  metadata := sampleColumns
  indices := indices
  columnToIndex := ((∅ : NameToIndex).insert "a".toList 0).insert "b".toList 1

def sampleDatabase (indices : Indices) : Database :=
  Function.update (fun _ => none) "user".toList (some ⟨fun _ => none, indices.keys⟩)

theorem sample_indexRun (prev declared : Indices) {sorted : List Cmd}
    (hsort : SortedFrom ((sampleDeclared declared).indexCmds (samplePrev prev)) sorted) :
    IndexRun rulesJson (sampleDeclared declared) (samplePrev prev) (sampleDatabase prev)
      sorted where
  name := (by decide : cppToDb "User".toList ≠ [])
  fields := (by decide : sampleColumns ≠ [])
  table := ⟨_, Function.update_self "user".toList _ _, rfl⟩
  cmds := by
    refine ⟨_, ?_, hsort⟩
    have hcolumns : Model.allColumnCmds rulesJson (samplePrev prev) sampleColumns = some [] := rfl
    have hpos : (samplePrev prev).fields.length > 0 := (by decide : sampleColumns.length > 0)
    have htable : (samplePrev prev).tableName = (sampleDeclared declared).getTableName := rfl
    simp only [Model.diffTable, hpos, if_true, htable, ne_eq, not_true_eq_false, and_false,
      if_false, Option.bind_eq_bind]
    exact congrArg (Option.bind · _) hcolumns

/-- UNIQUE (a, b) declared as UNIQUE (b, a) stays as it was. -/
theorem column_order_unnoticed :
    ¬ ∀ conf m prev db sorted, IndexRun conf m prev db sorted →
      IndexesConverge conf m db sorted := by
  intro hall
  have hrun := sample_indexRun (uniqueOn ["a", "b"]) (uniqueOn ["b", "a"]) ⟨.refl [], .nil⟩
  obtain ⟨db', t', haccepted, htable, hindices⟩ := hall _ _ _ _ _ hrun
  simp only [List.filter_nil, Model.migrateAccepted, List.foldlM_nil, Option.pure_def,
    Option.some.injEq] at haccepted
  subst haccepted
  have hsame : (uniqueOn ["a", "b"]).keys = (uniqueOn ["b", "a"]).keys := by
    have ht' : some ⟨fun _ => none, (uniqueOn ["a", "b"]).keys⟩ = some t' :=
      (Function.update_self "user".toList _ _).symm.trans htable
    rw [← Option.some.inj ht'] at hindices
    exact hindices
  have hcolumns := congrFun hsame "uni".toList
  revert hcolumns
  decide

/-- For every order of the sort: the indexes converge exactly if every index that
is new or changed can be added, and no index is taken for another one with its
columns in a different order. -/
theorem indexes_converge_iff {conf : Config} {m : Model} {prev : Loaded} {db : Database}
    {sorted : List Cmd} (h : IndexRun conf m prev db sorted) :
    IndexesConverge conf m db sorted ↔
      ∀ name, IndexMigratable name (prev.indices.lookup name) (m.indices.lookup name) := by
  obtain ⟨t, hdb, ht⟩ := h.table
  obtain ⟨cmds, hdiff, hsort⟩ := h.cmds
  have hindex : ∀ cmd ∈ sorted.filter Cmd.isIndex, cmd.isIndex := fun cmd hcmd =>
    (List.mem_filter.mp hcmd).2
  have hperm : (sorted.filter Cmd.isIndex).Perm (m.indexCmds prev) := by
    rw [← diffTable_filter h.fields hdiff]
    exact hsort.perm.filter _
  have hordered := hsort.ordered.filter Cmd.isIndex
  have hat (name : Str) : (sorted.filter Cmd.isIndex).filter (fun cmd => cmd.targetName = name) =
      indexCmdsAt name (prev.indices.lookup name) (m.indices.lookup name) := by
    refine indexCmdsAt_sorted ?_ (hordered.filter _)
    rw [← indexCmds_filter]
    exact hperm.filter _
  have hrun : IndexesConverge conf m db sorted ↔
      Keyed.run Cmd.targetName (indexAct m) t.indices (sorted.filter Cmd.isIndex) =
        some m.indices.keys := by
    unfold IndexesConverge
    rw [migrateAccepted_index h.name hdb conf hindex]
    cases Keyed.run Cmd.targetName (indexAct m) t.indices (sorted.filter Cmd.isIndex) with
    | none => simp
    | some indices =>
      simp only [Option.map_some, Option.some.injEq]
      constructor
      · rintro ⟨db', t', rfl, ht', hindices⟩
        rw [Function.update_self, Option.some.injEq] at ht'
        rw [← hindices, ← ht']
      · intro hindices
        exact ⟨_, _, rfl, Function.update_self _ _ _, hindices⟩
  rw [hrun, Keyed.run_eq_some_iff]
  refine forall_congr' fun name => ?_
  rw [hat, ht]
  exact runAt_indexCmdsAt m name (prev.indices.lookup name)

theorem indexes_converge_iff_sample :
    IndexesConverge rulesJson (sampleDeclared (uniqueOn ["b"])) 
      (sampleDatabase (uniqueOn ["a", "b"]))
      [⟨"uni".toList, .MIGACTION_DROP_INDEX, []⟩, ⟨"uni".toList, .MIGACTION_ADD_INDEX, []⟩] := by
  have hrun := sample_indexRun (uniqueOn ["a", "b"]) (uniqueOn ["b"])
    ⟨.refl _, by decide⟩
  refine (indexes_converge_iff hrun).mpr fun name => ?_
  by_cases hname : name = "uni".toList
  · subst hname
    decide
  · have hnone (columns : List String) : (uniqueOn columns).lookup name = none := by
      rw [uniqueOn, AList.lookup_insert_ne hname]
      rfl
    show IndexMigratable name ((uniqueOn ["a", "b"]).lookup name) ((uniqueOn ["b"]).lookup name)
    rw [hnone, hnone]
    trivial

end TinyOrm
