import TinyOrm.IndexMigration
import TinyOrm.TableRows
set_option autoImplicit false

/-!
When `AutoMigrate` adds no command for a model and the table it finds.
-/

namespace TinyOrm

/-! ## No command -/

theorem FieldMeta.eq_true {conf : Config} {field1 field2 : FieldMeta}
    (h : FieldMeta.eq conf field1 field2 = some true) :
    field1.getColumnName = field2.getColumnName ∧ field1.notNull = field2.notNull ∧
      field1.extra = field2.extra ∧ isSame field1.default_ field2.default_ = some true ∧
      isSameDbType conf (field1.getColumnType conf) (field2.getColumnType conf) = true := by
  obtain ⟨⟨hname, hnull, hextra⟩, hsame, htype⟩ := FieldMeta.eq_true_iff.mp h
  exact ⟨hname, hnull, hextra, hsame, htype⟩

theorem indexCmds_eq_nil_iff (m : Model) (prev : Loaded) :
    m.indexCmds prev = [] ↔
      ∀ name, indexCmdsAt name (prev.indices.lookup name) (m.indices.lookup name) = [] := by
  constructor
  · intro h name
    rw [← indexCmds_filter, h]
    rfl
  · intro h
    rw [List.eq_nil_iff_forall_not_mem]
    intro cmd hcmd
    have hempty := h cmd.targetName
    rw [← indexCmds_filter, List.filter_eq_nil_iff] at hempty
    exact hempty cmd hcmd (by simp)

namespace TableRows

variable {t : TableRows} {d : Loaded}

theorem columnCmds_eq_nil_iff (h : t.After t.indexes d) (field : FieldMeta) :
    Model.columnCmds rulesJson d field = some [] ↔
      ∃ row ∈ t.columns, FieldMeta.eq rulesJson field (t.field row) = some true := by
  have hname (row : ColumnRow) : (t.field row).getColumnName = row.COLUMN_NAME := rfl
  unfold Model.columnCmds
  rw [h.nameToIndex, lookup_start]
  cases hfind : t.columns.findIdx? (·.COLUMN_NAME = field.getColumnName) with
  | none =>
    rw [List.findIdx?_eq_none_iff] at hfind
    constructor
    · dsimp only
      split <;> simp
    · rintro ⟨row, hrow, heq⟩
      exact absurd (hfind row hrow) (by simp [(FieldMeta.eq_true heq).1, hname])
  | some i =>
    obtain ⟨hlt, hown, -⟩ := List.findIdx?_eq_some_iff_getElem.mp hfind
    simp only [decide_eq_true_eq] at hown
    have hget : d.fields[i]? = some (t.field t.columns[i]) := by
      rw [h.fields, List.getElem?_map, List.getElem?_eq_getElem hlt]
      rfl
    have hnil (same : Bool) : (if same then [] else
        [⟨field.getColumnName, .MIGACTION_CHANGE_COLUMN, []⟩] : List Cmd) = [] ↔ same = true := by
      cases same <;> simp
    simp only [hget, Option.bind_eq_bind, Option.bind_some, Option.bind_eq_some_iff,
      Option.some.injEq, hnil]
    constructor
    · rintro ⟨same, hsame, rfl⟩
      exact ⟨t.columns[i], List.getElem_mem hlt, hsame⟩
    · rintro ⟨row, hrow, heq⟩
      have hsame : row = t.columns[i] := by
        apply column_unique t.names_nodup hrow (List.getElem_mem hlt)
        rw [hown, ← hname row]
        exact (FieldMeta.eq_true heq).1.symm
      exact ⟨true, hsame ▸ heq, rfl⟩

theorem After.fields_ne_nil {rows : List IndexRow} (h : t.After rows d) : d.fields ≠ [] := by
  rw [h.fields]
  simpa using t.some_column

/-- No command for a model of the same table name. -/
theorem autoMigrate_eq_nil_iff (h : t.After t.indexes d)
    (hload : loadFromDB rulesJson t.catalog t.table {} = some d) {m : Model}
    (htable : m.getTableName = t.table) :
    (∃ prev, m.AutoMigrate rulesJson 0 none t.catalog {} = some ([], prev)) ↔
      (∀ field ∈ m.metadata, Model.columnCmds rulesJson d field = some []) ∧ m.indexCmds d =
      [] := by
  have hne := h.fields_ne_nil
  have hsearch : m.searchTable rulesJson t.catalog {} = some (d, []) := by
    simp [Model.searchTable, htable, hload, hne]
  have hdiff : m.diffTable rulesJson d =
      (Model.allColumnCmds rulesJson d m.metadata).map (· ++ m.indexCmds d) := by
    have hpos : d.fields.length > 0 := List.length_pos_of_ne_nil hne
    cases hcols : Model.allColumnCmds rulesJson d m.metadata <;>
      simp [Model.diffTable, hpos, h.tableName, hcols]
  have hfile : loadFromFile 0 none m.className {} = some {} := rfl
  rw [← Model.allColumnCmds_eq_nil_iff]
  simp only [Model.AutoMigrate, hfile, Option.bind_eq_bind, Option.bind_some, hsearch, hdiff,
    List.nil_append, Option.bind_eq_some_iff, Option.map_eq_some_iff, Option.some.injEq,
    Prod.mk.injEq]
  constructor
  · rintro ⟨prev, cmds, ⟨cols, hcols, rfl⟩, hnil, -⟩
    obtain ⟨rfl, hindex⟩ := List.append_eq_nil_iff.mp hnil
    exact ⟨hcols, hindex⟩
  · rintro ⟨hcols, hindex⟩
    exact ⟨_, [], ⟨[], hcols, by simp [hindex]⟩, rfl, rfl⟩

end TableRows

end TinyOrm
