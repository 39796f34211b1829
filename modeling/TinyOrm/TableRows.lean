import TinyOrm.CatalogRows
import TinyOrm.Migration
import TinyOrm.GeneratedTags
set_option autoImplicit false

/-!
A table as information_schema shows it, and what `loadFromDB` makes of it.
-/

namespace TinyOrm

/-- The types stand in the catalog as the server prints them. -/
structure TableRows where
  table : Str
  columns : List ColumnRow
  indexes : List IndexRow
  some_column : columns ≠ []
  names_nodup : (columns.map (·.COLUMN_NAME)).Nodup
  types_tidy : ∀ row ∈ columns, Tidy row.COLUMN_TYPE
  index_columns : ∀ row ∈ indexes, row.COLUMN_NAME ∈ columns.map (·.COLUMN_NAME)
  indexes_nodup : (indexes.map fun row => (row.INDEX_NAME, row.COLUMN_NAME)).Nodup

def fieldOf (primary : Option Str) (row : ColumnRow) : FieldMeta :=
  { FieldMeta.ofRow rulesJson row with isPk := primary = some row.COLUMN_NAME }

namespace TableRows

variable (t : TableRows)

def catalog : Catalog where
  getColumns := fun name => some (if name = t.table then t.columns else [])
  getIndices := fun name => some (if name = t.table then t.indexes else [])

def field (row : ColumnRow) : FieldMeta := fieldOf (primaryOf t.indexes) row

def index (name : Str) : Option Index := indexOf t.indexes name

/-- After the loop over the columns. -/
def start : Loaded := ({} : Loaded).addColumnRows rulesJson 0 t.columns

/-- What `loadFromDB` has of the table after some rows of STATISTICS. -/
structure After (rows : List IndexRow) (d : Loaded) : Prop where
  tableName : d.tableName = []
  fields : d.fields = t.columns.map (fieldOf (primaryOf rows))
  nameToIndex : d.nameToIndex = t.start.nameToIndex
  indices : ∀ name, d.indices.lookup name = indexOf rows name

variable {t}

def toCatalogRows : CatalogRows :=
  ⟨t.columns, t.indexes, t.names_nodup, t.index_columns⟩

theorem lookup_start (name : Str) :
    t.start.nameToIndex.lookup name = t.columns.findIdx? (·.COLUMN_NAME = name) :=
  CatalogRows.lookup_start (c := t.toCatalogRows) name

theorem After.of_rows {rows : List IndexRow} {d : Loaded}
    (h : t.toCatalogRows.After rulesJson rows d) : t.After rows d :=
  ⟨h.tableName, h.fields, h.nameToIndex, h.indices⟩

theorem After.nil : t.After [] t.start :=
  .of_rows CatalogRows.After.nil

theorem loadFromDB_table :
    ∃ d, loadFromDB rulesJson t.catalog t.table {} = some d ∧ t.After t.indexes d := by
  have hcolumns : t.catalog.getColumns t.table = some t.columns := by simp [catalog]
  have hindexes : t.catalog.getIndices t.table = some t.indexes := by simp [catalog]
  obtain ⟨d, hload, hafter⟩ :=
    CatalogRows.loadFromDB_rows rulesJson (c := t.toCatalogRows) hcolumns hindexes
  exact ⟨d, hload, .of_rows hafter⟩

/-! ## The indexes of a table -/

theorem index_eq_some {name : Str} {index : Index} (h : t.index name = some index) :
    ∃ row more, t.indexes.filter (·.INDEX_NAME = name) = row :: more ∧
      index = ⟨row.type, name, (row :: more).map (·.COLUMN_NAME)⟩ := by
  unfold TableRows.index indexOf at h
  split at h
  · cases h
  · rename_i row more hfilter
    exact ⟨row, more, hfilter, (Option.some.inj h).symm⟩

theorem index_columns_eq {name : Str} {index : Index} (h : t.index name = some index) :
    index.columns = (t.indexes.filter (·.INDEX_NAME = name)).map (·.COLUMN_NAME) := by
  obtain ⟨row, more, hfilter, rfl⟩ := index_eq_some h
  rw [hfilter]

theorem index_name {name : Str} {index : Index} (h : t.index name = some index) : index.name =
    name := by
  obtain ⟨row, more, -, rfl⟩ := index_eq_some h
  rfl

theorem index_type {name : Str} {index : Index} (h : t.index name = some index) :
    (name = PRIMARY ∧ index.type = .INDEX_TYPE_PRI) ∨
      (name ≠ PRIMARY ∧ (index.type = .INDEX_TYPE_MUL ∨ index.type = .INDEX_TYPE_UNI)) := by
  obtain ⟨row, more, hfilter, rfl⟩ := index_eq_some h
  have hrow : row ∈ t.indexes.filter (·.INDEX_NAME = name) := by simp [hfilter]
  have hname : row.INDEX_NAME = name := by simpa using (List.mem_filter.mp hrow).2
  show (_ ∧ row.type = _) ∨ (_ ∧ (row.type = _ ∨ row.type = _))
  rw [IndexRow.type, hname]
  by_cases hprimary : name = PRIMARY
  · exact .inl ⟨hprimary, if_pos hprimary⟩
  · refine .inr ⟨hprimary, ?_⟩
    rw [if_neg hprimary]
    by_cases hunique : row.NON_UNIQUE = 1
    · exact .inl (if_pos hunique)
    · exact .inr (if_neg hunique)

theorem index_of_row {row : IndexRow} (h : row ∈ t.indexes) :
    ∃ index, t.index row.INDEX_NAME = some index := by
  have hmem : row ∈ t.indexes.filter (·.INDEX_NAME = row.INDEX_NAME) :=
    List.mem_filter.mpr ⟨h, by simp⟩
  unfold TableRows.index indexOf
  split
  · rename_i hfilter
    rw [hfilter] at hmem
    cases hmem
  · exact ⟨_, rfl⟩

theorem row_of_index {name : Str} {index : Index} (h : t.index name = some index) :
    ∃ row ∈ t.indexes, row.INDEX_NAME = name := by
  obtain ⟨row, more, hfilter, -⟩ := index_eq_some h
  have hrow : row ∈ t.indexes.filter (·.INDEX_NAME = name) := by simp [hfilter]
  exact ⟨row, (List.mem_filter.mp hrow).1, by simpa using (List.mem_filter.mp hrow).2⟩

theorem forall_index_iff {P : Index → Prop} :
    (∀ name index, t.index name = some index → P index) ↔
      ∀ row ∈ t.indexes, ∀ index ∈ t.index row.INDEX_NAME, P index := by
  constructor
  · exact fun h row _ index hindex => h row.INDEX_NAME index hindex
  · intro h name index hindex
    obtain ⟨row, hrow, rfl⟩ := row_of_index hindex
    exact h row hrow index hindex

theorem index_columns_ne_nil {name : Str} {index : Index} (h : t.index name = some index) :
    index.columns ≠ [] := by
  obtain ⟨row, more, -, rfl⟩ := index_eq_some h
  simp

theorem index_columns_nodup {name : Str} {index : Index} (h : t.index name = some index) :
    index.columns.Nodup := by
  rw [index_columns_eq h]
  have hrows := List.Nodup.of_map _ t.indexes_nodup
  refine List.Nodup.map_on ?_ (hrows.filter _)
  intro row hrow row' hrow' hcolumn
  obtain ⟨hmem, hname⟩ := List.mem_filter.mp hrow
  obtain ⟨hmem', hname'⟩ := List.mem_filter.mp hrow'
  have hpair : (row.INDEX_NAME, row.COLUMN_NAME) = (row'.INDEX_NAME, row'.COLUMN_NAME) := by
    simp only [decide_eq_true_eq] at hname hname'
    rw [hname, hname', hcolumn]
  exact List.inj_on_of_nodup_map t.indexes_nodup hmem hmem' hpair

theorem index_columns_subset {name : Str} {index : Index} (h : t.index name = some index) :
    ∀ col ∈ index.columns, ∃ row ∈ t.columns, row.COLUMN_NAME = col := by
  rw [index_columns_eq h]
  intro col hcol
  obtain ⟨row, hrow, rfl⟩ := List.mem_map.mp hcol
  exact List.mem_map.mp (t.index_columns row (List.mem_filter.mp hrow).1)

/-- The column marked as primary key is the first of the primary key. -/
theorem primaryOf_eq_head (t : TableRows) :
    primaryOf t.indexes = (t.index PRIMARY).bind (·.columns.head?) := by
  unfold primaryOf TableRows.index indexOf
  rw [← List.head?_filter]
  cases t.indexes.filter (·.INDEX_NAME = PRIMARY) <;> rfl

theorem mem_entries_iff {d : Loaded} (h : t.After t.indexes d)
    {entry : Sigma fun _ : Str => Index} :
    entry ∈ d.indices.entries ↔ t.index entry.1 = some entry.2 := by
  rw [TableRows.index, ← h.indices]
  exact AList.mem_lookup_iff.symm

end TableRows

end TinyOrm
