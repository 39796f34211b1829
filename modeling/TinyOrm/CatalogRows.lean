import TinyOrm.Catalog
set_option autoImplicit false

/-!
The rows of information_schema for one table, and what `loadFromDB` makes of them.
-/

namespace TinyOrm

/-- The columns of the indexes are columns of the table. -/
structure CatalogRows where
  columns : List ColumnRow
  indexes : List IndexRow
  names_nodup : (columns.map (·.COLUMN_NAME)).Nodup
  index_columns : ∀ row ∈ indexes, row.COLUMN_NAME ∈ columns.map (·.COLUMN_NAME)

/-! ## Columns and indexes by name -/

/-- The column that `loadFromDB` marks as the primary key. -/
def primaryOf (rows : List IndexRow) : Option Str :=
  (rows.find? (·.INDEX_NAME = PRIMARY)).map (·.COLUMN_NAME)

def columnField (conf : Config) (primary : Option Str) (row : ColumnRow) : FieldMeta :=
  { FieldMeta.ofRow conf row with isPk := primary = some row.COLUMN_NAME }

def IndexRow.type (row : IndexRow) : IndexType :=
  if row.INDEX_NAME = PRIMARY then .INDEX_TYPE_PRI
  else if row.NON_UNIQUE = 1 then .INDEX_TYPE_MUL
  else .INDEX_TYPE_UNI

def indexOf (rows : List IndexRow) (name : Str) : Option Index :=
  match rows.filter (·.INDEX_NAME = name) with
  | [] => none
  | row :: more => some ⟨row.type, name, row.COLUMN_NAME :: more.map (·.COLUMN_NAME)⟩

theorem FieldMeta.withPk_self {field : FieldMeta} {isPk : Bool} (h : field.isPk = isPk) :
    { field with isPk := isPk } = field := by
  cases field
  cases h
  rfl

theorem columnField_none (conf : Config) (row : ColumnRow) :
    columnField conf none row = FieldMeta.ofRow conf row :=
  FieldMeta.withPk_self (decide_eq_false (by simp)).symm

theorem columnField_own (conf : Config) (row : ColumnRow) :
    columnField conf (some row.COLUMN_NAME) row =
      { columnField conf none row with isPk := true } := by
  have hpk : decide (some row.COLUMN_NAME = some row.COLUMN_NAME) = true := decide_eq_true rfl
  rw [columnField, hpk, columnField]

theorem columnField_other (conf : Config) {row : ColumnRow} {name : Str}
    (h : row.COLUMN_NAME ≠ name) :
    columnField conf (some name) row = columnField conf none row := by
  simp [columnField, Ne.symm h]

theorem primaryOf_append (rows : List IndexRow) (row : IndexRow) :
    primaryOf (rows ++ [row]) =
      (primaryOf rows).or (if row.INDEX_NAME = PRIMARY then some row.COLUMN_NAME else none) := by
  by_cases h : row.INDEX_NAME = PRIMARY <;>
    cases hfind : rows.find? (·.INDEX_NAME = PRIMARY) <;>
      simp [primaryOf, List.find?_append, hfind, h]

theorem indexOf_append_ne (rows : List IndexRow) {row : IndexRow} {name : Str}
    (h : row.INDEX_NAME ≠ name) : indexOf (rows ++ [row]) name = indexOf rows name := by
  simp [indexOf, List.filter_append, h]

theorem indexOf_append_new {rows : List IndexRow} {row : IndexRow}
    (h : indexOf rows row.INDEX_NAME = none) :
    indexOf (rows ++ [row]) row.INDEX_NAME =
      some ⟨row.type, row.INDEX_NAME, [row.COLUMN_NAME]⟩ := by
  unfold indexOf at h ⊢
  split at h
  · rename_i hfilter
    simp [List.filter_append, hfilter]
  · cases h

theorem indexOf_append_more {rows : List IndexRow} {row : IndexRow} {index : Index}
    (h : indexOf rows row.INDEX_NAME = some index) :
    indexOf (rows ++ [row]) row.INDEX_NAME =
      some { index with columns := index.columns ++ [row.COLUMN_NAME] } := by
  unfold indexOf at h ⊢
  split at h
  · cases h
  · rename_i first more hfilter
    rw [List.filter_append, hfilter, ← Option.some.inj h]
    simp

theorem primaryOf_isSome (rows : List IndexRow) :
    (primaryOf rows).isSome = (indexOf rows PRIMARY).isSome := by
  induction rows using List.reverseRecOn with
  | nil => rfl
  | append_singleton rows row ih =>
    rw [primaryOf_append]
    by_cases h : row.INDEX_NAME = PRIMARY
    · rw [← h]
      cases hindex : indexOf rows row.INDEX_NAME with
      | none => simp [indexOf_append_new hindex]
      | some index => simp [indexOf_append_more hindex]
    · simp [h, indexOf_append_ne rows h, ih]

/-! ## The loop over the columns -/

theorem addColumnRows_fields (conf : Config) (rows : List ColumnRow) (i : Nat) (out : Loaded) :
    (out.addColumnRows conf i rows).fields = out.fields ++ rows.map (FieldMeta.ofRow conf) ∧
      (out.addColumnRows conf i rows).tableName = out.tableName ∧
      (out.addColumnRows conf i rows).indices = out.indices := by
  induction rows generalizing i out with
  | nil => simp [Loaded.addColumnRows]
  | cons row rows ih =>
    obtain ⟨hfields, htable, hindices⟩ := ih (i + 1) { out with
      nameToIndex := out.nameToIndex.insert row.COLUMN_NAME i
      fields := out.fields ++ [FieldMeta.ofRow conf row] }
    exact ⟨by simp [Loaded.addColumnRows, hfields], htable, hindices⟩

theorem addColumnRows_lookup (conf : Config) {rows : List ColumnRow}
    (h : (rows.map (·.COLUMN_NAME)).Nodup) (i : Nat) (out : Loaded) (name : Str) :
    (out.addColumnRows conf i rows).nameToIndex.lookup name =
      ((rows.findIdx? (·.COLUMN_NAME = name)).map (i + ·)).or (out.nameToIndex.lookup name) := by
  induction rows generalizing i out with
  | nil => simp [Loaded.addColumnRows]
  | cons row rows ih =>
    obtain ⟨hrow, hrows⟩ := List.nodup_cons.mp h
    rw [Loaded.addColumnRows, ih hrows, List.findIdx?_cons]
    by_cases hname : row.COLUMN_NAME = name
    · have hnone : rows.findIdx? (·.COLUMN_NAME = name) = none := by
        rw [List.findIdx?_eq_none_iff]
        intro r hr
        simp only [decide_eq_false_iff_not]
        intro heq
        exact hrow (List.mem_map.mpr ⟨r, hr, heq.trans hname.symm⟩)
      simp [hname, hnone]
    · have hne : name ≠ row.COLUMN_NAME := Ne.symm hname
      cases hfind : rows.findIdx? (·.COLUMN_NAME = name) with
      | none => simp [hname, AList.lookup_insert_ne hne]
      | some j =>
      simp [hname]
      omega

/-! ## The loop over the indexes -/

/-- The columns have different names. -/
theorem column_unique {columns : List ColumnRow} (h : (columns.map (·.COLUMN_NAME)).Nodup)
    {row row' : ColumnRow} (hrow : row ∈ columns) (hrow' : row' ∈ columns)
    (hname : row.COLUMN_NAME = row'.COLUMN_NAME) : row = row' :=
  List.inj_on_of_nodup_map h hrow hrow' hname

theorem modify_pk (conf : Config) {columns : List ColumnRow}
    (h : (columns.map (·.COLUMN_NAME)).Nodup) {name : Str} {i : Nat}
    (hi : columns.findIdx? (·.COLUMN_NAME = name) = some i) :
    (columns.map (columnField conf none)).modify i (fun field => { field with isPk := true }) =
      columns.map (columnField conf (some name)) := by
  induction columns generalizing i with
  | nil => cases hi
  | cons row rows ih =>
    obtain ⟨hrow, hrows⟩ := List.nodup_cons.mp h
    rw [List.findIdx?_cons] at hi
    by_cases hname : row.COLUMN_NAME = name
    · obtain rfl : 0 = i := by simpa [hname] using hi
      subst hname
      have hothers : rows.map (columnField conf (some row.COLUMN_NAME)) =
          rows.map (columnField conf none) := by
        refine List.map_congr_left fun other hother => columnField_other conf fun heq => hrow ?_
        exact List.mem_map.mpr ⟨other, hother, heq⟩
      rw [List.map_cons, List.map_cons, List.modify_zero_cons, hothers, columnField_own]
    · obtain ⟨j, hj, rfl⟩ : ∃ j, rows.findIdx? (·.COLUMN_NAME = name) = some j ∧ j + 1 = i := by
        simpa [hname] using hi
      rw [List.map_cons, List.map_cons, List.modify_succ_cons, ih hrows hj,
        columnField_other conf hname]

namespace CatalogRows

variable (conf : Config) (c : CatalogRows)

/-- After the loop over the columns. -/
def start : Loaded := ({} : Loaded).addColumnRows conf 0 c.columns

/-- What `loadFromDB` has of the table after some rows of STATISTICS. -/
structure After (rows : List IndexRow) (d : Loaded) : Prop where
  tableName : d.tableName = []
  fields : d.fields = c.columns.map (columnField conf (primaryOf rows))
  nameToIndex : d.nameToIndex = (c.start conf).nameToIndex
  indices : ∀ name, d.indices.lookup name = indexOf rows name

variable {conf c}

theorem lookup_start (name : Str) :
    (c.start conf).nameToIndex.lookup name = c.columns.findIdx? (·.COLUMN_NAME = name) := by
  have hlookup := addColumnRows_lookup conf c.names_nodup 0 {} name
  simpa [start] using hlookup

theorem After.nil : c.After conf [] (c.start conf) := by
  obtain ⟨hfields, htable, hindices⟩ := addColumnRows_fields conf c.columns 0 {}
  refine ⟨htable, ?_, rfl, fun name => ?_⟩
  · rw [start, hfields, List.nil_append]
    exact List.map_congr_left fun row _ => (columnField_none conf row).symm
  · rw [start, hindices]
    simp [indexOf]

/-- A further column of an index. -/
theorem After.more {rows : List IndexRow} {d : Loaded} (h : c.After conf rows d) {row : IndexRow}
    {index : Index} (hindex : indexOf rows row.INDEX_NAME = some index) :
    c.After conf (rows ++ [row]) { d with
      indices := d.indices.insert row.INDEX_NAME
        { index with columns := index.columns ++ [row.COLUMN_NAME] } } := by
  have hprimary : primaryOf (rows ++ [row]) = primaryOf rows := by
    rw [primaryOf_append]
    by_cases hname : row.INDEX_NAME = PRIMARY
    · have hsome : (primaryOf rows).isSome := by rw [primaryOf_isSome, ← hname, hindex]; rfl
      obtain ⟨first, hfirst⟩ := Option.isSome_iff_exists.mp hsome
      rw [hfirst]
      rfl
    · simp [hname]
  refine ⟨h.tableName, by rw [hprimary]; exact h.fields, h.nameToIndex, fun name => ?_⟩
  by_cases hname : row.INDEX_NAME = name
  · subst hname
    rw [indexOf_append_more hindex]
    simp
  · rw [indexOf_append_ne rows hname]
    simp [AList.lookup_insert_ne (Ne.symm hname), h.indices]

/-- The first column of an index, with `fields` as they are then. -/
theorem After.first {rows : List IndexRow} {d : Loaded} (h : c.After conf rows d) {row : IndexRow}
    (hindex : indexOf rows row.INDEX_NAME = none) {fields : List FieldMeta}
    (hfields : fields = c.columns.map (columnField conf (primaryOf (rows ++ [row])))) :
    c.After conf (rows ++ [row]) { d with
      fields := fields
      indices :=
        d.indices.insert row.INDEX_NAME ⟨row.type, row.INDEX_NAME, [row.COLUMN_NAME]⟩ } := by
  refine ⟨h.tableName, hfields, h.nameToIndex, fun name => ?_⟩
  by_cases hname : row.INDEX_NAME = name
  · subst hname
    rw [indexOf_append_new hindex]
    simp
  · rw [indexOf_append_ne rows hname]
    simp [AList.lookup_insert_ne (Ne.symm hname), h.indices]

theorem After.setPk {rows : List IndexRow} {d : Loaded} (h : c.After conf rows d)
    (hprimary : primaryOf rows = none) {name : Str}
    (hcolumn : name ∈ c.columns.map (·.COLUMN_NAME)) :
    d.setPk name = some { d with fields := c.columns.map (columnField conf (some name)) } := by
  obtain ⟨row, hrow, hname⟩ := List.mem_map.mp hcolumn
  cases hfind : c.columns.findIdx? (·.COLUMN_NAME = name) with
  | none =>
    rw [List.findIdx?_eq_none_iff] at hfind
    exact absurd (hfind row hrow) (by simp [hname])
  | some i =>
    have hlookup : d.nameToIndex.lookup name = some i := by
      rw [h.nameToIndex, lookup_start, hfind]
    have hlt : i < d.fields.length := by
      rw [h.fields, List.length_map]
      exact (List.findIdx?_eq_some_iff_getElem.mp hfind).1
    have hmodify := modify_pk conf c.names_nodup hfind
    rw [← hprimary, ← h.fields] at hmodify
    simp only [Loaded.setPk, hlookup, Option.getD_some, if_pos hlt, hmodify]

theorem After.step {rows : List IndexRow} {d : Loaded} (h : c.After conf rows d) {row : IndexRow}
    (hcolumn : row.COLUMN_NAME ∈ c.columns.map (·.COLUMN_NAME)) :
    ∃ d', d.addIndexRow row = some d' ∧ c.After conf (rows ++ [row]) d' := by
  unfold Loaded.addIndexRow
  rw [h.indices]
  cases hindex : indexOf rows row.INDEX_NAME with
  | some index => exact ⟨_, rfl, h.more hindex⟩
  | none =>
    dsimp only
    by_cases hname : row.INDEX_NAME = PRIMARY
    · have hprimary : primaryOf rows = none := by
        rw [← Option.not_isSome_iff_eq_none, primaryOf_isSome, ← hname, hindex]
        simp
      have hnext : primaryOf (rows ++ [row]) = some row.COLUMN_NAME := by
        rw [primaryOf_append, hprimary, if_pos hname]
        rfl
      have hfields : c.columns.map (columnField conf (some row.COLUMN_NAME)) =
          c.columns.map (columnField conf (primaryOf (rows ++ [row]))) := by rw [hnext]
      have hfirst := h.first hindex hfields
      rw [if_pos hname, h.setPk hprimary hcolumn]
      rw [IndexRow.type, if_pos hname] at hfirst
      exact ⟨_, rfl, hfirst⟩
    · have hnext : primaryOf (rows ++ [row]) = primaryOf rows := by
        rw [primaryOf_append, if_neg hname, Option.or_none]
      have hfields : d.fields = c.columns.map (columnField conf (primaryOf (rows ++ [row]))) := by
        rw [hnext]
        exact h.fields
      have hfirst := h.first hindex hfields
      rw [if_neg hname]
      rw [IndexRow.type, if_neg hname] at hfirst
      exact ⟨_, rfl, hfirst⟩

theorem After.run {rows : List IndexRow}
    (hrows : ∀ row ∈ rows, row.COLUMN_NAME ∈ c.columns.map (·.COLUMN_NAME)) :
    ∃ d, rows.foldlM Loaded.addIndexRow (c.start conf) = some d ∧ c.After conf rows d := by
  induction rows using List.reverseRecOn with
  | nil => exact ⟨(c.start conf), rfl, After.nil⟩
  | append_singleton rows row ih =>
    obtain ⟨d, hrun, hafter⟩ := ih fun r hr => hrows r (by simp [hr])
    obtain ⟨d', hstep, hafter'⟩ := hafter.step (hrows row (by simp))
    refine ⟨d', ?_, hafter'⟩
    rw [List.foldlM_append, hrun]
    simpa using hstep


/-! ## The whole load -/

theorem indexes_eq_nil (h : c.columns = []) : c.indexes = [] := by
  cases hrows : c.indexes with
  | nil => rfl
  | cons row rows =>
    have hrow := c.index_columns row (by simp [hrows])
    simp [h] at hrow

/-- A table without columns ends the load before its indexes are read. -/
theorem loadFromDB_rows (conf : Config) {catalog : Catalog} {tableName : Str}
    (hcolumns : catalog.getColumns tableName = some c.columns)
    (hindexes : catalog.getIndices tableName = some c.indexes) :
    ∃ d, loadFromDB conf catalog tableName {} = some d ∧ c.After conf c.indexes d := by
  by_cases hnil : c.columns = []
  · refine ⟨c.start conf, ?_, ?_⟩
    · simp [loadFromDB, hcolumns, hnil, start, Loaded.addColumnRows]
    · rw [c.indexes_eq_nil hnil]
      exact After.nil
  · obtain ⟨d, hrun, hafter⟩ : ∃ d, c.indexes.foldlM Loaded.addIndexRow (c.start conf) = some d ∧
        c.After conf c.indexes d := After.run c.index_columns
    have hne : c.columns.isEmpty = false := by simpa using hnil
    refine ⟨d, ?_, hafter⟩
    rw [← hrun]
    simp only [loadFromDB, hcolumns, hindexes, Option.bind_eq_bind, Option.bind_some, hne,
      Bool.false_eq_true, if_false, start]

/-! ## What the load reconstructs -/

/-- The columns of the primary key, in the order of its rows. -/
def primaryColumns (c : CatalogRows) : List Str :=
  (c.indexes.filter (·.INDEX_NAME = PRIMARY)).map (·.COLUMN_NAME)

/-- The column with all that its rows say of it. -/
def field (conf : Config) (c : CatalogRows) (row : ColumnRow) : FieldMeta :=
  { FieldMeta.ofRow conf row with isPk := c.primaryColumns.contains row.COLUMN_NAME }

/-- `indexOf` groups the rows of an index in their order; the kind is read from
the first of them. -/
structure Reconstructs (conf : Config) (c : CatalogRows) (d : Loaded) : Prop where
  fields : d.fields = c.columns.map (c.field conf)
  nameToIndex : ∀ name i, d.nameToIndex.lookup name = some i ↔
    ∃ row, c.columns[i]? = some row ∧ row.COLUMN_NAME = name
  indices : ∀ name, d.indices.lookup name = indexOf c.indexes name

/-- All rows of the primary key are of one column. -/
def OneKeyColumn (c : CatalogRows) : Prop :=
  ∀ row ∈ c.indexes, ∀ row' ∈ c.indexes,
    row.INDEX_NAME = PRIMARY → row'.INDEX_NAME = PRIMARY → row.COLUMN_NAME = row'.COLUMN_NAME

theorem mem_primaryColumns {name : Str} :
    name ∈ c.primaryColumns ↔
      ∃ row ∈ c.indexes, row.INDEX_NAME = PRIMARY ∧ row.COLUMN_NAME = name := by
  simp [primaryColumns, and_assoc]

theorem primaryOf_eq_head : primaryOf c.indexes = c.primaryColumns.head? := by
  rw [primaryOf, primaryColumns, List.head?_map, List.head?_filter]

theorem oneKeyColumn_iff :
    c.OneKeyColumn ↔ ∀ name ∈ c.primaryColumns, ∀ name' ∈ c.primaryColumns, name = name' := by
  constructor
  · intro h name hname name' hname'
    obtain ⟨row, hrow, hprimary, rfl⟩ := mem_primaryColumns.mp hname
    obtain ⟨row', hrow', hprimary', rfl⟩ := mem_primaryColumns.mp hname'
    exact h row hrow row' hrow' hprimary hprimary'
  · intro h row hrow row' hrow' hprimary hprimary'
    exact h _ (mem_primaryColumns.mpr ⟨row, hrow, hprimary, rfl⟩)
      _ (mem_primaryColumns.mpr ⟨row', hrow', hprimary', rfl⟩)

/-- `isPk` is set on the first column of the key only. -/
theorem flags_iff :
    (∀ row ∈ c.columns, primaryOf c.indexes = some row.COLUMN_NAME ↔
      row.COLUMN_NAME ∈ c.primaryColumns) ↔ c.OneKeyColumn := by
  rw [oneKeyColumn_iff, primaryOf_eq_head]
  constructor
  · intro h
    have hhead : ∀ name ∈ c.primaryColumns, c.primaryColumns.head? = some name := by
      intro name hname
      obtain ⟨row, hrow, -, hcol⟩ := mem_primaryColumns.mp hname
      obtain ⟨column, hcolumn, hsame⟩ := List.mem_map.mp (c.index_columns row hrow)
      have hcolumnName : column.COLUMN_NAME = name := hsame.trans hcol
      rw [← hcolumnName] at hname ⊢
      exact (h column hcolumn).mpr hname
    intro name hname name' hname'
    exact Option.some.inj ((hhead name hname).symm.trans (hhead name' hname'))
  · intro h row _
    cases hcols : c.primaryColumns with
    | nil => simp
    | cons first more =>
      rw [hcols] at h
      constructor
      · intro heq
        have hfirst : first = row.COLUMN_NAME := by simpa using heq
        simp [hfirst]
      · intro hmem
        have hfirst : first = row.COLUMN_NAME := h first (by simp) row.COLUMN_NAME hmem
        simp [hfirst]

theorem findIdx_name (name : Str) (i : Nat) :
    c.columns.findIdx? (·.COLUMN_NAME = name) = some i ↔
      ∃ row, c.columns[i]? = some row ∧ row.COLUMN_NAME = name := by
  rw [List.findIdx?_eq_some_iff_getElem]
  constructor
  · intro ⟨hlt, hname, _⟩
    exact ⟨c.columns[i], List.getElem?_eq_getElem hlt, by simpa using hname⟩
  · intro ⟨row, hget, hname⟩
    obtain ⟨hlt, hrow⟩ := List.getElem?_eq_some_iff.mp hget
    refine ⟨hlt, by simp [hrow, hname], fun j hj hsame => ?_⟩
    have hnames : c.columns[j].COLUMN_NAME = c.columns[i].COLUMN_NAME := by
      rw [hrow, hname]
      simpa using hsame
    have hltNames : i < (c.columns.map (·.COLUMN_NAME)).length := by simpa using hlt
    have hsameNames : (c.columns.map (·.COLUMN_NAME))[j] = (c.columns.map (·.COLUMN_NAME))[i] := by
      simpa using hnames
    have hij : j = i := (List.Nodup.getElem_inj_iff c.names_nodup).mp hsameNames
    omega

theorem After.reconstructs_iff {d : Loaded} (h : c.After conf c.indexes d) :
    c.Reconstructs conf d ↔ c.OneKeyColumn := by
  rw [← flags_iff]
  have hnames : ∀ name i, d.nameToIndex.lookup name = some i ↔
      ∃ row, c.columns[i]? = some row ∧ row.COLUMN_NAME = name := by
    intro name i
    rw [h.nameToIndex, lookup_start, findIdx_name]
  constructor
  · intro hrec row hrow
    have hfields : columnField conf (primaryOf c.indexes) row = c.field conf row :=
      List.map_inj_left.mp (h.fields.symm.trans hrec.fields) row hrow
    have hpk : decide (primaryOf c.indexes = some row.COLUMN_NAME) =
        c.primaryColumns.contains row.COLUMN_NAME := congrArg FieldMeta.isPk hfields
    rw [← List.contains_iff_mem, ← hpk, decide_eq_true_eq]
  · intro hflags
    refine ⟨?_, hnames, h.indices⟩
    rw [h.fields]
    refine List.map_congr_left fun row hrow => ?_
    have hpk : decide (primaryOf c.indexes = some row.COLUMN_NAME) =
        c.primaryColumns.contains row.COLUMN_NAME := by
      rw [Bool.eq_iff_iff, decide_eq_true_eq, List.contains_iff_mem]
      exact hflags row hrow
    rw [columnField, hpk, field]

/-- The load describes the rows exactly when the primary key has one column:
its further rows leave `isPk` as it is. -/
theorem loaded_iff (conf : Config) (c : CatalogRows) (catalog : Catalog) (tableName : Str)
    (hcolumns : catalog.getColumns tableName = some c.columns)
    (hindexes : catalog.getIndices tableName = some c.indexes) :
    (∃ d, loadFromDB conf catalog tableName {} = some d ∧ c.Reconstructs conf d) ↔
      c.OneKeyColumn := by
  obtain ⟨d, hload, hafter⟩ := loadFromDB_rows conf hcolumns hindexes
  rw [hload]
  constructor
  · intro ⟨d', heq, hrec⟩
    rw [← Option.some.inj heq] at hrec
    exact hafter.reconstructs_iff.mp hrec
  · exact fun hone => ⟨d, rfl, hafter.reconstructs_iff.mpr hone⟩

/-- A table of order items with a key of the given columns. -/
def orders (key : List Str) (hkey : ∀ name ∈ key, name ∈ ["ord".toList, "pos".toList]) :
    CatalogRows where
  columns := ["ord".toList, "pos".toList].map (⟨·, "int".toList, "NO".toList, [], []⟩)
  indexes := key.map (⟨PRIMARY, 0, ·⟩)
  names_nodup := by decide
  index_columns := by
    intro row hrow
    obtain ⟨name, hname, rfl⟩ := List.mem_map.mp hrow
    simpa using hkey name hname

def catalog (c : CatalogRows) : Catalog :=
  ⟨fun _ => some c.columns, fun _ => some c.indexes⟩

def singleKey : CatalogRows := orders ["ord".toList] (by simp)

def compositeKey : CatalogRows := orders ["ord".toList, "pos".toList] (by simp)

theorem loaded_singleKey :
    ∃ d, loadFromDB rulesJson singleKey.catalog "orders".toList {} = some d ∧
      singleKey.Reconstructs rulesJson d := by
  refine (loaded_iff rulesJson singleKey _ "orders".toList rfl rfl).mpr ?_
  intro row hrow row' hrow' _ _
  simp only [singleKey, orders, List.map_cons, List.map_nil, List.mem_singleton] at hrow hrow'
  rw [hrow, hrow']

/-- Of a key over two columns only the first is flagged. -/
theorem compositeKey_flags :
    ∃ d, loadFromDB rulesJson compositeKey.catalog "orders".toList {} = some d ∧
      compositeKey.primaryColumns = ["ord".toList, "pos".toList] ∧
      d.fields.map (·.isPk) = [true, false] ∧ ¬ compositeKey.Reconstructs rulesJson d := by
  obtain ⟨d, hload, hafter⟩ : ∃ d, loadFromDB rulesJson compositeKey.catalog "orders".toList {} =
      some d ∧ compositeKey.After rulesJson compositeKey.indexes d :=
    loadFromDB_rows rulesJson rfl rfl
  refine ⟨d, hload, rfl, ?_, ?_⟩
  · rw [hafter.fields]
    decide
  · rw [hafter.reconstructs_iff]
    intro hone
    have hsame := hone ⟨PRIMARY, 0, "ord".toList⟩ (by simp [compositeKey, orders])
      ⟨PRIMARY, 0, "pos".toList⟩ (by simp [compositeKey, orders]) rfl rfl
    exact absurd hsame (by decide)

end CatalogRows

end TinyOrm
