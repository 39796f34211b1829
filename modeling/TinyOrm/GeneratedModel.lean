import TinyOrm.TableDiff
import TinyOrm.GeneratedHeader
set_option autoImplicit false

/-!
When a generated model describes the table that it was generated from.
-/

namespace TinyOrm

/-! ## One column -/

/-- The column comes through its tag. -/
structure FieldMeta.Printed (field : FieldMeta) : Prop where
  name : 2 ≤ field.getColumnName.length
  type : ∀ type ∈ field.columnType, ',' ∉ type
  autoInc : field.autoInc = true → field.isPk = true
  notNull : field.isPk = true → field.notNull = true
  default_ : field.default_ = [] ∨ Word field.default_
  extra : field.extra.length ≠ 1 ∧ ExtraWords field.extra

instance (field : FieldMeta) : Decidable field.Printed :=
  decidable_of_iff
    (2 ≤ field.getColumnName.length ∧ (∀ type ∈ field.columnType, ',' ∉ type) ∧
      (field.autoInc = true → field.isPk = true) ∧ (field.isPk = true → field.notNull = true) ∧
      (field.default_ = [] ∨ Word field.default_) ∧
      field.extra.length ≠ 1 ∧ ExtraWords field.extra)
    ⟨fun ⟨h1, h2, h3, h4, h5, h6⟩ => ⟨h1, h2, h3, h4, h5, h6⟩,
      fun ⟨h1, h2, h3, h4, h5, h6⟩ => ⟨h1, h2, h3, h4, h5, h6⟩⟩

theorem FieldMeta.eq_nameIndex (conf : Config) (field1 field2 : FieldMeta) :
    FieldMeta.eq conf field1.nameIndex field2 = FieldMeta.eq conf field1 field2 := by
  unfold FieldMeta.nameIndex
  split <;> rfl

theorem word_of_isSame {default1 default2 : Str} (h : isSame default1 default2 = some true)
    (hword : default1 = [] ∨ Word default1) : default2 = [] ∨ Word default2 := by
  have hnow : Word now := by decide
  have hcurrent : Word current_timestamp := by decide
  rcases isSame_eq_true_iff.mp h with rfl | ⟨-, hlower⟩ | ⟨-, hlower⟩
  · exact hword
  · exact .inr (word_toLowerCase.mp (by rw [hlower]; exact hcurrent))
  · exact .inr (word_toLowerCase.mp (by rw [hlower]; exact hnow))

namespace FieldMeta

variable {field : FieldMeta} {name type : Str}

/-- A column that is read back without a difference was printed as the parser wants it. -/
theorem printable_of_eq {read : FieldMeta} (hparsed : Parsed read)
    (heq : FieldMeta.eq rulesJson read field = some true) (hname : field.columnName = some name)
    (htype : field.columnType = some type) (hword : Word name) (htidy : Tidy type)
    (hlen : 2 ≤ type.length) : Printable field name type := by
  obtain ⟨-, -, hextra, hdefault, hsame⟩ := FieldMeta.eq_true heq
  have hfield : field.getColumnType rulesJson = type := by rw [getColumnType, htype]; rfl
  have hread : ',' ∉ read.getColumnType rulesJson := by
    unfold getColumnType
    cases hcolumn : read.columnType with
    | none => exact no_comma_dbType hparsed.cppType
    | some t => exact hparsed.type t hcolumn
  rw [hfield] at hsame
  exact {
    columnName := hname
    columnType := htype
    word_name := hword
    tidy_type := htidy
    no_comma := no_comma_of_same hsame hread
    two_le_type := hlen
    default_ := word_of_isSame hdefault hparsed.default_
    extra := hextra ▸ hparsed.extra }

theorem not_same_auto (type : Str) :
    isSameDbType rulesJson (type ++ " auto_increment".toList) type = false := by
  have hrules : ∀ entry ∈ rulesJson.same_types, ∀ type ∈ entry.2, ' ' ∉ type := by decide
  have hne : type ++ " auto_increment".toList ≠ type := by
    intro heq
    have hlen := congrArg List.length heq
    rw [List.length_append] at hlen
    have hauto : " auto_increment".toList.length = 15 := rfl
    omega
  unfold isSameDbType
  split
  · exact decide_eq_false hne
  · rename_i types htypes
    have hmem : type ++ " auto_increment".toList ∉ types := fun hmem =>
      hrules _ (mem_of_lookup htypes) _ hmem (by simp)
    rw [if_neg hmem]
    exact decide_eq_false hne

/-- One letter is stripped with the blank before it. -/
theorem strip_name_iff (hword : Word name) : Util.strip (' ' :: name) = name ↔ 2 ≤ name.length := by
  constructor
  · intro h
    by_contra hshort
    have hpos : 0 < name.length := List.length_pos_of_ne_nil hword.1
    obtain ⟨c, rfl⟩ := List.length_eq_one_iff.mp (show name.length = 1 by omega)
    cases h
  · exact hword.token.tidy.strip_blank

theorem eq_readBack_iff (h : Printable field name type) (member cppType : Str) (offset : Int) :
    FieldMeta.eq rulesJson (readBack field name type member cppType offset) field = some true ↔
      field.Printed := by
  have hname : field.getColumnName = name := by rw [getColumnName, h.columnName]; rfl
  have htype : field.getColumnType rulesJson = type := by rw [getColumnType, h.columnType]; rfl
  constructor
  · intro heq
    obtain ⟨hname', hnull, hextra, -, hsame⟩ := FieldMeta.eq_true heq
    have hstrip : Util.strip (' ' :: name) = name := hname'.trans hname
    have hread :
        isSameDbType rulesJson (type ++ autoText (!field.isPk && field.autoInc)) type = true := by
      rwa [htype] at hsame
    refine ⟨?_, ?_, ?_, ?_, h.default_, ?_, h.extra⟩
    · rw [hname]
      exact (strip_name_iff h.word_name).mp hstrip
    · rw [h.columnType]
      intro t ht
      rw [← Option.some.inj ht]
      exact h.no_comma
    · intro hauto
      by_contra hpk
      simp only [Bool.not_eq_true] at hpk
      rw [hauto, hpk] at hread
      exact absurd ((not_same_auto type).symm.trans hread) (by decide)
    · intro hpk
      have hor : (field.isPk || field.notNull) = field.notNull := hnull
      rw [← hor, hpk]
      rfl
    · intro hone
      have hempty : readExtra field.extra = field.extra := hextra
      rw [readExtra, if_pos hone] at hempty
      rw [← hempty] at hone
      cases hone
  · intro hprinted
    have hlen : 2 ≤ name.length := by
      rw [← hname]
      exact hprinted.name
    have hauto : (!field.isPk && field.autoInc) = false := by
      cases hpk : field.isPk with
      | true => rfl
      | false =>
        have hnot : field.autoInc ≠ true := fun h' => by simp [hprinted.autoInc h'] at hpk
        simpa using hnot
    refine FieldMeta.eq_of_same rulesJson ?_ ?_ ?_ rfl ?_
    · rw [hname]
      exact (strip_name_iff h.word_name).mpr hlen
    · show (field.isPk || field.notNull) = field.notNull
      cases hpk : field.isPk with
      | true => exact (hprinted.notNull hpk).symm
      | false => rfl
    · show readExtra field.extra = field.extra
      rw [readExtra, if_neg hprinted.extra.1]
    · rw [htype]
      show type ++ autoText (!field.isPk && field.autoInc) = type
      rw [hauto, autoText]
      exact List.append_nil type

end FieldMeta

/-! ## The header of a table -/

def ColumnRow.member (row : ColumnRow) : Str := dbToCpp row.COLUMN_NAME false

namespace TableRows

section Header

variable (t : TableRows)

def header (d : Loaded) : ModelHeader where
  entity := dbToCpp t.table true
  tableName := t.table
  columns := t.columns.map fun row => ModelGen.columnLine (t.field row)
  indices := d.indices.entries.filterMap fun entry => ModelGen.indexLine entry.2

/-- The header can be declared: one class, its members and its collectors. -/
structure Names : Prop where
  entity : CppIdentifier (dbToCpp t.table true)
  table : CppIdentifier ("collector_table_".toList ++ t.table)
  members : ∀ row ∈ t.columns, CppIdentifier row.member ∧ row.member ≠ dbToCpp t.table true
  distinct : (t.columns.map ColumnRow.member).Nodup
  indices : ∀ row ∈ t.indexes, row.INDEX_NAME ≠ PRIMARY →
    CppIdentifier ("collector_index_".toList ++ row.INDEX_NAME)

/-- The column of the model for the column at this place of the table. -/
def column (row : ColumnRow) (offset : Nat) : FieldMeta :=
  (FieldMeta.ofMetadata (stringify row.member)
    ⟨stringify (t.field row).cppType, offset, stringify (ModelGen.tags (t.field row))⟩).nameIndex

def metadata : List FieldMeta := t.columns.zipIdx.map fun p => t.column p.1 p.2

end Header

variable {t : TableRows} {d : Loaded}

theorem gen_eq (h : t.After t.indexes d) : ModelGen.gen t.table d = some (t.header d) := by
  have hlen : d.fields.length ≠ 0 := fun hzero => h.fields_ne_nil (List.length_eq_zero_iff.mp hzero)
  rw [ModelGen.gen, if_neg hlen, header, h.fields, List.map_map]
  rfl

theorem declares_iff (h : t.After t.indexes d) : (t.header d).Declares ↔ t.Names := by
  have hmembers : (t.header d).columns.map (·.name) = t.columns.map ColumnRow.member := by
    rw [header, List.map_map]
    rfl
  constructor
  · intro hdeclares
    refine ⟨hdeclares.entity, hdeclares.table, ?_, hmembers ▸ hdeclares.distinct, ?_⟩
    · intro row hrow
      exact hdeclares.members _ (List.mem_map.mpr ⟨row, hrow, rfl⟩)
    · intro row hrow hname
      obtain ⟨index, hindex⟩ := index_of_row hrow
      have hentry : (⟨row.INDEX_NAME, index⟩ : Sigma fun _ : Str => Index) ∈ d.indices.entries :=
        (mem_entries_iff h).mpr hindex
      have hline : ∃ line, ModelGen.indexLine index = some line ∧ line.name = row.INDEX_NAME := by
        rw [← index_name hindex]
        rcases index_type hindex with ⟨hprimary, -⟩ | ⟨-, htype | htype⟩
        · exact absurd hprimary hname
        · exact ⟨_, by rw [ModelGen.indexLine, htype], rfl⟩
        · exact ⟨_, by rw [ModelGen.indexLine, htype], rfl⟩
      obtain ⟨line, hline, hlineName⟩ := hline
      rw [← hlineName]
      exact hdeclares.indices line (List.mem_filterMap.mpr ⟨_, hentry, hline⟩)
  · intro hnames
    refine ⟨hnames.entity, hnames.table, ?_, hmembers ▸ hnames.distinct, ?_⟩
    · intro line hline
      obtain ⟨row, hrow, rfl⟩ := List.mem_map.mp hline
      exact hnames.members row hrow
    · intro line hline
      obtain ⟨entry, hentry, hline⟩ := List.mem_filterMap.mp hline
      have hindex := (mem_entries_iff h).mp hentry
      have hname : line.name = entry.1 := by
        rw [← index_name hindex]
        unfold ModelGen.indexLine at hline
        split at hline <;> cases hline <;> rfl
      have hprimary : entry.1 ≠ PRIMARY := by
        rcases index_type hindex with ⟨-, htype⟩ | ⟨hne, -⟩
        · simp [ModelGen.indexLine, htype] at hline
        · exact hne
      obtain ⟨row, hrow, hrowName⟩ := row_of_index hindex
      rw [hname, ← hrowName]
      exact hnames.indices row hrow (by rwa [hrowName])

theorem Names.word_column (h : t.Names) {row : ColumnRow} (hrow : row ∈ t.columns) :
    Word row.COLUMN_NAME :=
  word_of_member (h.members row hrow).1

theorem Names.stringify_member (h : t.Names) {row : ColumnRow} (hrow : row ∈ t.columns) :
    stringify row.member = row.member :=
  (h.members row hrow).1.word.token.tidy

theorem Names.tidy_index (h : t.Names) {name : Str} {index : Index}
    (hindex : t.index name = some index) :
    index.Tidy where
  name := by
    rw [index_name hindex]
    by_cases hprimary : name = PRIMARY
    · subst hprimary
      decide
    · obtain ⟨row, hrow, rfl⟩ := row_of_index hindex
      exact tidy_of_pasted (h.indices row hrow hprimary)
  columns := by
    intro col hcol
    obtain ⟨row, hrow, rfl⟩ := index_columns_subset hindex col hcol
    exact (h.word_column hrow).token.tidy
  some_column := index_columns_ne_nil hindex

/-! ## Its columns -/

theorem columnType_length {row : ColumnRow} (htype : (t.field row).cppType ≠ []) :
    2 ≤ row.COLUMN_TYPE.length := by
  have hlen := length_of_cppType htype
  omega

theorem printable_of_printed (h : t.Names) {row : ColumnRow} (hrow : row ∈ t.columns)
    (htype : (t.field row).cppType ≠ []) (hprinted : (t.field row).Printed) :
    Printable (t.field row) row.COLUMN_NAME row.COLUMN_TYPE where
  columnName := rfl
  columnType := rfl
  word_name := h.word_column hrow
  tidy_type := t.types_tidy row hrow
  no_comma := hprinted.type _ rfl
  two_le_type := columnType_length htype
  default_ := hprinted.default_
  extra := hprinted.extra.2

/-- The column is read back without a difference if and only if it comes through its tag. -/
theorem column_iff (h : t.Names) {row : ColumnRow} (hrow : row ∈ t.columns)
    (htype : (t.field row).cppType ≠ []) (offset : Nat) :
    FieldMeta.eq rulesJson (t.column row offset) (t.field row) = some true ↔
      (t.field row).Printed := by
  rw [column, FieldMeta.eq_nameIndex]
  constructor
  · intro heq
    have hcpp : ',' ∉ stringify (t.field row).cppType := no_comma_stringify (no_comma_cppType _)
    have hparsed : FieldMeta.Parsed (FieldMeta.ofMetadata (stringify row.member)
        ⟨stringify (t.field row).cppType, offset, stringify (ModelGen.tags (t.field row))⟩) :=
      FieldMeta.ofMetadata_parsed _ hcpp (blanks_stringify _)
    have hprintable : Printable (t.field row) row.COLUMN_NAME row.COLUMN_TYPE :=
      FieldMeta.printable_of_eq hparsed heq rfl rfl (h.word_column hrow) (t.types_tidy row hrow)
        (columnType_length htype)
    rw [ofMetadata_tags hprintable] at heq
    exact (FieldMeta.eq_readBack_iff hprintable _ _ _).mp heq
  · intro hprinted
    have hprintable := printable_of_printed h hrow htype hprinted
    rw [ofMetadata_tags hprintable]
    exact (FieldMeta.eq_readBack_iff hprintable _ _ _).mpr hprinted

theorem column_index (h : t.Names) {row : ColumnRow} (hrow : row ∈ t.columns)
    (htype : (t.field row).cppType ≠ []) (hprinted : (t.field row).Printed) (offset : Nat) :
    (t.column row offset).hasIndex = (t.field row).isPk ∧
      ((t.field row).isPk = true →
        (t.column row offset).index = ⟨.INDEX_TYPE_PRI, PRIMARY, [row.COLUMN_NAME]⟩) := by
  have hprintable := printable_of_printed h hrow htype hprinted
  have hstrip := (FieldMeta.strip_name_iff (h.word_column hrow)).mpr hprinted.name
  rw [column, ofMetadata_tags hprintable, FieldMeta.nameIndex, readBack, hstrip]
  cases (t.field row).isPk with
  | false => exact ⟨rfl, fun hpk => absurd hpk (by decide)⟩
  | true => exact ⟨rfl, fun _ => rfl⟩

/-! ## Its indexes -/

/-- What the collectors of the indexes leave. -/
def inds (d : Loaded) : List Index := d.indices.entries.filterMap fun entry => entry.2.readBack

theorem lookup_inds (h : t.After t.indexes d) (name : Str) :
    ((inds d).foldl (fun indices i => indices.insert i.name i) (∅ : Indices)).lookup name =
      (t.index name).bind Index.readBack := by
  have hnames : ∀ entry ∈ d.indices.entries, entry.2.name = entry.1 := fun entry hentry =>
    index_name ((mem_entries_iff h).mp hentry)
  have hlookup := lookup_insertAll d.indices.nodupKeys hnames ∅ name
  rw [inds, hlookup, AList.lookup_empty, Option.or_none, TableRows.index, ← h.indices]
  rfl

theorem mem_metadata {field : FieldMeta} (h : field ∈ t.metadata) :
    ∃ row ∈ t.columns, ∃ offset, field = t.column row offset := by
  obtain ⟨⟨row, offset⟩, hp, rfl⟩ := List.mem_map.mp h
  exact ⟨row, List.fst_mem_of_mem_zipIdx hp, offset, rfl⟩

theorem column_mem_metadata {row : ColumnRow} (h : row ∈ t.columns) :
    ∃ offset, t.column row offset ∈ t.metadata := by
  obtain ⟨i, hi⟩ := List.getElem?_of_mem h
  exact ⟨i, List.mem_map.mpr ⟨(row, i), List.mk_mem_zipIdx_iff_getElem?.mpr hi, rfl⟩⟩

theorem primary_column {col : Str} (h : primaryOf t.indexes = some col) :
    ∃ row ∈ t.columns, row.COLUMN_NAME = col := by
  obtain ⟨row, hrow, rfl⟩ := Option.map_eq_some_iff.mp h
  exact List.mem_map.mp (t.index_columns row (List.mem_of_find?_eq_some hrow))

/-- A model with the columns of the table has its primary key on one column. -/
theorem lookup_metadata (hnames : t.Names) (htypes : ∀ row ∈ t.columns, (t.field row).cppType ≠ [])
    (hprinted : ∀ row ∈ t.columns, (t.field row).Printed) (acc : Indices) (name : Str) :
    (t.metadata.foldl addOwnIndex acc).lookup name =
      if name = PRIMARY then
        ((primaryOf t.indexes).map fun col => ⟨.INDEX_TYPE_PRI, PRIMARY, [col]⟩).or
          (acc.lookup name)
      else acc.lookup name := by
  have hown (row : ColumnRow) (hrow : row ∈ t.columns) (offset : Nat) :=
    column_index hnames hrow (htypes row hrow) (hprinted row hrow) offset
  have hpk (row : ColumnRow) :
      (t.field row).isPk = true ↔ primaryOf t.indexes = some row.COLUMN_NAME :=
    decide_eq_true_iff
  cases hprimary : primaryOf t.indexes with
  | none =>
    have hno : ∀ field ∈ t.metadata, ¬ field.hasIndex = true := by
      intro field hfield hindex
      obtain ⟨row, hrow, offset, hcolumn⟩ := mem_metadata hfield
      rw [hcolumn, (hown row hrow offset).1, hpk, hprimary] at hindex
      cases hindex
    have hlookup : ∀ field ∈ t.metadata, field.hasIndex = true →
        field.index = ⟨.INDEX_TYPE_PRI, PRIMARY, []⟩ :=
      fun field hfield hindex => absurd hindex (hno field hfield)
    have hnone : ¬ ∃ field ∈ t.metadata, field.hasIndex = true := by simpa using hno
    rw [lookup_addOwnIndex hlookup]
    simp [hnone]
  | some col =>
    have hlookup : ∀ field ∈ t.metadata, field.hasIndex = true →
        field.index = ⟨.INDEX_TYPE_PRI, PRIMARY, [col]⟩ := by
      intro field hfield hindex
      obtain ⟨row, hrow, offset, hcolumn⟩ := mem_metadata hfield
      obtain ⟨hhas, hindices⟩ := hown row hrow offset
      rw [hcolumn, hhas] at hindex
      rw [hcolumn]
      have hcol : col = row.COLUMN_NAME :=
        Option.some.inj (hprimary.symm.trans ((hpk row).mp hindex))
      rw [hcol]
      exact hindices hindex
    have hsome : ∃ field ∈ t.metadata, field.hasIndex = true := by
      obtain ⟨row, hrow, hname⟩ := primary_column hprimary
      obtain ⟨offset, hmem⟩ := column_mem_metadata hrow
      refine ⟨_, hmem, ?_⟩
      rw [(hown row hrow offset).1, hpk, hprimary, hname]
    rw [lookup_addOwnIndex hlookup]
    by_cases hname : name = PRIMARY <;> simp [hname, hsome]

theorem indexCmdsAt_eq_nil_iff {name : Str} {index index' : Index} :
    indexCmdsAt name (some index) (some index') = [] ↔ index.eq index' = true := by
  cases h : index.eq index' <;> simp [indexCmdsAt, h]

theorem single_printed_iff {name : Str} {index : Index} (hindex : t.index name = some index)
    (htype : index.type ≠ .INDEX_TYPE_UNI) {text : Str}
    (htext : ∀ col, index.columns = [col] → text = col) :
    indexCmdsAt name (some index) (some { index with columns := [text] }) = [] ↔ index.Printed := by
  have hpos : 0 < index.columns.length := List.length_pos_of_ne_nil (index_columns_ne_nil hindex)
  rw [indexCmdsAt_eq_nil_iff, Index.Printed, if_neg htype]
  constructor
  · intro h
    have hone := Index.eq_single h
    omega
  · intro h
    obtain ⟨col, hcol⟩ := List.length_eq_one_iff.mp (show index.columns.length = 1 by omega)
    have hself : ({ index with columns := [text] } : Index) = index := by
      rw [htext col hcol, ← hcol]
    rw [hself]
    exact Index.eq_self (index_columns_nodup hindex)

/-- What the model has under a name, from the index of the table. -/
def readIndex (t : TableRows) (name : Str) : Option Index :=
  let listed := (t.index name).bind Index.readBack
  if name = PRIMARY then
    ((primaryOf t.indexes).map fun col => ⟨.INDEX_TYPE_PRI, PRIMARY, [col]⟩).or listed
  else listed

/-- The index of a name gets no command if and only if the macros keep it. -/
theorem readIndex_iff (hnames : t.Names) {name : Str}
    (hunique : ∀ index, t.index name = some index → index.type = .INDEX_TYPE_UNI →
      index.columns.length ≤ 5) :
    indexCmdsAt name (t.index name) (t.readIndex name) = [] ↔
      ∀ index, t.index name = some index → index.Printed := by
  cases hindex : t.index name with
  | none =>
    have hread : t.readIndex name = none := by
      rw [readIndex, hindex]
      by_cases hprimary : name = PRIMARY
      · rw [if_pos hprimary, primaryOf_eq_head, ← hprimary, hindex]
        rfl
      · rw [if_neg hprimary]
        rfl
    rw [hread]
    simp [indexCmdsAt]
  | some index =>
    have hname := index_name hindex
    have hforall : (∀ index', some index = some index' → index'.Printed) ↔ index.Printed := by simp
    rw [hforall]
    rcases index_type hindex with ⟨hprimary, htype⟩ | ⟨hprimary, htype | htype⟩
    · obtain ⟨col, more, hcolumns⟩ := List.exists_cons_of_ne_nil (index_columns_ne_nil hindex)
      have hread : t.readIndex name = some { index with columns := [col] } := by
        rw [readIndex, if_pos hprimary, primaryOf_eq_head, ← hprimary, hindex, Option.bind_some,
          hcolumns, ← hname, ← htype]
        rfl
      have hne : index.type ≠ .INDEX_TYPE_UNI := by simp [htype]
      rw [hread]
      refine single_printed_iff hindex hne fun col' hcol => ?_
      rw [hcolumns] at hcol
      exact List.head_eq_of_cons_eq hcol
    · have hread : t.readIndex name =
          some { index with columns := [stringify (vaArgs index.columns)] } := by
        rw [readIndex, if_neg hprimary, hindex, Option.bind_some, Index.readBack, htype]
      have hne : index.type ≠ .INDEX_TYPE_UNI := by simp [htype]
      rw [hread]
      refine single_printed_iff hindex hne fun col hcol => ?_
      rw [hcol]
      exact (hnames.tidy_index hindex).columns col (by simp [hcol])
    · have hread : t.readIndex name = some index := by
        rw [readIndex, if_neg hprimary, hindex, Option.bind_some, Index.readBack, htype]
      have hle := hunique index hindex htype
      rw [hread, indexCmdsAt_eq_nil_iff, Index.Printed, if_pos htype]
      exact iff_of_true (Index.eq_self (index_columns_nodup hindex)) hle

/-! ## The model -/

section Described

variable (t : TableRows)

/-- The header can be read, and every model read from it has the columns of the table
and adds no command for the table. -/
def Described : Prop :=
  ∃ d h, loadFromDB rulesJson t.catalog t.table {} = some d ∧ ModelGen.gen t.table d = some h ∧
    (∃ m, h.Reads m) ∧ ∀ m, h.Reads m →
      m.metadata.map FieldMeta.getColumnName = t.columns.map (·.COLUMN_NAME) ∧
      ∃ prev, m.AutoMigrate rulesJson 0 none t.catalog {} = some ([], prev)

/-- The table can be told by a header. -/
structure Printed : Prop where
  names : t.Names
  members : ∀ row ∈ t.columns, row.member ≠ tablename
  types : ∀ row ∈ t.columns, (t.field row).cppType ≠ []
  columns : ∀ row ∈ t.columns, (t.field row).Printed
  indices : ∀ row ∈ t.indexes, ∀ index ∈ t.index row.INDEX_NAME, index.Printed

/-- The entries of `metadatas`, in the order of their offsets. -/
def registered : List (Str × Metadata) :=
  t.columns.zipIdx.map fun p => (ModelGen.columnLine (t.field p.1)).entry p.2

def read (d : Loaded) (table : Str) : Model :=
  Model.construct (dbToCpp t.table true) table (t.registered.filter fun it => it.1 ≠ tablename)
    (inds d)

end Described

/-- What the compiler asks of the indexes. -/
def UniqueFit (t : TableRows) : Prop :=
  ∀ name index, t.index name = some index → index.type = .INDEX_TYPE_UNI → index.columns.length ≤ 5

theorem reads_iff (h : t.After t.indexes d) (m : Model) :
    (t.header d).Reads m ↔ t.Names ∧ (∀ row ∈ t.columns, (t.field row).cppType ≠ []) ∧ t.UniqueFit ∧
      ∃ table, (table = t.table ∨ ∃ it ∈ t.registered, it.1 = tablename ∧ table = it.2.tag) ∧
        m = t.read d table := by
  have hcolumns {metadatas : List (Str × Metadata)} :
      registerColumns 0 (t.header d).columns = some metadatas ↔
        (∀ row ∈ t.columns, (t.field row).cppType ≠ []) ∧ metadatas = t.registered := by
    rw [registerColumns_eq_some_iff, header, List.zipIdx_map, List.map_map, List.forall_mem_map]
    rfl
  have hindices (hnames : t.Names) {inds' : List Index} :
      (t.header d).indices.mapM IndexLine.register = some inds' ↔ t.UniqueFit ∧ inds' = inds d := by
    have htidy : ∀ entry ∈ d.indices.entries, entry.2.Tidy := fun entry hentry =>
      hnames.tidy_index ((mem_entries_iff h).mp hentry)
    have hfit : t.UniqueFit ↔ ∀ entry ∈ d.indices.entries, entry.2.type = .INDEX_TYPE_UNI →
        entry.2.columns.length ≤ 5 :=
      ⟨fun hfit entry hentry => hfit _ _ ((mem_entries_iff h).mp hentry),
        fun hall name index hindex => hall ⟨name, index⟩ ((mem_entries_iff h).mpr hindex)⟩
    rw [header, mapM_register_iff htidy, hfit]
    rfl
  constructor
  · rintro ⟨hdeclares, hregister, hmap, htable⟩
    have hnames := (declares_iff h).mp hdeclares
    obtain ⟨htypes, rfl⟩ := hcolumns.mp hregister
    obtain ⟨hfit, rfl⟩ := (hindices hnames).mp hmap
    have htidy : stringify t.table = t.table := tidy_of_pasted hnames.table
    exact ⟨hnames, htypes, hfit, _, htable.imp_left fun heq => heq.trans htidy, rfl⟩
  · rintro ⟨hnames, htypes, hfit, table, htable, rfl⟩
    have htidy : stringify t.table = t.table := tidy_of_pasted hnames.table
    exact .intro ((declares_iff h).mpr hnames) (hcolumns.mpr ⟨htypes, rfl⟩)
      ((hindices hnames).mpr ⟨hfit, rfl⟩) (htable.imp_left fun heq => heq.trans htidy.symm)

theorem registered_member (hnames : t.Names) {it : Str × Metadata} (hit : it ∈ t.registered) :
    ∃ row ∈ t.columns, it.1 = row.member := by
  obtain ⟨⟨row, offset⟩, hp, rfl⟩ := List.mem_map.mp hit
  have hrow : row ∈ t.columns := List.fst_mem_of_mem_zipIdx hp
  exact ⟨row, hrow, hnames.stringify_member hrow⟩

theorem filter_registered (hnames : t.Names)
    (hmembers : ∀ row ∈ t.columns, row.member ≠ tablename) :
    t.registered.filter (fun it => it.1 ≠ tablename) = t.registered := by
  rw [List.filter_eq_self]
  intro it hit
  obtain ⟨row, hrow, heq⟩ := registered_member hnames hit
  simpa [heq] using hmembers row hrow

theorem columnLine_entry (row : ColumnRow) (offset : Nat) :
    (ModelGen.columnLine (t.field row)).entry offset = (stringify row.member,
      ⟨stringify (t.field row).cppType, offset, stringify (ModelGen.tags (t.field row))⟩) := rfl

theorem metadata_eq : t.metadata =
    t.registered.map fun it => (FieldMeta.ofMetadata it.1 it.2).nameIndex := by
  rw [metadata, registered, List.map_map]
  refine List.map_congr_left fun p _ => ?_
  rw [Function.comp_apply, columnLine_entry, column]

theorem read_metadata (hnames : t.Names) (hmembers : ∀ row ∈ t.columns, row.member ≠ tablename)
    (table : Str) : (t.read d table).metadata = t.metadata := by
  show (t.registered.filter fun it => it.1 ≠ tablename).map _ = t.metadata
  rw [filter_registered hnames hmembers, metadata_eq]

/-- A column whose member is called `tablename` is not among the columns of the model. -/
theorem members_of_names (hnames : t.Names) {table : Str}
    (h : (t.read d table).metadata.map FieldMeta.getColumnName = t.columns.map (·.COLUMN_NAME)) :
    ∀ row ∈ t.columns, row.member ≠ tablename := by
  have hlen := congrArg List.length h
  have hkept : (t.registered.filter fun it => it.1 ≠ tablename).length = t.registered.length := by
    simpa [read, Model.construct, registered] using hlen
  intro row hrow heq
  obtain ⟨i, hi⟩ := List.getElem?_of_mem hrow
  have hmem : (ModelGen.columnLine (t.field row)).entry i ∈ t.registered :=
    List.mem_map.mpr ⟨(row, i), List.mk_mem_zipIdx_iff_getElem?.mpr hi, rfl⟩
  have hne := (List.length_filter_eq_length_iff.mp hkept) _ hmem
  have hmember : ((ModelGen.columnLine (t.field row)).entry i).1 = tablename :=
    (hnames.stringify_member hrow).trans heq
  simp [hmember] at hne

theorem read_lookup (h : t.After t.indexes d) (hnames : t.Names)
    (hmembers : ∀ row ∈ t.columns, row.member ≠ tablename)
    (htypes : ∀ row ∈ t.columns, (t.field row).cppType ≠ [])
    (hcolumns : ∀ row ∈ t.columns, (t.field row).Printed) (table : Str) (name : Str) :
    (t.read d table).indices.lookup name = t.readIndex name := by
  have hindices : (t.read d table).indices =
      (t.read d table).metadata.foldl addOwnIndex
        ((inds d).foldl (fun indices i => indices.insert i.name i) ∅) := rfl
  rw [hindices, read_metadata hnames hmembers, lookup_metadata hnames htypes hcolumns,
    lookup_inds h,
    readIndex]

/-- The columns of the model stand in the places of those of the table. -/
theorem names_eq_iff :
    t.metadata.map FieldMeta.getColumnName = t.columns.map (·.COLUMN_NAME) ↔
      ∀ p ∈ t.columns.zipIdx, (t.column p.1 p.2).getColumnName = p.1.COLUMN_NAME := by
  have hcolumns : t.columns.map (·.COLUMN_NAME) =
      t.columns.zipIdx.map fun p => p.1.COLUMN_NAME := by
    conv_lhs => rw [← List.zipIdx_map_fst 0 t.columns, List.map_map]
    rfl
  simp only [hcolumns, metadata, List.map_map, List.map_inj_left, Function.comp_apply]

/-- No command for the columns if and only if they come through their tags. -/
theorem columns_iff (h : t.After t.indexes d) (hnames : t.Names)
    (htypes : ∀ row ∈ t.columns, (t.field row).cppType ≠ []) :
    (t.metadata.map FieldMeta.getColumnName = t.columns.map (·.COLUMN_NAME) ∧
      ∀ field ∈ t.metadata, Model.columnCmds rulesJson d field = some []) ↔
      ∀ row ∈ t.columns, (t.field row).Printed := by
  have hname (row : ColumnRow) : (t.field row).getColumnName = row.COLUMN_NAME := rfl
  rw [names_eq_iff]
  constructor
  · rintro ⟨heqs, hcmds⟩ row hrow
    obtain ⟨i, hi⟩ := List.getElem?_of_mem hrow
    have hp : (row, i) ∈ t.columns.zipIdx := List.mk_mem_zipIdx_iff_getElem?.mpr hi
    have hmem : t.column row i ∈ t.metadata := List.mem_map.mpr ⟨(row, i), hp, rfl⟩
    obtain ⟨row', hrow', heq⟩ := (columnCmds_eq_nil_iff h _).mp (hcmds _ hmem)
    have hsame : row' = row := by
      apply column_unique t.names_nodup hrow' hrow
      rw [← hname row', ← (FieldMeta.eq_true heq).1]
      exact heqs (row, i) hp
    rw [hsame] at heq
    exact (column_iff hnames hrow (htypes row hrow) i).mp heq
  · intro hprinted
    have heq (row : ColumnRow) (hrow : row ∈ t.columns) (offset : Nat) :=
      (column_iff hnames hrow (htypes row hrow) offset).mpr (hprinted row hrow)
    constructor
    · intro p hp
      exact (FieldMeta.eq_true (heq p.1 (List.fst_mem_of_mem_zipIdx hp) p.2)).1
    · intro field hfield
      obtain ⟨row, hrow, offset, hcolumn⟩ := mem_metadata hfield
      rw [hcolumn, columnCmds_eq_nil_iff h]
      exact ⟨row, hrow, heq row hrow offset⟩

theorem indices_iff (h : t.After t.indexes d) (hnames : t.Names)
    (hmembers : ∀ row ∈ t.columns, row.member ≠ tablename)
    (htypes : ∀ row ∈ t.columns, (t.field row).cppType ≠ []) (hfit : t.UniqueFit)
    (hcolumns : ∀ row ∈ t.columns, (t.field row).Printed) (table : Str) :
    (t.read d table).indexCmds d = [] ↔
      ∀ row ∈ t.indexes, ∀ index ∈ t.index row.INDEX_NAME, index.Printed := by
  rw [indexCmds_eq_nil_iff, ← forall_index_iff]
  refine forall_congr' fun name => ?_
  rw [h.indices, read_lookup h hnames hmembers htypes hcolumns]
  exact readIndex_iff hnames (hfit name)

theorem uniqueFit_of_printed
    (h : ∀ row ∈ t.indexes, ∀ index ∈ t.index row.INDEX_NAME, index.Printed) :
    t.UniqueFit := by
  intro name index hindex htype
  have hle := forall_index_iff.mpr h name index hindex
  rwa [Index.Printed, if_pos htype] at hle

theorem Described.printed (h : t.Described) : t.Printed := by
  obtain ⟨d, header, hload, hgen, ⟨m, hm⟩, hall⟩ := h
  obtain ⟨d', hload', hafter⟩ := loadFromDB_table (t := t)
  obtain rfl : d' = d := Option.some.inj (hload'.symm.trans hload)
  obtain rfl : t.header d' = header := Option.some.inj ((gen_eq hafter).symm.trans hgen)
  obtain ⟨hnames, htypes, hfit, -⟩ := (reads_iff hafter m).mp hm
  have hread : (t.header d').Reads (t.read d' t.table) :=
    (reads_iff hafter _).mpr ⟨hnames, htypes, hfit, t.table, .inl rfl, rfl⟩
  obtain ⟨heqs, hnone⟩ := hall _ hread
  have hmembers := members_of_names hnames heqs
  obtain ⟨hcmds, hindices⟩ := (autoMigrate_eq_nil_iff hafter hload rfl).mp hnone
  rw [read_metadata hnames hmembers] at heqs hcmds
  have hcolumns := (columns_iff hafter hnames htypes).mp ⟨heqs, hcmds⟩
  exact ⟨hnames, hmembers, htypes, hcolumns,
    (indices_iff hafter hnames hmembers htypes hfit hcolumns t.table).mp hindices⟩

theorem Printed.described (h : t.Printed) : t.Described := by
  obtain ⟨hnames, hmembers, htypes, hcolumns, hindices⟩ := h
  obtain ⟨d, hload, hafter⟩ := loadFromDB_table (t := t)
  have hfit : t.UniqueFit := uniqueFit_of_printed hindices
  obtain ⟨heqs, hcmds⟩ := (columns_iff hafter hnames htypes).mpr hcolumns
  have hindexCmds := (indices_iff hafter hnames hmembers htypes hfit hcolumns t.table).mpr hindices
  have hread : (t.header d).Reads (t.read d t.table) :=
    (reads_iff hafter _).mpr ⟨hnames, htypes, hfit, _, .inl rfl, rfl⟩
  refine ⟨d, t.header d, hload, gen_eq hafter, ⟨_, hread⟩, fun m hm => ?_⟩
  obtain ⟨-, -, -, table, htag, rfl⟩ := (reads_iff hafter m).mp hm
  have hown : table = t.table := by
    rcases htag with heq | ⟨it, hit, htablename, -⟩
    · exact heq
    · obtain ⟨row, hrow, hmember⟩ := registered_member hnames hit
      exact absurd (hmember.symm.trans htablename) (hmembers row hrow)
  subst hown
  have hmetadata : (t.read d t.table).metadata = t.metadata := read_metadata hnames hmembers t.table
  constructor
  · rw [hmetadata]
    exact heqs
  · rw [autoMigrate_eq_nil_iff hafter hload rfl, hmetadata]
    exact ⟨hcmds, hindexCmds⟩

theorem described_iff (t : TableRows) : t.Described ↔ t.Printed :=
  ⟨Described.printed, Printed.described⟩

def users : TableRows where
  table := "users".toList
  columns := [⟨"id".toList, "int(11)".toList, "NO".toList, [], "auto_increment".toList⟩,
    ⟨"user_name".toList, "varchar(20)".toList, "YES".toList, "none".toList, []⟩]
  indexes := [⟨PRIMARY, 0, "id".toList⟩, ⟨"uni_name".toList, 0, "user_name".toList⟩,
    ⟨"uni_name".toList, 0, "id".toList⟩]
  some_column := by decide
  names_nodup := by decide
  types_tidy := by decide
  index_columns := by decide
  indexes_nodup := by decide

example : users.Described :=
  Printed.described
    { names := ⟨by decide, by decide, by decide, by decide, by decide⟩
      members := by decide
      types := by decide
      columns := by decide
      indices := by decide }

/-- The type of the only column has a comma. -/
def item : TableRows where
  table := "item".toList
  columns := [⟨"price".toList, "decimal(10,2)".toList, "NO".toList, [], []⟩]
  indexes := []
  some_column := by decide
  names_nodup := by decide
  types_tidy := by decide
  index_columns := by decide
  indexes_nodup := by decide

/-- Its type is read back as `decimal(10`, and `2)` as an extra. -/
theorem item_changed :
    (∀ row ∈ item.columns, dbTypeToCppType rulesJson row.COLUMN_TYPE ≠ []) ∧
      (∃ d h m prev, loadFromDB rulesJson item.catalog item.table {} = some d ∧
        ModelGen.gen item.table d = some h ∧ h.Reads m ∧
        m.AutoMigrate rulesJson 0 none item.catalog {} =
          some ([⟨"price".toList, .MIGACTION_CHANGE_COLUMN, []⟩], prev)) ∧
      ¬ item.Described := by
  have hload : loadFromDB rulesJson item.catalog item.table {} = some item.start := rfl
  have hnames : item.Names :=
    ⟨by decide, by decide, by decide, by decide, by decide⟩
  have htypes : ∀ row ∈ item.columns, (item.field row).cppType ≠ [] := by decide
  have hfit : item.UniqueFit := fun name index hindex =>
    absurd hindex (by simp [TableRows.index, indexOf, item])
  have hread : (item.header item.start).Reads (item.read item.start item.table) :=
    (reads_iff After.nil _).mpr ⟨hnames, htypes, hfit, item.table, .inl rfl, rfl⟩
  have hcmds : ((item.read item.start item.table).AutoMigrate rulesJson 0 none item.catalog {}).map
      (·.1) = some [⟨"price".toList, .MIGACTION_CHANGE_COLUMN, []⟩] := by decide +kernel
  obtain ⟨⟨cmds, prev⟩, hrun, rfl⟩ := Option.map_eq_some_iff.mp hcmds
  refine ⟨by decide, ⟨_, _, _, prev, hload, gen_eq After.nil, hread, hrun⟩, ?_⟩
  rintro ⟨d, header, hload', hgen, -, hall⟩
  obtain rfl : item.start = d := Option.some.inj (hload.symm.trans hload')
  obtain rfl : item.header item.start = header :=
    Option.some.inj ((gen_eq After.nil).symm.trans hgen)
  obtain ⟨-, prev', hnone⟩ := hall _ hread
  rw [hrun] at hnone
  cases hnone

end TableRows

end TinyOrm
