import TinyOrm.DataFileWriter
set_option autoImplicit false

/-!
What the state machine of `loadFromFile` does on the records of the writer.
-/

namespace TinyOrm

open InStream

/-! ## Parse functions on written records -/

theorem readFresh_at {ifs : InStream Char} {c : Char} {rest : Str} (h : ifs.At (c :: rest)) :
    ∃ ifs', readFresh ifs = some (c, ifs') ∧ ifs'.At rest := by
  refine ⟨ifs.advance 1, ?_, at_advance (a := [c]) h⟩
  rw [readFresh, read_one h]

theorem readChar_at {ifs : InStream Char} {c : Char} {rest : Str} (h : ifs.At (c :: rest))
    (old : Char) : ∃ ifs', readChar ifs old = (c, ifs') ∧ ifs'.At rest := by
  refine ⟨ifs.advance 1, ?_, at_advance (a := [c]) h⟩
  rw [readChar, read_one h]

theorem ofStream_at {ifs : InStream Char} {s rest : Str} (h : ifs.At (s ++ rest)) :
    ∃ ifs', ByteArray.ofStream ifs s.length = some (s, ifs') ∧ ifs'.At rest := by
  refine ⟨ifs.advance s.length, ?_, at_advance h⟩
  have hread := read_append h
  simp [ByteArray.ofStream, ByteArray.alloc_nat, ByteArray.partly, hread]

theorem ofStream_byte {ifs : InStream Char} {s rest : Str} (h : ifs.At (s ++ rest))
    (hlen : s.length ≤ 127) :
    ∃ ifs', ByteArray.ofStream ifs (schar (byte s.length)) = some (s, ifs') ∧ ifs'.At rest := by
  rw [schar_byte hlen]
  exact ofStream_at h

theorem split_combined {p1 p2 : Str} (h1 : NameOk p1) (h2 : NameOk p2) :
    Util.split (combined p1 p2) ['|'] = [p1, p2] := by
  have hparts : ∀ part ∈ [p1, p2], part ≠ [] ∧ Util.SepFree ['|'] part := by
    intro part hp
    have hok : NameOk part := by
      simp only [List.mem_cons, List.not_mem_nil, or_false] at hp
      rcases hp with rfl | rfl
      · exact h1
      · exact h2
    refine ⟨hok.1, fun c hc hsep => ?_⟩
    simp only [List.mem_singleton] at hsep
    exact hok.2 (hsep ▸ hc)
  have h := @Util.split_join ['|'] '|' (by simp) [p1, p2] hparts
  simpa [Util.join, combined] using h

theorem read_combined_at {ifs : InStream Char} {p1 p2 rest : Str} (h1 : NameOk p1)
    (h2 : NameOk p2) (hlen : (combined p1 p2).length ≤ 127)
    (h : ifs.At (combined p1 p2 ++ rest)) :
    ∃ ifs', read_combined ifs (byte (combined p1 p2).length) ['|'] = some (p1, p2, ifs') ∧
      ifs'.At rest := by
  obtain ⟨ifs', hread, hat⟩ := ofStream_byte h hlen
  refine ⟨ifs', ?_, hat⟩
  rw [read_combined, hread]
  simp only [Option.bind_eq_bind, Option.bind_some, split_combined h1 h2, Option.pure_def]

theorem readOptional_at {ifs : InStream Char} {s rest : Str} (hlen : s.length ≤ 127)
    (h : ifs.At (s ++ rest)) :
    ∃ ifs', readOptional ifs (byte s.length) [] = some (s, ifs') ∧ ifs'.At rest := by
  cases s with
  | nil =>
    refine ⟨ifs, ?_, h⟩
    simp [readOptional, schar_byte]
  | cons c cs =>
    obtain ⟨ifs', hread, hat⟩ := ofStream_byte h hlen
    refine ⟨ifs', ?_, hat⟩
    have hpos : schar (byte (c :: cs).length) > 0 := by
      rw [schar_byte hlen]
      simp only [List.length_cons]
      omega
    rw [readOptional, if_pos hpos, hread]

theorem parseHeader_at {ifs : InStream Char} {className tableName rest : Str} {len : Nat}
    (hc : NameOk className) (ht : NameOk tableName) (hlen : len ≤ 32767)
    (hh : 2 + 2 + className.length + tableName.length + 1 ≤ 127) (header : Header)
    (h : ifs.At (shortBytes len ++
      charByte (toChar (2 + 2 + className.length + tableName.length + 1)) ::
      lengthPrefixed (combined tableName className) ++ rest)) :
    ∃ header' ifs', parseHeader ifs header = some (header', ifs') ∧ ifs'.At rest ∧
      header'.model_len = len ∧ header'.className = className ∧
      header'.tableName = tableName := by
  obtain ⟨lo, hi, hbytes, hshort⟩ := shortOfBytes_shortBytes hlen
  simp only [hbytes, List.cons_append, List.nil_append] at h
  have hread := read_append (a := [lo, hi]) h
  have h1 := at_advance (a := [lo, hi]) h
  obtain ⟨ifs2, hr2, h2⟩ := readChar_at h1 (charByte header.header_len)
  simp only [lengthPrefixed, List.cons_append] at h2
  obtain ⟨ifs3, hr3, h3⟩ := readFresh_at h2
  obtain ⟨ifs4, hr4, h4⟩ := read_combined_at ht hc (by simp [combined]; omega) h3
  have hread2 : ifs.read 2 = ([lo, hi], ifs.advance [lo, hi].length) := hread
  have hparse : parseHeader ifs header = some (⟨shortOfBytes lo hi, schar (charByte (toChar
      (2 + 2 + className.length + tableName.length + 1))), className, tableName⟩, ifs4) := by
    simp only [parseHeader, hread2, hr2, hr3, hr4, Option.bind_eq_bind, Option.bind_some,
      Option.pure_def]
  exact ⟨_, ifs4, hparse, h4, by simp only [hshort], rfl, rfl⟩

theorem flagBit_columnFlags (isPk autoInc hasIndex notNull : Bool) :
    flagBit (byte (columnFlags isPk autoInc hasIndex notNull)) 3 = isPk ∧
      flagBit (byte (columnFlags isPk autoInc hasIndex notNull)) 2 = autoInc ∧
      flagBit (byte (columnFlags isPk autoInc hasIndex notNull)) 1 = hasIndex ∧
      flagBit (byte (columnFlags isPk autoInc hasIndex notNull)) 0 = notNull := by
  simp only [flagBit, uchar_byte]
  cases isPk <;> cases autoInc <;> cases hasIndex <;> cases notNull <;> decide

/-- The description a column is read back as: its effective name and type, and
nothing of what the file does not hold. -/
def FieldMeta.stored (conf : Config) (field : FieldMeta) : FieldMeta where
  fieldName := field.fieldName
  cppType := field.cppType
  columnType := some (field.getColumnType conf)
  columnName := some field.getColumnName
  extra := field.extra
  isPk := field.isPk
  autoInc := field.autoInc
  hasIndex := field.hasIndex
  notNull := field.notNull
  default_ := field.default_

/-- The reused variable holds nothing of an earlier record that a later record
could take over. -/
structure FieldMeta.Blank (field : FieldMeta) : Prop where
  default_ : field.default_ = []
  extra : field.extra = []
  index : field.index = ⟨.INDEX_TYPE_UNI, [], []⟩
  offset : field.offset = 0
  ignore : field.ignore = false

theorem parseColumnField_at {conf : Config} {field fieldMeta : FieldMeta}
    (hok : ColumnOk conf field) (hblank : fieldMeta.Blank) {ifs : InStream Char} {rest : Str}
    (h : (ifs.At ((columnBytes conf field).tail ++ rest))) :
    ∃ ifs', parseColumnField ifs fieldMeta = some (field.stored conf, ifs') ∧ ifs'.At rest := by
  simp only [columnBytes, lengthPrefixed, List.cons_append, List.append_assoc,
    List.tail_cons] at h
  obtain ⟨ifs1, hr1, h1⟩ := readFresh_at h
  obtain ⟨ifs2, hr2, h2⟩ := read_combined_at hok.columnName hok.fieldName hok.id_len h1
  obtain ⟨ifs3, hr3, h3⟩ :=
    readChar_at h2 (byte (combined field.getColumnName field.fieldName).length)
  obtain ⟨ifs4, hr4, h4⟩ := read_combined_at hok.columnType hok.cppType hok.type_len h3
  obtain ⟨ifs5, hr5, h5⟩ := readFresh_at h4
  obtain ⟨ifs6, hr6, h6⟩ := readChar_at h5
    (byte (combined (field.getColumnType conf) field.cppType).length)
  obtain ⟨ifs7, hr7, h7⟩ := readOptional_at hok.default_len h6
  obtain ⟨ifs8, hr8, h8⟩ := readChar_at h7 (byte field.default_.length)
  obtain ⟨ifs9, hr9, h9⟩ := readOptional_at hok.extra_len h8
  obtain ⟨hpk, hinc, hidx, hnull⟩ :=
    flagBit_columnFlags field.isPk field.autoInc field.hasIndex field.notNull
  refine ⟨ifs9, ?_, h9⟩
  simp only [parseColumnField, hr1, hr2, hr3, hr4, hr5, hr6, hblank.default_, hr7, hr8,
    hblank.extra, hr9, Option.bind_eq_bind, Option.bind_some, Option.pure_def, hpk, hinc, hidx,
    hnull, hblank.index, hblank.offset, hblank.ignore]
  rfl

theorem parseIndexField_at {index : Index} (hok : IndexOk index) {ifs : InStream Char}
    {rest : Str} (h : ifs.At ((indexBytes index).tail ++ rest)) :
    ∃ ifs', parseIndexField ifs = some (index, ifs') ∧ ifs'.At rest := by
  have hlen := hok.len
  rw [indexBytes_length] at hlen
  simp only [indexBytes, lengthPrefixed, List.cons_append, List.append_assoc,
    List.tail_cons] at h
  obtain ⟨ifs1, hr1, h1⟩ := readFresh_at h
  obtain ⟨ifs2, hr2, h2⟩ := readFresh_at h1
  obtain ⟨ifs3, hr3, h3⟩ := ofStream_byte h2 (by omega)
  obtain ⟨ifs4, hr4, h4⟩ := readChar_at h3 (byte index.name.length)
  obtain ⟨ifs5, hr5, h5⟩ := ofStream_byte h4 (by omega)
  have htype : IndexType.ofCode (schar (charByte (toChar index.type.code))) = index.type := by
    have hdeclared := hok.type
    cases hcode : index.type with
    | other code => simp [hcode, IndexType.Declared] at hdeclared
    | _ => decide
  have hcols : Util.split (Util.join '|' index.columns) ['|'] = index.columns := by
    apply Util.split_join (by simp)
    intro col hcol
    refine ⟨(hok.columns col hcol).1, fun c hc hsep => ?_⟩
    simp only [List.mem_singleton] at hsep
    exact (hok.columns col hcol).2 (hsep ▸ hc)
  refine ⟨ifs5, ?_, h5⟩
  simp only [parseIndexField, hr1, hr2, hr3, hr4, hr5, Option.bind_eq_bind, Option.bind_some,
    Option.pure_def, htype, hcols]

/-! ## One record, two passes -/

namespace LoadState

abbrev Reaches (className : Str) : LoadState → LoadState → Prop :=
  Loop.Reaches (step className) Ended

/-- The loop is about to read a marker, with `rest` before it. -/
structure Ready (s : LoadState) (rest : Str) (found : Bool) (out : Loaded) : Prop where
  state_eq : s.state = .PARSE_MARKER
  ifs_at : s.ifs.At rest
  found_eq : s.found = found
  out_eq : s.out = out
  columnIndex_eq : s.columnIndex = out.fields.length
  blank : s.fieldMeta.Blank

theorem ready_initial (file : Str) :
    Ready { ifs := InStream.ofList file, out := {} } file false {} :=
  ⟨rfl, at_ofList file, rfl, rfl, rfl, ⟨rfl, rfl, rfl, rfl, rfl⟩⟩

theorem blank_movedFrom {field : FieldMeta} (hindex : field.index = ⟨.INDEX_TYPE_UNI, [], []⟩)
    (hoffset : field.offset = 0) (hignore : field.ignore = false) : field.movedFrom.Blank := by
  refine ⟨rfl, rfl, ?_, hoffset, hignore⟩
  simp [FieldMeta.movedFrom, hindex]

/-- The pass that reads the marker of a record. -/
theorem reaches_marker (className : Str) {s : LoadState} {n : Nat} (hn : n < 256) (body : Str)
    {found : Bool} {out : Loaded} (h : s.Ready (byte n :: body) found out) :
    ∃ ifs, ifs.At body ∧
      Reaches className s { s with ifs := ifs, marker := n, state := .PARSE_FIELD } := by
  refine ⟨s.ifs.advance 1, at_advance (a := [byte n]) h.ifs_at, Loop.Reaches.of_step ?_ ?_⟩
  · simp [Ended, h.state_eq]
  · have hmod : n % 256 = n := Nat.mod_eq_of_lt hn
    simp [step, h.state_eq, parseMarker, read_one h.ifs_at, uchar_byte, hmod]

theorem reaches_field (className : Str) {s s' : LoadState} (hs : s.state = .PARSE_FIELD)
    (h : s.parseField className = some s') : Reaches className s s' := by
  apply Loop.Reaches.of_step
  · simp [Ended, hs]
  · simp [step, hs, h]

def addColumn (conf : Config) (out : Loaded) (field : FieldMeta) : Loaded :=
  { out with
    nameToIndex := out.nameToIndex.insert field.getColumnName out.fields.length
    fields := out.fields ++ [field.stored conf] }

def addIndex (out : Loaded) (index : Index) : Loaded :=
  { out with indices := out.indices.insert index.name index }

theorem reaches_column {conf : Config} (className : Str) {field : FieldMeta}
    (hok : ColumnOk conf field) {s : LoadState} {rest : Str} {found : Bool} {out : Loaded}
    (h : s.Ready (columnBytes conf field ++ rest) found out) :
    ∃ s', Reaches className s s' ∧ s'.Ready rest found (addColumn conf out field) := by
  obtain ⟨ifs, hat, hmarker⟩ := reaches_marker className (n := COLUMN_MARKER) (by decide)
    ((columnBytes conf field).tail ++ rest) h
  obtain ⟨ifs', hparse, hat'⟩ := parseColumnField_at hok h.blank hat
  refine ⟨{ s with
    ifs := ifs', marker := COLUMN_MARKER, fieldMeta := (field.stored conf).movedFrom,
    columnIndex := s.columnIndex + 1, state := .PARSE_MARKER, out := addColumn conf out field },
    hmarker.trans (reaches_field className rfl ?_), ?_⟩
  · have hne : COLUMN_MARKER ≠ HEADER_MARKER := by decide
    simp [parseField, hne, onColumn, hparse, h.out_eq, h.columnIndex_eq, addColumn,
      FieldMeta.stored]
  · refine ⟨rfl, hat', h.found_eq, rfl, ?_, blank_movedFrom rfl rfl rfl⟩
    simp [addColumn, h.columnIndex_eq]

theorem reaches_index (className : Str) {index : Index} (hok : IndexOk index) {s : LoadState}
    {rest : Str} {found : Bool} {out : Loaded}
    (h : s.Ready (indexBytes index ++ rest) found out) :
    ∃ s', Reaches className s s' ∧ s'.Ready rest found (addIndex out index) := by
  obtain ⟨ifs, hat, hmarker⟩ := reaches_marker className (n := INDEX_MARKER) (by decide)
    ((indexBytes index).tail ++ rest) h
  obtain ⟨ifs', hparse, hat'⟩ := parseIndexField_at hok hat
  refine ⟨{ s with
    ifs := ifs', marker := INDEX_MARKER, index := index, state := .PARSE_MARKER,
    out := addIndex out index }, hmarker.trans (reaches_field className rfl ?_), ?_⟩
  · have hne1 : INDEX_MARKER ≠ HEADER_MARKER := by decide
    have hne2 : INDEX_MARKER ≠ COLUMN_MARKER := by decide
    simp [parseField, hne1, hne2, onIndex, hparse, h.out_eq, addIndex]
  · exact ⟨rfl, hat', h.found_eq, rfl, h.columnIndex_eq, h.blank⟩

/-- The header of another class: the body is skipped by its stored length. -/
theorem reaches_other {conf : Config} {m : SavedModel} (hm : m.Storable conf) {className : Str}
    (hne : m.className ≠ className) {s : LoadState} {rest : Str} {out : Loaded}
    (h : s.Ready (m.bytes conf ++ rest) false out) :
    ∃ s', Reaches className s s' ∧ s'.Ready rest false out := by
  simp only [SavedModel.bytes, headerBytes, List.cons_append, List.append_assoc] at h
  obtain ⟨ifs, hat, hmarker⟩ := reaches_marker className (n := HEADER_MARKER) (by decide) _ h
  obtain ⟨header, ifs', hparse, hat', hlen, hclass, -⟩ :=
    parseHeader_at hm.className hm.tableName hm.body_len hm.header_len s.header
      (by simpa only [List.cons_append, List.append_assoc] using hat)
  refine ⟨{ s with
    ifs := ifs'.seekCur header.model_len, marker := HEADER_MARKER, header := header,
    state := .PARSE_MARKER }, hmarker.trans (reaches_field className rfl ?_), ?_⟩
  · have hskip : header.className ≠ className := by rw [hclass]; exact hne
    simp [parseField, onHeader, h.found_eq, hparse, hskip]
  · refine ⟨rfl, ?_, h.found_eq, h.out_eq, h.columnIndex_eq, h.blank⟩
    simp only [hlen]
    rw [seekCur_append hat']
    exact at_advance hat'

/-- The header of the class that is looked for. -/
theorem reaches_own {conf : Config} {m : SavedModel} (hm : m.Storable conf) {s : LoadState}
    {rest : Str} {out : Loaded} (h : s.Ready (m.bytes conf ++ rest) false out) :
    ∃ s', Reaches m.className s s' ∧
      s'.Ready (bodyBytes conf m.fields m.indexList ++ rest) true
        { out with tableName := m.tableName } := by
  simp only [SavedModel.bytes, headerBytes, List.cons_append, List.append_assoc] at h
  obtain ⟨ifs, hat, hmarker⟩ := reaches_marker m.className (n := HEADER_MARKER) (by decide) _ h
  obtain ⟨header, ifs', hparse, hat', -, hclass, htable⟩ :=
    parseHeader_at hm.className hm.tableName hm.body_len hm.header_len s.header
      (by simpa only [List.cons_append, List.append_assoc] using hat)
  refine ⟨{ s with
    ifs := ifs', marker := HEADER_MARKER, header := header, found := true,
    state := .PARSE_MARKER, out := { out with tableName := m.tableName } },
    hmarker.trans (reaches_field m.className rfl ?_), ?_⟩
  · simp [parseField, onHeader, h.found_eq, hparse, hclass, htable, h.out_eq]
  · exact ⟨rfl, hat', rfl, rfl, h.columnIndex_eq, h.blank⟩

/-- At the end of the file, or before the next header once the class is found,
the loop ends with what it has. -/
theorem reaches_end (className : Str) {s : LoadState} {out : Loaded} {found : Bool}
    (h : s.Ready [] found out) : ∃ s', Reaches className s s' ∧ s'.Ended ∧ s'.out = out := by
  have hread := read_end (n := 1) h.ifs_at
  have hmarker : s.parseMarker = { s with ifs := (s.ifs.read 1).2, state := .PARSE_SUCCESS } := by
    unfold parseMarker
    split
    · rename_i c got ifs heq
      simp [heq] at hread
    · rename_i ifs heq
      simp [heq]
  refine ⟨s.parseMarker, Loop.Reaches.of_step ?_ ?_, ?_, ?_⟩
  · simp [Ended, h.state_eq]
  · simp [step, h.state_eq]
  · exact Or.inl (by rw [hmarker])
  · rw [hmarker]
    exact h.out_eq

theorem reaches_next_header {conf : Config} {m : SavedModel} (className : Str) {s : LoadState}
    {rest : Str} {out : Loaded} (h : s.Ready (m.bytes conf ++ rest) true out) :
    ∃ s', Reaches className s s' ∧ s'.Ended ∧ s'.out = out := by
  simp only [SavedModel.bytes, headerBytes, List.cons_append, List.append_assoc] at h
  obtain ⟨ifs, -, hmarker⟩ := reaches_marker className (n := HEADER_MARKER) (by decide) _ h
  refine ⟨{ s with ifs := ifs, marker := HEADER_MARKER, state := .PARSE_SUCCESS },
    hmarker.trans (reaches_field className rfl ?_), Or.inl rfl, h.out_eq⟩
  simp [parseField, onHeader, h.found_eq]

/-! ## Runs over the bodies and the models of a file -/

/-- What is written one after another is read one after another. -/
theorem reaches_all {α : Type} (className : Str) {bytes : α → Str} {add : Loaded → α → Loaded}
    {found : Bool} {xs : List α}
    (hone : ∀ x ∈ xs, ∀ {s : LoadState} {rest : Str} {out : Loaded},
      s.Ready (bytes x ++ rest) found out →
        ∃ s', Reaches className s s' ∧ s'.Ready rest found (add out x))
    {s : LoadState} {rest : Str} {out : Loaded} (h : s.Ready (xs.flatMap bytes ++ rest) found out) :
    ∃ s', Reaches className s s' ∧ s'.Ready rest found (xs.foldl add out) := by
  induction xs generalizing s out with
  | nil => exact ⟨s, Loop.Reaches.refl s, h⟩
  | cons x xs ih =>
    simp only [List.flatMap_cons, List.append_assoc] at h
    obtain ⟨s₁, h₁, hready₁⟩ := hone x (by simp) h
    obtain ⟨s₂, h₂, hready₂⟩ := ih (fun y hy => hone y (by simp [hy])) hready₁
    exact ⟨s₂, h₁.trans h₂, hready₂⟩

/-- What the records of one model make of empty outputs. -/
def loadedOf (conf : Config) (m : SavedModel) : Loaded :=
  m.indexList.foldl addIndex (m.fields.foldl (addColumn conf) { tableName := m.tableName })

/-- The file of the models one after another. -/
def fileBytes (conf : Config) (models : List SavedModel) : Str :=
  models.flatMap (SavedModel.bytes conf)

theorem reaches_found_end {conf : Config} (className : Str) (models : List SavedModel)
    {s : LoadState} {out : Loaded} (h : s.Ready (fileBytes conf models) true out) :
    ∃ s', Reaches className s s' ∧ s'.Ended ∧ s'.out = out := by
  cases models with
  | nil => exact reaches_end className h
  | cons m models => exact reaches_next_header className h

/-- The first model of the class decides what is loaded. -/
theorem reaches_result {conf : Config} (className : Str) (models : List SavedModel)
    (hok : ∀ m ∈ models, m.Storable conf) {s : LoadState}
    (h : s.Ready (fileBytes conf models) false {}) :
    ∃ s', Reaches className s s' ∧ s'.Ended ∧
      s'.out = ((models.find? (·.className = className)).map (loadedOf conf)).getD {} := by
  induction models generalizing s with
  | nil => exact reaches_end className h
  | cons m models ih =>
    have hm := hok m (by simp)
    simp only [fileBytes, List.flatMap_cons] at h
    by_cases hclass : m.className = className
    · subst hclass
      obtain ⟨s₁, h₁, hready₁⟩ := reaches_own hm h
      simp only [bodyBytes, List.append_assoc] at hready₁
      obtain ⟨s₂, h₂, hready₂⟩ := reaches_all m.className
        (fun field hfield => reaches_column m.className (hm.columns field hfield)) hready₁
      obtain ⟨s₃, h₃, hready₃⟩ := reaches_all m.className
        (fun index hindex => reaches_index m.className (hm.indexes index hindex)) hready₂
      obtain ⟨s₄, h₄, hended, hout⟩ := reaches_found_end m.className models hready₃
      refine ⟨s₄, ((h₁.trans h₂).trans h₃).trans h₄, hended, ?_⟩
      simp [hout, loadedOf]
    · obtain ⟨s₁, h₁, hready₁⟩ := reaches_other hm hclass h
      obtain ⟨s₂, h₂, hended, hout⟩ := ih (fun m' hm' => hok m' (by simp [hm'])) hready₁
      refine ⟨s₂, h₁.trans h₂, hended, ?_⟩
      simp [hout, hclass]

end LoadState

end TinyOrm
