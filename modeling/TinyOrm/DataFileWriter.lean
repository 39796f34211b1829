import TinyOrm.DataLoader
set_option autoImplicit false

/-!
What the writers put into the file when every length fits its field.
-/

namespace TinyOrm

/-! ## Filling a ByteArray -/

namespace ByteArray

/-- The state after `done` has been filled in and `n` bytes are left. -/
def partly (done : Str) (n : Nat) : ByteArray :=
  ⟨done ++ List.replicate n (byte 0), done.length⟩

theorem alloc_nat (n : Nat) : alloc n = some (partly [] n) := by
  have hn : ¬ (n : Int) < 0 := by omega
  simp [alloc, hn, partly]

theorem fill_partly (done data : Str) {n : Nat} (h : data.length ≤ n) :
    (partly done n).fill data = partly (done ++ data) (n - data.length) := by
  have hle : ¬ done.length + data.length > done.length + n := by omega
  have hdrop : done.length + data.length - done.length = data.length := by omega
  simp [fill, partly, hle, List.drop_append, hdrop]

theorem fillChar_partly (done : Str) (val : Char) {n : Nat} (h : 1 ≤ n) :
    (partly done n).fillChar val = partly (done ++ [val]) (n - 1) := by
  have hlt : (partly done n).wp < (partly done n).buf.length := by
    simp [partly]
    omega
  rw [fillChar, if_pos hlt]
  exact fill_partly done [val] h

theorem buf_partly (done : Str) {n : Nat} (h : n = 0) : (partly done n).buf = done := by
  simp [partly, h]

end ByteArray

theorem toShort_of_le {n : Nat} (h : n ≤ 32767) : toShort n = n := by
  unfold toShort
  rw [Int.bmod_eq_of_le] <;> omega

theorem toChar_of_le {n : Nat} (h : n ≤ 127) : toChar n = n := by
  unfold toChar
  rw [Int.bmod_eq_of_le] <;> omega

theorem shortOfBytes_shortBytes {n : Nat} (h : n ≤ 32767) :
    ∃ lo hi, shortBytes n = [lo, hi] ∧ shortOfBytes lo hi = n := by
  refine ⟨byte n, byte (n / 256), ?_, ?_⟩
  · have hmod : ((n : Int) % 2 ^ 16).toNat = n := by omega
    simp only [shortBytes, hmod]
  · have hsum : (((n % 256 : Nat) : Int) + 256 * ((n / 256 % 256 : Nat) : Int)) = (n : Int) := by
      omega
    simp only [shortOfBytes, uchar_byte, hsum]
    exact toShort_of_le h

/-! ## Records as byte strings -/

/-- Two names in one string. -/
def combined (p1 p2 : Str) : Str := p1 ++ ['|'] ++ p2

/-- A length byte and the string it counts. -/
def lengthPrefixed (s : Str) : Str := byte s.length :: s

def headerBytes (className tableName : Str) (model_len : Nat) : Str :=
  byte HEADER_MARKER :: shortBytes model_len ++
    charByte (toChar (2 + 2 + className.length + tableName.length + 1)) ::
    lengthPrefixed (combined tableName className)

def columnBytes (conf : Config) (field : FieldMeta) : Str :=
  byte COLUMN_MARKER :: lengthPrefixed (combined field.getColumnName field.fieldName) ++
    lengthPrefixed (combined (field.getColumnType conf) field.cppType) ++
    byte (columnFlags field.isPk field.autoInc field.hasIndex field.notNull) ::
    lengthPrefixed field.default_ ++ lengthPrefixed field.extra

def indexBytes (index : Index) : Str :=
  byte INDEX_MARKER :: charByte (toChar index.type.code) ::
    lengthPrefixed index.name ++ lengthPrefixed (Util.join '|' index.columns)

/-! ## Storable models -/

/-- A name that can be half of a combined string. -/
def NameOk (name : Str) : Prop := name ≠ [] ∧ '|' ∉ name

instance (name : Str) : Decidable (NameOk name) := inferInstanceAs (Decidable (_ ∧ _))

structure ColumnOk (conf : Config) (field : FieldMeta) : Prop where
  columnName : NameOk field.getColumnName
  fieldName : NameOk field.fieldName
  columnType : NameOk (field.getColumnType conf)
  cppType : NameOk field.cppType
  id_len : (combined field.getColumnName field.fieldName).length ≤ 127
  type_len : (combined (field.getColumnType conf) field.cppType).length ≤ 127
  default_len : field.default_.length ≤ 127
  extra_len : field.extra.length ≤ 127

instance (conf : Config) (field : FieldMeta) : Decidable (ColumnOk conf field) :=
  decidable_of_iff
    ((NameOk field.getColumnName ∧ NameOk field.fieldName ∧ NameOk (field.getColumnType conf) ∧
      NameOk field.cppType) ∧ (combined field.getColumnName field.fieldName).length ≤ 127 ∧
      (combined (field.getColumnType conf) field.cppType).length ≤ 127 ∧
      field.default_.length ≤ 127 ∧ field.extra.length ≤ 127)
    ⟨fun ⟨⟨h1, h2, h3, h4⟩, h5, h6, h7, h8⟩ => ⟨h1, h2, h3, h4, h5, h6, h7, h8⟩,
     fun ⟨h1, h2, h3, h4, h5, h6, h7, h8⟩ => ⟨⟨h1, h2, h3, h4⟩, h5, h6, h7, h8⟩⟩

structure IndexOk (index : Index) : Prop where
  type : index.type.Declared
  columns : ∀ col ∈ index.columns, NameOk col
  len : (indexBytes index).length ≤ 127

instance (index : Index) : Decidable (IndexOk index) :=
  decidable_of_iff
    (index.type.Declared ∧ (∀ col ∈ index.columns, NameOk col) ∧ (indexBytes index).length ≤ 127)
    ⟨fun ⟨h1, h2, h3⟩ => ⟨h1, h2, h3⟩, fun ⟨h1, h2, h3⟩ => ⟨h1, h2, h3⟩⟩

def bodyBytes (conf : Config) (fields : List FieldMeta) (indices : List Index) : Str :=
  fields.flatMap (columnBytes conf) ++ indices.flatMap indexBytes

/-- What `Model::saveModel` passes to `DataLoader::saveModel`. -/
structure SavedModel where
  className : Str
  tableName : Str
  fields : List FieldMeta
  indices : Indices

def SavedModel.indexList (m : SavedModel) : List Index := m.indices.entries.map Sigma.snd

def SavedModel.save (conf : Config) (m : SavedModel) : Option Str :=
  saveModel conf m.fields m.indices (Header.make m.className m.tableName)

structure SavedModel.Storable (conf : Config) (m : SavedModel) : Prop where
  className : NameOk m.className
  tableName : NameOk m.tableName
  columns : ∀ field ∈ m.fields, ColumnOk conf field
  distinct : (m.fields.map FieldMeta.getColumnName).Nodup
  indexes : ∀ index ∈ m.indexList, IndexOk index
  ownName : ∀ entry ∈ m.indices.entries, entry.2.name = entry.1
  header_len : 2 + 2 + m.className.length + m.tableName.length + 1 ≤ 127
  body_len : (bodyBytes conf m.fields m.indexList).length ≤ 32767

instance (conf : Config) (m : SavedModel) : Decidable (m.Storable conf) :=
  decidable_of_iff
    ((NameOk m.className ∧ NameOk m.tableName) ∧ (∀ field ∈ m.fields, ColumnOk conf field) ∧
      (m.fields.map FieldMeta.getColumnName).Nodup ∧ (∀ index ∈ m.indexList, IndexOk index) ∧
      (∀ entry ∈ m.indices.entries, entry.2.name = entry.1) ∧
      2 + 2 + m.className.length + m.tableName.length + 1 ≤ 127 ∧
      (bodyBytes conf m.fields m.indexList).length ≤ 32767)
    ⟨fun ⟨⟨h1, h2⟩, h3, h4, h5, h6, h7, h8⟩ => ⟨h1, h2, h3, h4, h5, h6, h7, h8⟩,
     fun ⟨h1, h2, h3, h4, h5, h6, h7, h8⟩ => ⟨⟨h1, h2⟩, h3, h4, h5, h6, h7, h8⟩⟩

def SavedModel.bytes (conf : Config) (m : SavedModel) : Str :=
  headerBytes m.className m.tableName (bodyBytes conf m.fields m.indexList).length ++
    bodyBytes conf m.fields m.indexList

/-! ## toByteArray -/

theorem Header.toByteArray_eq (header : Header) {len n : Nat} (hlen : header.model_len = len)
    (hn : n = header.className.length + header.tableName.length) (hle : n + 5 ≤ 127)
    (hheader : header.header_len = ((n + 5 : Nat) : Int)) :
    ∃ arr, header.toByteArray = some arr ∧
      arr.buf = headerBytes header.className header.tableName len := by
  have hsize : header.header_len + 1 = ((n + 6 : Nat) : Int) := by omega
  have hshort : (shortBytes header.model_len).length = 2 := rfl
  have hbar : (['|'] : Str).length = 1 := rfl
  have harr := ByteArray.alloc_nat (n + 6)
  rw [← hsize] at harr
  rw [Header.toByteArray, harr]
  simp (disch := omega) only [Option.bind_eq_bind, Option.bind_some, ByteArray.fillChar_partly,
    ByteArray.fill_partly, Option.pure_def]
  refine ⟨_, rfl, ?_⟩
  have hchar : toChar (2 + 2 + header.className.length + header.tableName.length + 1) =
      ((n + 5 : Nat) : Int) := by
    rw [← toChar_of_le hle]
    congr 1
    omega
  have hcombined : header.className.length + header.tableName.length + 1 =
      (combined header.tableName header.className).length := by
    simp [combined]
    omega
  rw [ByteArray.buf_partly _ (by omega), headerBytes, hchar, ← hheader, hcombined, hlen]
  simp [lengthPrefixed, combined]

theorem header_len_make {className tableName : Str}
    (h : className.length + tableName.length + 5 ≤ 127) :
    (Header.make className tableName).header_len =
      ((className.length + tableName.length + 5 : Nat) : Int) := by
  rw [← toChar_of_le h]
  simp only [Header.make]
  congr 1
  push_cast
  omega

/-- The length the constructor computes, before it is narrowed. -/
theorem ColumnField.toByteArray_eq {col : ColumnField} {n : Nat} (hlen : col.len = n)
    (hn : n = 2 + col.columnId.length + 1 + col.dataType.length + 2 + col.columnDefault.length +
      1 + col.columnExtra.length) :
    ∃ arr, col.toByteArray = some arr ∧
      arr.buf = byte COLUMN_MARKER :: lengthPrefixed col.columnId ++
        lengthPrefixed col.dataType ++ byte col.flags ::
        lengthPrefixed col.columnDefault ++ lengthPrefixed col.columnExtra := by
  have harr := ByteArray.alloc_nat n
  rw [← hlen] at harr
  rw [ColumnField.toByteArray, harr]
  simp (disch := omega) only [Option.bind_eq_bind, Option.bind_some, ByteArray.fillChar_partly,
    ByteArray.fill_partly, Option.pure_def]
  refine ⟨_, rfl, ?_⟩
  rw [ByteArray.buf_partly _ (by omega)]
  simp [lengthPrefixed]

theorem IndexField.toByteArray_eq {ind : IndexField} {n : Nat} (hlen : ind.len = n)
    (hn : n = 2 + 1 + ind.indexName.length + 1 + ind.indexColumns.length) :
    ∃ arr, ind.toByteArray = some arr ∧
      arr.buf = byte INDEX_MARKER :: charByte ind.type ::
        lengthPrefixed ind.indexName ++ lengthPrefixed ind.indexColumns := by
  have htwo : [byte INDEX_MARKER, charByte ind.type].length = 2 := rfl
  have harr := ByteArray.alloc_nat n
  rw [← hlen] at harr
  rw [IndexField.toByteArray, harr]
  simp (disch := omega) only [Option.bind_eq_bind, Option.bind_some, ByteArray.fillChar_partly,
    ByteArray.fill_partly, Option.pure_def]
  refine ⟨_, rfl, ?_⟩
  rw [ByteArray.buf_partly _ (by omega)]
  simp [lengthPrefixed]

theorem columnBytes_length (conf : Config) (field : FieldMeta) :
    (columnBytes conf field).length =
      2 + (combined field.getColumnName field.fieldName).length + 1 +
        (combined (field.getColumnType conf) field.cppType).length + 2 + field.default_.length +
        1 + field.extra.length := by
  simp [columnBytes, lengthPrefixed]
  omega

theorem indexBytes_length (index : Index) :
    (indexBytes index).length =
      2 + 1 + index.name.length + 1 + (Util.join '|' index.columns).length := by
  simp [indexBytes, lengthPrefixed]
  omega

/-! ## saveModel -/

theorem saveColumn_eq {conf : Config} {field : FieldMeta} {header : Header} {len : Nat}
    (hlen : header.model_len = len)
    (hle : len + (columnBytes conf field).length ≤ 32767) :
    ∃ arr, saveColumn conf header field =
        some ({ header with model_len := ((len + (columnBytes conf field).length : Nat) : Int) },
          arr) ∧
      arr.buf = columnBytes conf field := by
  have hn := columnBytes_length conf field
  have hcol : (ColumnField.make conf field).len = ((columnBytes conf field).length : Nat) := by
    have hs := toShort_of_le (n := (columnBytes conf field).length) (by omega)
    rw [← hs, hn]
    simp only [ColumnField.make]
    congr 1
  obtain ⟨arr, harr, hbuf⟩ := ColumnField.toByteArray_eq hcol hn
  have hshort : toShort (header.model_len + (ColumnField.make conf field).len) =
      ((len + (columnBytes conf field).length : Nat) : Int) := by
    rw [hlen, hcol, ← toShort_of_le hle]
    push_cast
    rfl
  refine ⟨arr, ?_, hbuf⟩
  simp [saveColumn, harr, hshort]

theorem saveIndex_eq {index : Index} (h : (indexBytes index).length ≤ 127) {header : Header}
    {len : Nat}
    (hlen : header.model_len = len) (hle : len + (indexBytes index).length ≤ 32767) :
    ∃ arr, saveIndex header index =
        some ({ header with model_len := ((len + (indexBytes index).length : Nat) : Int) }, arr) ∧
      arr.buf = indexBytes index := by
  have hn := indexBytes_length index
  have hind : (IndexField.make index).len = ((indexBytes index).length : Nat) := by
    rw [← toChar_of_le h, hn]
    simp only [IndexField.make]
    congr 1
  obtain ⟨arr, harr, hbuf⟩ := IndexField.toByteArray_eq hind hn
  have hshort : toShort (header.model_len + (IndexField.make index).len) =
      ((len + (indexBytes index).length : Nat) : Int) := by
    rw [hlen, hind, ← toShort_of_le hle]
    push_cast
    rfl
  refine ⟨arr, ?_, hbuf⟩
  simp [saveIndex, harr, hshort]

/-- A loop whose every pass writes `bytes x` and adds its length writes them one
after another and adds the length of the whole. -/
theorem saveLoop_eq {α : Type} {save : Header → α → Option (Header × ByteArray)}
    (bytes : α → Str) (ok : α → Prop)
    (hsave : ∀ x, ok x → ∀ (header : Header) (len : Nat), header.model_len = len →
      len + (bytes x).length ≤ 32767 →
      ∃ arr, save header x =
        some ({ header with model_len := ((len + (bytes x).length : Nat) : Int) }, arr) ∧
        arr.buf = bytes x)
    {xs : List α} (hok : ∀ x ∈ xs, ok x) (header : Header) (len : Nat)
    (hlen : header.model_len = len) (hle : len + (xs.flatMap bytes).length ≤ 32767) :
    ∃ arrs, saveLoop save header xs =
        some ({ header with model_len := ((len + (xs.flatMap bytes).length : Nat) : Int) }, arrs) ∧
      arrs.flatMap ByteArray.buf = xs.flatMap bytes := by
  induction xs generalizing header len with
  | nil =>
    refine ⟨[], ?_, rfl⟩
    simp [saveLoop, ← hlen]
  | cons x xs ih =>
    simp only [List.flatMap_cons, List.length_append] at hle ⊢
    obtain ⟨arr, hx, hbuf⟩ := hsave x (hok x (by simp)) header len hlen (by omega)
    obtain ⟨arrs, hxs, hbufs⟩ := ih (fun y hy => hok y (by simp [hy]))
      { header with model_len := ((len + (bytes x).length : Nat) : Int) }
      (len + (bytes x).length) rfl (by omega)
    refine ⟨arr :: arrs, ?_, by simp [hbuf, hbufs]⟩
    simp only [saveLoop, hx, hxs, Option.bind_eq_bind, Option.bind_some, Option.pure_def,
      Nat.add_assoc]

theorem SavedModel.save_eq {conf : Config} {m : SavedModel} (h : m.Storable conf) :
    m.save conf = some (m.bytes conf) := by
  have hbody := h.body_len
  simp only [bodyBytes, List.length_append] at hbody
  obtain ⟨cols, hcols, hcolbuf⟩ := saveLoop_eq (columnBytes conf) (ColumnOk conf)
    (fun _ _ _ _ => saveColumn_eq) h.columns
    (Header.make m.className m.tableName) 0 rfl (by omega)
  obtain ⟨inds, hinds, hindbuf⟩ := saveLoop_eq indexBytes IndexOk
    (fun _ hx _ _ => saveIndex_eq hx.len) h.indexes
    { Header.make m.className m.tableName with
      model_len := ((0 + (m.fields.flatMap (columnBytes conf)).length : Nat) : Int) }
    (0 + (m.fields.flatMap (columnBytes conf)).length) rfl (by omega)
  have hheader := h.header_len
  have hmake := @header_len_make m.className m.tableName (by omega)
  obtain ⟨arr, harr, hbuf⟩ := Header.toByteArray_eq
    { Header.make m.className m.tableName with
      model_len := ((0 + (m.fields.flatMap (columnBytes conf)).length +
        (m.indexList.flatMap indexBytes).length : Nat) : Int) }
    rfl (n := m.className.length + m.tableName.length) rfl (by omega) (by rw [← hmake])
  have hinds' : saveLoop saveIndex _ (m.indices.entries.map Sigma.snd) = _ := hinds
  simp only [SavedModel.save, saveModel, hcols, Option.bind_eq_bind, Option.bind_some, hinds',
    harr, Option.pure_def, hbuf, hcolbuf, hindbuf]
  simp [SavedModel.bytes, bodyBytes, Header.make]

end TinyOrm
