import TinyOrm.DataFileWriter
set_option autoImplicit false

/-!
When the narrow length fields of the metadata file hold the lengths they stand for.
-/

namespace TinyOrm

/-! ## How full a ByteArray gets -/

namespace ByteArray

/-- As many bytes have been filled in as are allocated. -/
def Full (arr : ByteArray) : Prop := arr.wp = arr.buf.length

instance (arr : ByteArray) : Decidable arr.Full := inferInstanceAs (Decidable (_ = _))

/-- `total` bytes are filled in, of which `strs` come with `fill(data, _len)`:
these move the write pointer even out of range. -/
structure Fills (arr arr' : ByteArray) (strs total : Nat) : Prop where
  size : arr'.buf.length = arr.buf.length
  atLeast : arr.wp + strs ≤ arr'.wp
  atMost : arr'.wp ≤ arr.wp + total
  fits : arr.wp + total ≤ arr.buf.length → arr'.wp = arr.wp + total

namespace Fills

variable {arr arr' : ByteArray} {strs total : Nat}

theorem refl (arr : ByteArray) : Fills arr arr 0 0 :=
    ⟨rfl, Nat.le_refl _, Nat.le_refl _, fun _ => rfl⟩

theorem fill (h : Fills arr arr' strs total) (data : Str) :
    Fills arr (arr'.fill data) (strs + data.length) (total + data.length) := by
  obtain ⟨hsize, hleast, hmost, hfits⟩ := h
  unfold ByteArray.fill
  split
  · constructor <;> dsimp only <;> omega
  · constructor <;> simp only [List.length_append, List.length_take, List.length_drop] <;> omega

theorem fillChar (h : Fills arr arr' strs total) (val : Char) :
    Fills arr (arr'.fillChar val) strs (total + 1) := by
  obtain ⟨hsize, hleast, hmost, hfits⟩ := h
  unfold ByteArray.fillChar
  split
  · have hval := Fills.fill ⟨hsize, hleast, hmost, hfits⟩ [val]
    exact ⟨hval.size, Nat.le_of_succ_le hval.atLeast, hval.atMost, hval.fits⟩
  · constructor <;> omega

theorem of_eq (h : Fills arr arr' strs total) {strs' total' : Nat} (hs : strs = strs')
    (ht : total = total') : Fills arr arr' strs' total' := hs ▸ ht ▸ h

end Fills

/-- A record of `total` bytes in a buffer of `len` bytes. -/
theorem full_iff {len : Int} {arr arr' : ByteArray} {strs total : Nat}
    (halloc : alloc len = some arr)
    (h : Fills arr arr' strs total) (hlen : len ≤ total) (hwrap : len = total ∨ len < strs) :
    arr'.Full ↔ len = total := by
  unfold alloc at halloc
  split at halloc
  · cases halloc
  · obtain rfl := Option.some.inj halloc
    obtain ⟨hsize, hleast, hmost, hfits⟩ := h
    simp only [List.length_replicate] at hsize hleast hmost hfits
    unfold Full
    omega

end ByteArray

theorem toChar_cases (n : Nat) :
    n ≤ 127 ∧ toChar n = n ∨ 127 < n ∧ toChar n ≤ n - 256 := by
  by_cases h : n ≤ 127
  · exact Or.inl ⟨h, toChar_of_le h⟩
  · refine Or.inr ⟨by omega, ?_⟩
    unfold toChar
    rw [Int.bmod_def]
    split <;> omega

theorem toShort_cases (n : Nat) :
    n ≤ 32767 ∧ toShort n = n ∨ 32767 < n ∧ toShort n ≤ n - 65536 := by
  by_cases h : n ≤ 32767
  · exact Or.inl ⟨h, toShort_of_le h⟩
  · refine Or.inr ⟨by omega, ?_⟩
    unfold toShort
    rw [Int.bmod_def]
    split <;> omega

/-- A length byte, read back as a signed `char`. -/
theorem schar_byte_iff (n : Nat) : schar (byte n) = n ↔ n ≤ 127 := by
  unfold schar
  rw [uchar_byte]
  split <;> omega

/-! ## The three kinds of records -/

/-- The length byte in front of `s` holds its length. -/
def LengthByteOk (s : Str) : Prop := schar (byte s.length) = s.length

theorem Header.fills {header : Header} {arr : ByteArray} (h : header.toByteArray = some arr) :
    ∃ start, ByteArray.alloc (header.header_len + 1) = some start ∧
      start.Fills arr (header.className.length + header.tableName.length + 3)
        (header.className.length + header.tableName.length + 6) := by
  obtain ⟨start, halloc, h⟩ := Option.bind_eq_some_iff.mp h
  obtain rfl := Option.some.inj h
  have hshort : (shortBytes header.model_len).length = 2 := rfl
  have hbar : (['|'] : Str).length = 1 := rfl
  refine ⟨start, halloc, .of_eq (.fill (.fill (.fill (.fillChar (.fillChar (.fill (.fillChar
    (.refl start) _) _) _) _) _) _) _) ?_ ?_⟩ <;> omega

theorem ColumnField.fills {col : ColumnField} {arr : ByteArray} (h : col.toByteArray = some arr) :
    ∃ start, ByteArray.alloc col.len = some start ∧
      start.Fills arr (col.columnId.length + col.dataType.length + col.columnDefault.length +
        col.columnExtra.length) (2 + col.columnId.length + 1 + col.dataType.length + 2 +
        col.columnDefault.length + 1 + col.columnExtra.length) := by
  obtain ⟨start, halloc, h⟩ := Option.bind_eq_some_iff.mp h
  obtain rfl := Option.some.inj h
  refine ⟨start, halloc, .of_eq (.fill (.fillChar (.fill (.fillChar (.fillChar (.fill (.fillChar
    (.fill (.fillChar (.fillChar (.refl start) _) _) _) _) _) _) _) _) _) _) ?_ ?_⟩ <;> omega

theorem IndexField.fills {ind : IndexField} {arr : ByteArray} (h : ind.toByteArray = some arr) :
    ∃ start, ByteArray.alloc ind.len = some start ∧
      start.Fills arr (2 + ind.indexName.length + ind.indexColumns.length)
        (2 + 1 + ind.indexName.length + 1 + ind.indexColumns.length) := by
  obtain ⟨start, halloc, h⟩ := Option.bind_eq_some_iff.mp h
  obtain rfl := Option.some.inj h
  have htwo : [byte INDEX_MARKER, charByte ind.type].length = 2 := rfl
  refine ⟨start, halloc, .of_eq (.fill (.fillChar (.fill (.fillChar (.fill (.refl start) _) _) _) _)
    _) ?_ ?_⟩ <;> omega

theorem Header.full_iff {className tableName : Str} {header : Header} {arr : ByteArray}
    (hlen : header.header_len = (Header.make className tableName).header_len)
    (hclass : header.className = className) (htable : header.tableName = tableName)
    (h : header.toByteArray = some arr) :
    arr.Full ↔ className.length + tableName.length + 5 ≤ 127 := by
  obtain ⟨start, halloc, hfills⟩ := Header.fills h
  have hmake : header.header_len =
      toChar ((className.length + tableName.length + 5 : Nat) : Int) := by
    rw [hlen]
    simp only [Header.make]
    congr 1
    push_cast
    omega
  rw [hclass, htable] at hfills
  have hcases := toChar_cases (className.length + tableName.length + 5)
  rw [← hmake] at hcases
  rw [ByteArray.full_iff halloc hfills (by omega) (by omega)]
  omega

theorem ColumnField.full_iff {conf : Config} {field : FieldMeta} {arr : ByteArray}
    (h : (ColumnField.make conf field).toByteArray = some arr) :
    arr.Full ↔ (columnBytes conf field).length ≤ 32767 := by
  obtain ⟨start, halloc, hfills⟩ := ColumnField.fills h
  have hlen := columnBytes_length conf field
  have hid : (ColumnField.make conf field).columnId =
      combined field.getColumnName field.fieldName := rfl
  have htype : (ColumnField.make conf field).dataType =
      combined (field.getColumnType conf) field.cppType := rfl
  have hdefault : (ColumnField.make conf field).columnDefault = field.default_ := rfl
  have hextra : (ColumnField.make conf field).columnExtra = field.extra := rfl
  have hmake : (ColumnField.make conf field).len =
      toShort ((columnBytes conf field).length : Nat) := by
    rw [hlen]
    simp only [ColumnField.make]
    congr 1
  rw [hid, htype, hdefault, hextra, ← hlen] at hfills
  have hcases := toShort_cases (columnBytes conf field).length
  rw [← hmake] at hcases
  rw [ByteArray.full_iff halloc hfills (by omega) (by omega)]
  omega

theorem IndexField.full_iff {index : Index} {arr : ByteArray}
    (h : (IndexField.make index).toByteArray = some arr) :
    arr.Full ↔ (indexBytes index).length ≤ 127 := by
  obtain ⟨start, halloc, hfills⟩ := IndexField.fills h
  have hlen := indexBytes_length index
  have hname : (IndexField.make index).indexName = index.name := rfl
  have hcolumns : (IndexField.make index).indexColumns = Util.join '|' index.columns := rfl
  have hmake : (IndexField.make index).len = toChar ((indexBytes index).length : Nat) := by
    rw [hlen]
    simp only [IndexField.make]
    congr 1
  rw [hname, hcolumns, ← hlen] at hfills
  have hcases := toChar_cases (indexBytes index).length
  rw [← hmake] at hcases
  rw [ByteArray.full_iff halloc hfills (by omega) (by omega)]
  omega

/-! ## saveModel -/

/-- The variables of `saveModel` when it writes. -/
structure Saving where
  header : Header
  headerData : ByteArray
  cols : List ByteArray
  inds : List ByteArray

def SavedModel.saving (conf : Config) (m : SavedModel) : Option Saving := do
  let (header, cols) ← saveLoop (saveColumn conf) (Header.make m.className m.tableName) m.fields
  let (header, inds) ← saveLoop saveIndex header m.indexList
  let headerData ← header.toByteArray
  some ⟨header, headerData, cols, inds⟩

theorem SavedModel.save_eq_saving (conf : Config) (m : SavedModel) :
    m.save conf = (m.saving conf).map fun s =>
      s.headerData.buf ++ s.cols.flatMap ByteArray.buf ++ s.inds.flatMap ByteArray.buf := by
  simp only [SavedModel.save, saveModel, SavedModel.saving, SavedModel.indexList,
    Option.bind_eq_bind, Option.map_bind, Function.comp_def, Option.pure_def, Option.map_some]

def sizes (arrs : List ByteArray) : Nat := (arrs.map fun arr => arr.buf.length).sum

@[simp] theorem sizes_cons (arr : ByteArray) (arrs : List ByteArray) :
    sizes (arr :: arrs) = arr.buf.length + sizes arrs := by simp [sizes]

/-- Buffers, length bytes and `model_len` of a model are those of its strings. -/
structure Saving.NoWrap (conf : Config) (m : SavedModel) (s : Saving) : Prop where
  headerData : s.headerData.Full
  cols : ∀ arr ∈ s.cols, arr.Full
  inds : ∀ arr ∈ s.inds, arr.Full
  header : LengthByteOk (combined m.tableName m.className)
  columns : ∀ field ∈ m.fields, ∀ str ∈ [(ColumnField.make conf field).columnId,
    (ColumnField.make conf field).dataType, (ColumnField.make conf field).columnDefault,
    (ColumnField.make conf field).columnExtra], LengthByteOk str
  indexes : ∀ index ∈ m.indexList, ∀ str ∈ [(IndexField.make index).indexName,
    (IndexField.make index).indexColumns], LengthByteOk str
  model_len : s.header.model_len = (sizes s.cols + sizes s.inds : Nat)

/-- The thresholds of the length fields. -/
structure Fits (conf : Config) (m : SavedModel) : Prop where
  header : m.className.length + m.tableName.length + 5 ≤ 127
  columns : ∀ field ∈ m.fields,
    (combined field.getColumnName field.fieldName).length ≤ 127 ∧
      (combined (field.getColumnType conf) field.cppType).length ≤ 127 ∧
      field.default_.length ≤ 127 ∧ field.extra.length ≤ 127
  indexes : ∀ index ∈ m.indexList, (indexBytes index).length ≤ 127
  body : (bodyBytes conf m.fields m.indexList).length ≤ 32767

/-- Two headers that differ in `model_len` at most. -/
def Header.SameNames (header header' : Header) : Prop :=
  header'.header_len = header.header_len ∧ header'.className = header.className ∧
    header'.tableName = header.tableName

theorem Header.SameNames.trans {header header' header'' : Header} (h : header.SameNames header')
    (h' : header'.SameNames header'') : header.SameNames header'' :=
  ⟨h'.1.trans h.1, h'.2.1.trans h.2.1, h'.2.2.trans h.2.2⟩

/-- What a loop writes are the records of its elements, and `model_len` grows by
their sizes, modulo its width. -/
theorem saveLoop_records {α : Type} {save : Header → α → Option (Header × ByteArray)}
    {record : α → Option ByteArray}
    (hsave : ∀ x header header' arr, save header x = some (header', arr) → record x = some arr ∧
      header' = { header with model_len := toShort (header.model_len + arr.buf.length) })
    {xs : List α} {header header' : Header} {arrs : List ByteArray}
    (h : saveLoop save header xs = some (header', arrs)) :
    List.Forall₂ (fun x arr => record x = some arr) xs arrs ∧
      header.SameNames header' ∧
      ∀ n : Nat, header.model_len = toShort n →
        header'.model_len = toShort (n + sizes arrs : Nat) := by
  induction xs generalizing header arrs with
  | nil =>
    simp only [saveLoop, Option.some.injEq, Prod.mk.injEq] at h
    obtain ⟨rfl, rfl⟩ := h
    exact ⟨.nil, ⟨rfl, rfl, rfl⟩, fun n hn => hn⟩
  | cons x xs ih =>
    simp only [saveLoop, Option.bind_eq_bind, Option.bind_eq_some_iff, Prod.exists,
      Option.pure_def, Option.some.injEq, Prod.mk.injEq] at h
    obtain ⟨header₁, arr, hx, header₂, arrs', hxs, rfl, rfl⟩ := h
    obtain ⟨hrecord, rfl⟩ := hsave x header header₁ arr hx
    obtain ⟨hrecords, hheader, hlen⟩ := ih hxs
    refine ⟨.cons hrecord hrecords, hheader, fun n hn => ?_⟩
    have hnext : toShort (header.model_len + arr.buf.length) =
        toShort (n + arr.buf.length : Nat) := by
      rw [hn]
      simp only [toShort, Int.bmod_add_bmod]
      push_cast
      rfl
    rw [hlen _ hnext, sizes_cons, Nat.add_assoc]

/-- The size of a record is the length that was computed for it. -/
theorem size_of_alloc {len : Int} {start arr : ByteArray} {strs total : Nat}
    (halloc : ByteArray.alloc len = some start) (hfills : start.Fills arr strs total) :
    (arr.buf.length : Int) = len := by
  unfold ByteArray.alloc at halloc
  split at halloc
  · cases halloc
  · obtain rfl := Option.some.inj halloc
    rw [hfills.size, List.length_replicate]
    omega

theorem saveColumn_record {conf : Config} (field : FieldMeta) (header header' : Header)
    (arr : ByteArray) (h : saveColumn conf header field = some (header', arr)) :
    (ColumnField.make conf field).toByteArray = some arr ∧
      header' = { header with model_len := toShort (header.model_len + arr.buf.length) } := by
  simp only [saveColumn, Option.bind_eq_bind, Option.bind_eq_some_iff, Option.pure_def,
    Option.some.injEq, Prod.mk.injEq] at h
  obtain ⟨arr', harr, rfl, rfl⟩ := h
  obtain ⟨start, halloc, hfills⟩ := ColumnField.fills harr
  exact ⟨harr, by rw [size_of_alloc halloc hfills]⟩

theorem saveIndex_record (index : Index) (header header' : Header) (arr : ByteArray)
    (h : saveIndex header index = some (header', arr)) :
    (IndexField.make index).toByteArray = some arr ∧
      header' = { header with model_len := toShort (header.model_len + arr.buf.length) } := by
  simp only [saveIndex, Option.bind_eq_bind, Option.bind_eq_some_iff, Option.pure_def,
    Option.some.injEq, Prod.mk.injEq] at h
  obtain ⟨arr', harr, rfl, rfl⟩ := h
  obtain ⟨start, halloc, hfills⟩ := IndexField.fills harr
  exact ⟨harr, by rw [size_of_alloc halloc hfills]⟩

theorem sizes_eq {α : Type} {record : α → Option ByteArray} {bytes : α → Str} {xs : List α}
    {arrs : List ByteArray} (h : List.Forall₂ (fun x arr => record x = some arr) xs arrs)
    (hbytes : ∀ x ∈ xs, ∀ arr, record x = some arr → arr.buf.length = (bytes x).length) :
    sizes arrs = (xs.flatMap bytes).length := by
  induction h with
  | nil => rfl
  | cons hx _ ih =>
    rw [List.flatMap_cons, List.length_append, ← ih fun x hx => hbytes x (by simp [hx]),
      ← hbytes _ (by simp) _ hx, sizes_cons]

theorem columnBytes_of_fits {conf : Config} {field : FieldMeta}
    (h : (columnBytes conf field).length ≤ 32767) (arr : ByteArray)
    (harr : (ColumnField.make conf field).toByteArray = some arr) :
    arr.buf.length = (columnBytes conf field).length := by
  have hlen : (ColumnField.make conf field).len = ((columnBytes conf field).length : Nat) := by
    rw [← toShort_of_le h, columnBytes_length]
    simp only [ColumnField.make]
    congr 1
  obtain ⟨arr', harr', hbuf⟩ := ColumnField.toByteArray_eq hlen (columnBytes_length conf field)
  rw [harr, Option.some.injEq] at harr'
  rw [harr', hbuf]
  rfl

theorem indexBytes_of_fits {index : Index} (h : (indexBytes index).length ≤ 127) (arr : ByteArray)
    (harr : (IndexField.make index).toByteArray = some arr) :
    arr.buf.length = (indexBytes index).length := by
  have hlen : (IndexField.make index).len = ((indexBytes index).length : Nat) := by
    rw [← toChar_of_le h, indexBytes_length]
    simp only [IndexField.make]
    congr 1
  obtain ⟨arr', harr', hbuf⟩ := IndexField.toByteArray_eq hlen (indexBytes_length index)
  rw [harr, Option.some.injEq] at harr'
  rw [harr', hbuf]
  rfl

theorem columnBytes_le {conf : Config} {field : FieldMeta}
    (h : (combined field.getColumnName field.fieldName).length ≤ 127 ∧
      (combined (field.getColumnType conf) field.cppType).length ≤ 127 ∧
      field.default_.length ≤ 127 ∧ field.extra.length ≤ 127) :
    (columnBytes conf field).length ≤ 32767 := by
  rw [columnBytes_length]
  omega

/-- What `saveModel` holds when it writes. -/
theorem saving_records {conf : Config} {m : SavedModel} {s : Saving} (h : m.saving conf = some s) :
    List.Forall₂
      (fun field arr => (ColumnField.make conf field).toByteArray = some arr) m.fields s.cols ∧
      List.Forall₂
        (fun index arr => (IndexField.make index).toByteArray = some arr) m.indexList s.inds ∧
      s.header.toByteArray = some s.headerData ∧
      (Header.make m.className m.tableName).SameNames s.header ∧
      s.header.model_len = toShort (sizes s.cols + sizes s.inds : Nat) := by
  simp only [SavedModel.saving, Option.bind_eq_bind, Option.bind_eq_some_iff, Prod.exists,
    Option.some.injEq] at h
  obtain ⟨header₁, cols, hcols, header₂, inds, hinds, headerData, hheader, rfl⟩ := h
  obtain ⟨hcolrecords, hheader₁, hlen₁⟩ := saveLoop_records saveColumn_record hcols
  obtain ⟨hindrecords, hheader₂, hlen₂⟩ := saveLoop_records saveIndex_record hinds
  have hstart : (Header.make m.className m.tableName).model_len = toShort (0 : Nat) := rfl
  have hcollen := hlen₁ 0 hstart
  rw [Nat.zero_add] at hcollen
  exact ⟨hcolrecords, hindrecords, hheader, hheader₁.trans hheader₂, hlen₂ _ hcollen⟩

theorem forall₂_right {α β : Type} {R : α → β → Prop} {xs : List α} {ys : List β}
    (h : List.Forall₂ R xs ys) {x : α} (hx : x ∈ xs) : ∃ y ∈ ys, R x y := by
  induction h with
  | nil => cases hx
  | cons hr _ ih =>
    rcases List.mem_cons.mp hx with rfl | hx
    · exact ⟨_, by simp, hr⟩
    · obtain ⟨y, hy, hr⟩ := ih hx
      exact ⟨y, by simp [hy], hr⟩

theorem fits_of_noWrap {conf : Config} {m : SavedModel} {s : Saving} (h : m.saving conf = some s)
    (hno : s.NoWrap conf m) : Fits conf m := by
  obtain ⟨hcols, hinds, hheaderData, hheader, hlen⟩ := saving_records h
  have hcolumns : ∀ field ∈ m.fields,
      (combined field.getColumnName field.fieldName).length ≤ 127 ∧
        (combined (field.getColumnType conf) field.cppType).length ≤ 127 ∧
        field.default_.length ≤ 127 ∧ field.extra.length ≤ 127 := by
    intro field hfield
    have hbytes := hno.columns field hfield
    simp only [List.forall_mem_cons, LengthByteOk, schar_byte_iff] at hbytes
    exact ⟨hbytes.1, hbytes.2.1, hbytes.2.2.1, hbytes.2.2.2.1⟩
  have hindexes : ∀ index ∈ m.indexList, (indexBytes index).length ≤ 127 := by
    intro index hindex
    obtain ⟨arr, harr, hrecord⟩ := forall₂_right hinds hindex
    exact (IndexField.full_iff hrecord).mp (hno.inds arr harr)
  refine ⟨?_, hcolumns, hindexes, ?_⟩
  · exact (Header.full_iff hheader.1 hheader.2.1 hheader.2.2 hheaderData).mp hno.headerData
  · have hcolsize := sizes_eq hcols fun field hfield =>
      columnBytes_of_fits (columnBytes_le (hcolumns field hfield))
    have hindsize := sizes_eq hinds fun index hindex => indexBytes_of_fits (hindexes index hindex)
    have htotal := hno.model_len
    rw [hlen] at htotal
    rw [bodyBytes, List.length_append, ← hcolsize, ← hindsize]
    have hcases := toShort_cases (sizes s.cols + sizes s.inds)
    omega

/-- Within its threshold a loop ends, and `model_len` is what it has written. -/
theorem saveLoop_fits {α : Type} {save : Header → α → Option (Header × ByteArray)} (bytes : α → Str)
    (ok : α → Prop)
    (hsave : ∀ x, ok x → ∀ (header : Header) (len : Nat), header.model_len = len →
      len + (bytes x).length ≤ 32767 →
      ∃ arr, save header x =
        some ({ header with model_len := ((len + (bytes x).length : Nat) : Int) }, arr) ∧
        arr.buf = bytes x)
    {xs : List α} (hok : ∀ x ∈ xs, ok x) (header : Header) (len : Nat)
    (hlen : header.model_len = len) (hle : len + (xs.flatMap bytes).length ≤ 32767) :
    ∃ header' arrs, saveLoop save header xs = some (header', arrs) ∧ header.SameNames header' ∧
      header'.model_len = (len + (xs.flatMap bytes).length : Nat) := by
  obtain ⟨arrs, harrs, -⟩ := saveLoop_eq bytes ok hsave hok header len hlen hle
  exact ⟨_, arrs, harrs, ⟨rfl, rfl, rfl⟩, rfl⟩

theorem saving_of_fits {conf : Config} {m : SavedModel} (h : Fits conf m) :
    ∃ s, m.saving conf = some s := by
  have hbody := h.body
  have hlen := h.header
  simp only [bodyBytes, List.length_append] at hbody
  obtain ⟨header₁, cols, hcols, hsame₁, hlen₁⟩ := saveLoop_fits (columnBytes conf) (fun _ => True)
    (fun _ _ _ _ => saveColumn_eq) (fun field (_ : field ∈ m.fields) => trivial)
    (Header.make m.className m.tableName) 0 rfl (by omega)
  obtain ⟨header₂, inds, hinds, hsame₂, hlen₂⟩ := saveLoop_fits indexBytes
    (fun index => (indexBytes index).length ≤ 127) (fun _ hx _ _ => saveIndex_eq hx) h.indexes
    header₁ _ hlen₁ (by omega)
  obtain ⟨hheader, hclass, htable⟩ := hsame₁.trans hsame₂
  obtain ⟨headerData, hheaderData, -⟩ := Header.toByteArray_eq header₂ hlen₂
    (n := m.className.length + m.tableName.length) (by rw [hclass, htable]; rfl) hlen
    (by rw [hheader, header_len_make hlen])
  exact ⟨⟨header₂, headerData, cols, inds⟩, by
    simp only [SavedModel.saving, hcols, hinds, hheaderData, Option.bind_eq_bind, Option.bind_some]⟩

/-- Names that MySQL accepts. -/
structure LegalNames (m : SavedModel) : Prop where
  tableName : m.tableName.length ≤ 64
  columns : ∀ field ∈ m.fields, field.getColumnName.length ≤ 64
  indexes : ∀ index ∈ m.indexList, index.name.length ≤ 64 ∧ ∀ col ∈ index.columns, col.length ≤ 64

/-- A column with a name of 64 characters and a member of the same name. -/
def sampleLongNames : SavedModel where
  className := "User".toList
  tableName := "user".toList
  fields := [{ fieldName := List.replicate 64 'a', cppType := "int".toList,
               columnName := some (List.replicate 64 'a') }]
  indices := ∅

end TinyOrm
