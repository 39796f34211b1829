import TinyOrm.Lib.InStream
import TinyOrm.Lib.Loop
import TinyOrm.DataType
set_option autoImplicit false

/-!
The metadata file (dataloader.h, bytearray.h): the three kinds of records, the
writer `saveModel` and the state machine `loadFromFile`.

`none` stands for undefined behaviour: a negative allocation, a part of a split
string that does not exist, or the value of a variable nothing was read into.
-/

namespace TinyOrm

/-! ## ByteArray -/

structure ByteArray where
  buf : Str
  wp : Nat
  deriving DecidableEq, Repr

namespace ByteArray

def alloc (len : Int) : Option ByteArray :=
  if len < 0 then none else some ⟨List.replicate len.toNat (byte 0), 0⟩

/-- `fill(data, _len)`: out of range it warns and writes nothing, but the write
pointer moves all the same. -/
def fill (arr : ByteArray) (data : Str) : ByteArray :=
  if arr.wp + data.length > arr.buf.length then { arr with wp := arr.wp + data.length }
  else
    { buf := arr.buf.take arr.wp ++ data ++ arr.buf.drop (arr.wp + data.length)
      wp := arr.wp + data.length }

/-- `fill(val, 1)`. -/
def fillChar (arr : ByteArray) (val : Char) : ByteArray :=
  if arr.wp < arr.buf.length then arr.fill [val] else arr

/-- `ByteArray(ifs, _len)`: a short read leaves the rest of the buffer zero. -/
def ofStream (ifs : InStream Char) (len : Int) : Option (Str × InStream Char) := do
  let arr ← alloc len
  let (got, ifs) := ifs.read len.toNat
  pure (got ++ arr.buf.drop got.length, ifs)

end ByteArray

/-! ## Records -/

def HEADER_MARKER : Nat := 0xFC
def COLUMN_MARKER : Nat := 0xFD
def INDEX_MARKER : Nat := 0xFE

/-- Assignment to a `short` and to a (signed) `char`. -/
def toShort (n : Int) : Int := n.bmod (2 ^ 16)
def toChar (n : Int) : Int := n.bmod (2 ^ 8)

/-- The two bytes of a `short` in memory, low byte first. -/
def shortBytes (n : Int) : Str :=
  let u := (n % 2 ^ 16).toNat
  [byte u, byte (u / 256)]

def shortOfBytes (lo hi : Char) : Int := toShort ((uchar lo : Int) + 256 * uchar hi)

/-- The byte a signed value leaves in a `char`. -/
def charByte (n : Int) : Char := byte (n % 256).toNat

structure Header where
  model_len : Int := 0
  header_len : Int := 0
  className : Str := []
  tableName : Str := []
  deriving DecidableEq, Repr

def Header.make (cName tName : Str) : Header where
  model_len := 0
  header_len := toChar (2 + 2 + cName.length + tName.length + 1)
  className := cName
  tableName := tName

def Header.toByteArray (header : Header) : Option ByteArray := do
  let arr ← ByteArray.alloc (header.header_len + 1)
  let arr := arr.fillChar (byte HEADER_MARKER)
  let arr := arr.fill (shortBytes header.model_len)
  let arr := arr.fillChar (charByte header.header_len)
  let arr := arr.fillChar (byte (header.className.length + header.tableName.length + 1))
  let arr := arr.fill header.tableName
  let arr := arr.fill ['|']
  pure (arr.fill header.className)

structure ColumnField where
  columnId : Str
  dataType : Str
  flags : Nat
  columnDefault : Str
  columnExtra : Str
  len : Int
  deriving DecidableEq, Repr

def columnFlags (isPk autoInc hasIndex notNull : Bool) : Nat :=
  isPk.toNat * 8 + autoInc.toNat * 4 + hasIndex.toNat * 2 + notNull.toNat

def ColumnField.make (conf : Config) (field : FieldMeta) : ColumnField :=
  let columnId := field.getColumnName ++ ['|'] ++ field.fieldName
  let dataType := field.getColumnType conf ++ ['|'] ++ field.cppType
  { columnId := columnId
    dataType := dataType
    flags := columnFlags field.isPk field.autoInc field.hasIndex field.notNull
    columnDefault := field.default_
    columnExtra := field.extra
    len := toShort (2 + columnId.length + 1 + dataType.length + 2 + field.default_.length +
      1 + field.extra.length) }

def ColumnField.toByteArray (col : ColumnField) : Option ByteArray := do
  let arr ← ByteArray.alloc col.len
  let arr := arr.fillChar (byte COLUMN_MARKER)
  let arr := arr.fillChar (byte col.columnId.length)
  let arr := arr.fill col.columnId
  let arr := arr.fillChar (byte col.dataType.length)
  let arr := arr.fill col.dataType
  let arr := arr.fillChar (byte col.flags)
  let arr := arr.fillChar (byte col.columnDefault.length)
  let arr := arr.fill col.columnDefault
  let arr := arr.fillChar (byte col.columnExtra.length)
  pure (arr.fill col.columnExtra)

structure IndexField where
  type : Int
  indexName : Str
  indexColumns : Str
  len : Int
  deriving DecidableEq, Repr

def IndexField.make (index : Index) : IndexField :=
  let indexColumns := Util.join '|' index.columns
  { type := toChar index.type.code
    indexName := index.name
    indexColumns := indexColumns
    len := toChar (2 + 1 + index.name.length + 1 + indexColumns.length) }

def IndexField.toByteArray (ind : IndexField) : Option ByteArray := do
  let arr ← ByteArray.alloc ind.len
  let arr := arr.fill [byte INDEX_MARKER, charByte ind.type]
  let arr := arr.fillChar (byte ind.indexName.length)
  let arr := arr.fill ind.indexName
  let arr := arr.fillChar (byte ind.indexColumns.length)
  pure (arr.fill ind.indexColumns)

/-! ## saveModel -/

/-- One pass of the first loop: the record and the grown `model_len`. -/
def saveColumn (conf : Config) (header : Header) (field : FieldMeta) :
    Option (Header × ByteArray) := do
  let columnField := ColumnField.make conf field
  let arr ← columnField.toByteArray
  pure ({ header with model_len := toShort (header.model_len + columnField.len) }, arr)

def saveIndex (header : Header) (index : Index) : Option (Header × ByteArray) := do
  let indexField := IndexField.make index
  let arr ← indexField.toByteArray
  pure ({ header with model_len := toShort (header.model_len + indexField.len) }, arr)

/-- A loop that fills a vector of records while `model_len` grows. -/
def saveLoop {α : Type} (save : Header → α → Option (Header × ByteArray)) :
    Header → List α → Option (Header × List ByteArray)
  | header, [] => some (header, [])
  | header, x :: xs => do
    let (header, arr) ← save header x
    let (header, arrs) ← saveLoop save header xs
    pure (header, arr :: arrs)

/-- The bytes `saveModel` appends to the file. -/
def saveModel (conf : Config) (fields : List FieldMeta) (indices : Indices) (header : Header) :
    Option Str := do
  let (header, cols) ← saveLoop (saveColumn conf) header fields
  let (header, inds) ← saveLoop saveIndex header (indices.entries.map Sigma.snd)
  let headerData ← header.toByteArray
  pure (headerData.buf ++ cols.flatMap ByteArray.buf ++ inds.flatMap ByteArray.buf)

/-! ## Parse functions -/

/-- `ifs.read(&c, 1)` into a variable that holds `old`. -/
def readChar (ifs : InStream Char) (old : Char) : Char × InStream Char :=
  match ifs.read 1 with
  | (c :: _, ifs) => (c, ifs)
  | ([], ifs) => (old, ifs)

/-- The same into a variable without a value. -/
def readFresh (ifs : InStream Char) : Option (Char × InStream Char) :=
  match ifs.read 1 with
  | (c :: _, ifs) => some (c, ifs)
  | ([], _) => none

def read_combined (ifs : InStream Char) (len : Char) (sp : Str) :
    Option (Str × Str × InStream Char) := do
  let (s, ifs) ← ByteArray.ofStream ifs (schar len)
  match Util.split s sp with
  | p1 :: p2 :: _ => pure (p1, p2, ifs)
  | _ => none

/-- A failed read of `model_len` or `header_len` makes the read of the fresh
`len` fail too. -/
def parseHeader (ifs : InStream Char) (header : Header) : Option (Header × InStream Char) := do
  let (got, ifs) := ifs.read 2
  let model_len := match got with
    | [lo, hi] => shortOfBytes lo hi
    | _ => header.model_len
  let (header_len, ifs) := readChar ifs (charByte header.header_len)
  let (len, ifs) ← readFresh ifs
  let (tableName, className, ifs) ← read_combined ifs len ['|']
  pure (⟨model_len, schar header_len, className, tableName⟩, ifs)

/-- `if(len > 0) old = std::string(ByteArray(ifs, len))`. -/
def readOptional (ifs : InStream Char) (len : Char) (old : Str) : Option (Str × InStream Char) :=
  if schar len > 0 then ByteArray.ofStream ifs (schar len) else some (old, ifs)

def flagBit (flags : Char) (i : Nat) : Bool := (uchar flags).testBit i

def parseColumnField (ifs : InStream Char) (fieldMeta : FieldMeta) :
    Option (FieldMeta × InStream Char) := do
  let (len, ifs) ← readFresh ifs
  let (columName, fieldName, ifs) ← read_combined ifs len ['|']
  let (len, ifs) := readChar ifs len
  let (columnType, cppType, ifs) ← read_combined ifs len ['|']
  let (flags, ifs) ← readFresh ifs
  let (len, ifs) := readChar ifs len
  let (default_, ifs) ← readOptional ifs len fieldMeta.default_
  let (len, ifs) := readChar ifs len
  let (extra, ifs) ← readOptional ifs len fieldMeta.extra
  pure ({ fieldMeta with
    fieldName := fieldName, columnName := some columName,
    cppType := cppType, columnType := some columnType,
    isPk := flagBit flags 3, autoInc := flagBit flags 2,
    hasIndex := flagBit flags 1, notNull := flagBit flags 0,
    default_ := default_, extra := extra }, ifs)

def parseIndexField (ifs : InStream Char) : Option (Index × InStream Char) := do
  let (type, ifs) ← readFresh ifs
  let (len, ifs) ← readFresh ifs
  let (name, ifs) ← ByteArray.ofStream ifs (schar len)
  let (len, ifs) := readChar ifs len
  let (columns, ifs) ← ByteArray.ofStream ifs (schar len)
  pure (⟨IndexType.ofCode (schar type), name, Util.split columns ['|']⟩, ifs)

/-! ## loadFromFile -/

inductive ParsingState where
  | PARSE_MARKER
  | PARSE_FIELD
  | PARSE_SUCCESS
  | PARSE_FAILED
  deriving DecidableEq, Repr

/-- The four output parameters. -/
structure Loaded where
  tableName : Str := []
  fields : List FieldMeta := []
  indices : Indices := ∅
  nameToIndex : NameToIndex := ∅

/-- The local variables of `loadFromFile` and its outputs. -/
structure LoadState where
  ifs : InStream Char
  state : ParsingState := .PARSE_MARKER
  marker : Nat := 0
  header : Header := {}
  fieldMeta : FieldMeta := {}
  index : Index := ⟨.INDEX_TYPE_UNI, [], []⟩
  found : Bool := false
  columnIndex : Nat := 0
  out : Loaded

namespace LoadState

def parseMarker (s : LoadState) : LoadState :=
  match s.ifs.read 1 with
  | (c :: _, ifs) => { s with ifs := ifs, marker := uchar c, state := .PARSE_FIELD }
  | ([], ifs) => { s with ifs := ifs, state := .PARSE_SUCCESS }

def onHeader (className : Str) (s : LoadState) : Option LoadState :=
  if s.found then some { s with state := .PARSE_SUCCESS }
  else do
    let (header, ifs) ← parseHeader s.ifs s.header
    if header.className ≠ className then
      pure { s with header := header, ifs := ifs.seekCur header.model_len, state := .PARSE_MARKER }
    else
      pure { s with
        header := header, ifs := ifs, found := true, state := .PARSE_MARKER
        out := { s.out with tableName := header.tableName } }

def onColumn (s : LoadState) : Option LoadState := do
  let (fieldMeta, ifs) ← parseColumnField s.ifs s.fieldMeta
  let name := fieldMeta.columnName.getD []
  pure { s with
    ifs := ifs, fieldMeta := fieldMeta.movedFrom, columnIndex := s.columnIndex + 1,
    state := .PARSE_MARKER
    out := { s.out with
      nameToIndex := s.out.nameToIndex.insert name s.columnIndex
      fields := s.out.fields ++ [fieldMeta] } }

def onIndex (s : LoadState) : Option LoadState := do
  let (index, ifs) ← parseIndexField s.ifs
  pure { s with
    ifs := ifs, index := index, state := .PARSE_MARKER
    out := { s.out with indices := s.out.indices.insert index.name index } }

def parseField (className : Str) (s : LoadState) : Option LoadState :=
  if s.marker = HEADER_MARKER then s.onHeader className
  else if s.marker = COLUMN_MARKER then s.onColumn
  else if s.marker = INDEX_MARKER then s.onIndex
  else some { s with state := .PARSE_FAILED }

/-- One pass of the loop; a state in which the loop has ended stays as it is. -/
def step (className : Str) (s : LoadState) : Option LoadState :=
  match s.state with
  | .PARSE_MARKER => some s.parseMarker
  | .PARSE_FIELD => s.parseField className
  | .PARSE_SUCCESS => some s
  | .PARSE_FAILED => some s

def Ended (s : LoadState) : Prop := s.state = .PARSE_SUCCESS ∨ s.state = .PARSE_FAILED

instance (s : LoadState) : Decidable s.Ended :=
  inferInstanceAs (Decidable (_ ∨ _))

/-- The loop within `fuel` passes; `none` also when they are not enough. -/
def loop (className : Str) : Nat → LoadState → Option LoadState :=
  Loop.run (step className) Ended

end LoadState

/-- `loadFromFile` on the content of the file, `none` if it does not exist, with
the outputs as the caller passes them in. -/
def loadFromFile (fuel : Nat) (file : Option Str) (className : Str) (out : Loaded) :
    Option Loaded :=
  match file with
  | none => some out
  | some data =>
    (LoadState.loop className fuel { ifs := InStream.ofList data, out := out }).map LoadState.out

end TinyOrm
