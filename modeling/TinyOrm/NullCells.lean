import TinyOrm.ResultSet
set_option autoImplicit false

/-!
What the getters make of NULL cells, whatever was fetched before.
-/

namespace TinyOrm

/-! ## Rows -/

/-- A cell that is not NULL, as the two protocols transport it. -/
structure Cell where
  binary : Str
  text : Str
  deriving DecidableEq, Repr

/-- A row has a cell for every column. -/
structure ResultRow (fields : List ColumnMeta) where
  cells : List (Option Cell)
  length_eq : cells.length = fields.length

namespace ResultRow

variable {fields : List ColumnMeta}

def binary (row : ResultRow fields) : List (Option Str) := row.cells.map (Option.map Cell.binary)

def text (row : ResultRow fields) : List (Option Str) := row.cells.map (Option.map Cell.text)

end ResultRow

/-- The column a reference names. -/
def resolve (fields : List ColumnMeta) : ColumnRef → Option Nat
  | .columnIndex i => if 1 ≤ i ∧ i ≤ fields.length then some (i - 1).toNat else none
  | .columnName name => (nameToIndex fields).lookup name

theorem nameToIndexFrom_lt (fields : List ColumnMeta) (start : Nat) (names : NameToIndex)
    (h : ∀ name i, names.lookup name = some i → i < start) (name : Str) (i : Nat)
    (hi : (nameToIndexFrom start names fields).lookup name = some i) :
    i < start + fields.length := by
  induction fields generalizing start names with
  | nil => exact h name i hi
  | cons field fields ih =>
    have hlt := ih (start + 1) (names.insert field.name start) ?_ hi
    · simp only [List.length_cons]
      omega
    · intro name' j hj
      by_cases hname : name' = field.name
      · subst hname
        rw [AList.lookup_insert] at hj
        obtain rfl := Option.some.inj hj
        exact Nat.lt_succ_self _
      · rw [AList.lookup_insert_ne hname] at hj
        exact Nat.lt_succ_of_lt (h name' j hj)

theorem resolve_lt {fields : List ColumnMeta} {ref : ColumnRef} {i : Nat}
    (h : resolve fields ref = some i) : i < fields.length := by
  cases ref with
  | columnIndex j =>
    simp only [resolve] at h
    split at h
    · obtain rfl := Option.some.inj h
      omega
    · cases h
  | columnName name =>
    have hlt := nameToIndexFrom_lt fields 0 ∅ (by simp) name i h
    omega

theorem getResAt_nat (resBind : List Bind) (i : Nat) : PreparedResult.getResAt resBind i =
    match resBind[i]? with
    | none => {}
    | some bind => { data := bind.buffer, len := bind.length % 2 ^ 32 } := by
  have hneg : ¬ (i : Int) < 0 := by omega
  rw [PreparedResult.getResAt, if_neg hneg]
  rfl

theorem getRes_resolve {fields : List ColumnMeta} {resBind : List Bind}
    (hlen : resBind.length = fields.length) (ref : ColumnRef) :
    PreparedResult.getRes fields resBind ref =
      match resolve fields ref with
      | none => {}
      | some i => PreparedResult.getResAt resBind i := by
  cases ref with
  | columnIndex j =>
    simp only [PreparedResult.getRes, resolve]
    by_cases hj : 1 ≤ j ∧ j ≤ fields.length
    · have hnat : ((j - 1).toNat : Int) = j - 1 := by omega
      simp only [hj, and_self, if_true, hnat]
    · rw [if_neg hj, PreparedResult.getResAt]
      by_cases hneg : j - 1 < 0
      · rw [if_pos hneg]
      · have hout : resBind[(j - 1).toNat]? = none := List.getElem?_eq_none_iff.mpr (by omega)
        simp only [hneg, if_false, hout]
  | columnName name =>
    simp only [PreparedResult.getRes, resolve]
    cases (nameToIndex fields).lookup name <;> rfl

theorem typed_resolve (recognised : ColumnType → Bool) (zero : Value) (read : Option Str → Read)
    (fields : List ColumnMeta) (row : List (Option Str)) (ref : ColumnRef) :
    SqlResult.typed recognised zero read fields row (SqlResult.columnIndex fields ref) =
      match (resolve fields ref).bind (fun i => fields[i]?.map fun field => (i, field)) with
      | none => .value zero
      | some (i, field) =>
        if recognised field.type then read (row[i]?.getD none) else .value zero := by
  cases ref with
  | columnIndex j =>
    simp only [SqlResult.columnIndex, SqlResult.typed, resolve]
    by_cases hj : 1 ≤ j ∧ j ≤ fields.length
    · have hneg : ¬ j - 1 < 0 := by omega
      simp only [hneg, if_false, hj, and_self, if_true, Option.bind_some]
      cases fields[(j - 1).toNat]? <;> rfl
    · by_cases hneg : j - 1 < 0
      · simp [hneg, hj]
      · have hout : fields[(j - 1).toNat]? = none := List.getElem?_eq_none_iff.mpr (by omega)
        simp only [hneg, if_false, hj, hout, Option.bind_none]
  | columnName name =>
    simp only [SqlResult.columnIndex, resolve]
    cases hname : (nameToIndex fields).lookup name with
    | none => rfl
    | some i =>
      have hneg : ¬ ((i : Int) + 1 - 1 < 0) := by omega
      have hnat : ((i : Int) + 1 - 1).toNat = i := by omega
      simp only [SqlResult.typed, hneg, if_false, hnat, Option.bind_some]
      cases fields[i]? <;> rfl

/-! ## What a getter shows of a row -/

/-- The memory of the binds as `makeResultBind` leaves it. -/
def Fresh (fields : List ColumnMeta) (resBind : List Bind) : Prop :=
  List.Forall₂ (fun field bind => NewBind (makeResultBind field) bind) fields resBind

section

variable (lib : CLib) {fields : List ColumnMeta}

/-- `r` is what the getter shows after the last of the rows has been fetched. -/
def PreparedResult.Shows (rows : List (ResultRow fields)) (getter : Getter) (ref : ColumnRef)
    (r : Read) : Prop :=
  ∀ resBind, Fresh fields resBind →
    get lib fields ((rows.map ResultRow.binary).foldl next resBind) getter ref = r

/-- The same of `SqlResult`, where `next` replaces the row. -/
def SqlResult.Shows (rows : List (ResultRow fields)) (getter : Getter) (ref : ColumnRef)
    (r : Read) : Prop :=
  get lib fields ((rows.map ResultRow.text).foldl (fun _ row => row) []) getter ref = r

def ResultRow.IsNull (row : ResultRow fields) (ref : ColumnRef) : Prop :=
  ∃ i, resolve fields ref = some i ∧ row.cells[i]? = some none

/-- What is shown of a row depends on that row only, and a NULL cell is zero. -/
def OwnRow (shows : List (ResultRow fields) → Getter → ColumnRef → Read → Prop)
    (row : ResultRow fields) (getter : Getter) (ref : ColumnRef) : Prop :=
  ∃ r, r ≠ .undefined ∧ (row.IsNull ref → r = .value getter.zero) ∧
    ∀ earlier, shows (earlier ++ [row]) getter ref r

end

/-- How many bytes a getter takes from a buffer into which `len` have been
fetched. -/
def Getter.width (len : Nat) : Getter → Nat
  | .getInt => 4
  | .getLong => 8
  | .getFloat => 4
  | .getDouble => 8
  | .getString => len % 2 ^ 32
  | .getTime => 32

def Getter.recognises : Getter → ColumnType → Bool
  | .getInt => Result.isInt
  | .getLong => Result.isLong
  | .getFloat => Result.isFloat
  | .getDouble => Result.isDouble
  | .getString => Result.isString
  | .getTime => Result.isTime

variable {lib : CLib} {fields : List ColumnMeta}

/-! ## PreparedResult -/

theorem newBind_fetchCell {bufsize : Int} {bind : Bind} (h : NewBind bufsize bind)
    (cell : Option Str) : NewBind bufsize (fetchCell bind cell) := by
  cases cell with
  | none => exact h
  | some bytes =>
    unfold NewBind at h ⊢
    by_cases hneg : bufsize < 0
    · rw [if_pos hneg] at h ⊢
      simp [fetchCell, h]
    · rw [if_neg hneg] at h ⊢
      obtain ⟨memory, hbuf, hlen⟩ := h
      refine ⟨bytes.take memory.length ++ memory.drop bytes.length, by simp [fetchCell, hbuf], ?_⟩
      rw [← hlen]
      simp only [List.length_append, List.length_take, List.length_drop]
      omega

theorem fresh_next {resBind : List Bind} (h : Fresh fields resBind) (row : ResultRow fields) :
    Fresh fields (PreparedResult.next resBind row.binary) := by
  obtain ⟨cells, hlen⟩ := row
  unfold ResultRow.binary PreparedResult.next
  unfold Fresh at h ⊢
  induction h generalizing cells with
  | nil => simp
  | cons hbind _ ih =>
    cases cells with
    | nil => simp at hlen
    | cons cell cells =>
      exact .cons (newBind_fetchCell hbind _) (ih cells (by simpa using hlen))

theorem fresh_foldl {resBind : List Bind} (h : Fresh fields resBind)
    (rows : List (ResultRow fields)) :
    Fresh fields ((rows.map ResultRow.binary).foldl PreparedResult.next resBind) := by
  induction rows generalizing resBind with
  | nil => exact h
  | cons row rows ih => exact ih (fresh_next h row)

/-- The earlier rows leave memory like any other. -/
theorem prepared_shows_iff {row : ResultRow fields} {getter : Getter} {ref : ColumnRef} {r : Read} :
    (∀ earlier, PreparedResult.Shows lib (earlier ++ [row]) getter ref r) ↔
      PreparedResult.Shows lib [row] getter ref r := by
  constructor
  · exact fun h => h []
  · intro h earlier resBind hfresh
    rw [List.map_append, List.foldl_append]
    exact h _ (fresh_foldl hfresh earlier)

/-- The bind of a column after the row has been fetched. -/
theorem next_getElem? {resBind : List Bind} (h : Fresh fields resBind) (row : ResultRow fields)
    {i : Nat} (hi : i < fields.length) : ∃ field bind cell, fields[i]? = some field ∧
      resBind[i]? = some bind ∧ row.cells[i]? = some cell ∧ NewBind (makeResultBind field) bind ∧
      (PreparedResult.next resBind row.binary)[i]? =
        some (fetchCell bind (cell.map Cell.binary)) := by
  have hbind : i < resBind.length := by rw [← h.length_eq]; exact hi
  have hcell : i < row.cells.length := by rw [row.length_eq]; exact hi
  refine ⟨fields[i], resBind[i], row.cells[i], List.getElem?_eq_getElem hi,
    List.getElem?_eq_getElem hbind, List.getElem?_eq_getElem hcell, h.get hi hbind, ?_⟩
  simp [PreparedResult.next, ResultRow.binary, hbind, hcell]

/-- A getter on the bytes behind the pointer. -/
def PreparedResult.decode (lib : CLib) : Getter → Str → Value
  | .getInt => decodeInt
  | .getLong => decodeLong
  | .getFloat => decodeFloat
  | .getDouble => decodeDouble
  | .getString => .string
  | .getTime => decodeTime lib

theorem prepared_get_none (resBind : List Bind) (hlen : resBind.length = fields.length)
    (getter : Getter) {ref : ColumnRef} (hres : resolve fields ref = none) :
    PreparedResult.get lib fields resBind getter ref = .value getter.zero := by
  unfold PreparedResult.get
  rw [getRes_resolve hlen, hres]
  cases getter <;> rfl

/-- `size` bytes behind a pointer to `data`. -/
def PreparedResult.load (lib : CLib) (getter : Getter) (size : Nat) (data : Str) : Read :=
  if size ≤ data.length then .value (decode lib getter (data.take size)) else .undefined

theorem prepared_get_some {resBind : List Bind} (hlen : resBind.length = fields.length)
    (getter : Getter) {ref : ColumnRef} {i : Nat} {bind : Bind}
    (hres : resolve fields ref = some i) (hbind : resBind[i]? = some bind) :
    PreparedResult.get lib fields resBind getter ref =
      match bind.buffer with
      | none => .value getter.zero
      | some data => PreparedResult.load lib getter (getter.width bind.length) data := by
  unfold PreparedResult.get
  rw [getRes_resolve hlen, hres]
  simp only [getResAt_nat, hbind]
  cases hbuf : bind.buffer with
  | none => cases getter <;> rfl
  | some data => cases getter <;> rfl

/-- The getter finds every byte it takes among those the cell has put into the
buffer, or there is no buffer. -/
def PreparedResult.OwnBytes (field : ColumnMeta) (getter : Getter) (cell : Option Cell) : Prop :=
  makeResultBind field < 0 ∨ ∃ c, cell = some c ∧
    getter.width c.binary.length ≤ c.binary.length ∧
    (getter.width c.binary.length : Int) ≤ makeResultBind field

/-- Memory of `n` bytes that are zero but for the last one that is taken. -/
def memory (last : Char) (w n : Nat) : Str :=
  if w ≤ n then List.replicate (w - 1) (byte 0) ++ last :: List.replicate (n - w) (byte 0)
  else List.replicate n (byte 0)

theorem length_memory (last : Char) {w : Nat} (hw : 0 < w) (n : Nat) :
    (memory last w n).length = n := by
  unfold memory
  split
  · simp only [List.length_append, List.length_replicate, List.length_cons]
    omega
  · simp

/-- Binds with such memory. -/
def staleBinds (fields : List ColumnMeta) (last : Char) (w len : Nat) : List Bind :=
  fields.map fun field =>
    { buffer := if makeResultBind field < 0 then none
        else some (memory last w (makeResultBind field).toNat)
      length := len }

theorem fresh_staleBinds (fields : List ColumnMeta) (last : Char) {w : Nat} (hw : 0 < w)
    (len : Nat) :
    Fresh fields (staleBinds fields last w len) := by
  unfold Fresh staleBinds
  rw [List.forall₂_map_right_iff]
  refine List.forall₂_same.mpr fun field _ => ?_
  unfold NewBind
  by_cases hneg : makeResultBind field < 0
  · simp [hneg]
  · simp only [hneg, if_false]
    refine ⟨_, rfl, ?_⟩
    rw [length_memory last hw]
    omega

/-- What is taken from such memory behind the bytes of a cell that is too short. -/
theorem take_stale {bytes : Str} {w n : Nat} (hbytes : bytes.length < w) (hn : w ≤ n) :
    ∃ pre : Str, pre.length + 1 = w ∧ ∀ last,
      (bytes.take n ++ (memory last w n).drop bytes.length).take w = pre ++ [last] := by
  refine ⟨bytes ++ List.replicate (w - 1 - bytes.length) (byte 0), ?_, ?_⟩
  · simp only [List.length_append, List.length_replicate]
    omega
  · intro last
    have hall : bytes.take n = bytes := List.take_of_length_le (by omega)
    have hdrop : (memory last w n).drop bytes.length =
        List.replicate (w - 1 - bytes.length) (byte 0) ++
          last :: List.replicate (n - w) (byte 0) := by
      have hle : bytes.length ≤ w - 1 := by omega
      rw [memory, if_pos hn, List.drop_append_of_le_length (by simpa using hle),
        List.drop_replicate]
    have hlen : bytes.length + (w - 1 - bytes.length) + 1 = w := by omega
    rw [hall, hdrop, ← List.append_assoc]
    have hpre : (bytes ++ List.replicate (w - 1 - bytes.length) (byte 0) ++ [last]).length = w := by
      simp only [List.length_append, List.length_replicate, List.length_cons, List.length_nil]
      omega
    rw [List.append_cons, List.take_left' hpre]

theorem ofBytes_last (pre : Str) (n : Nat) :
    ofBytes (pre ++ [byte n]) = ofBytes pre + 256 ^ pre.length * (n % 256) := by
  simp [ofBytes_append, ofBytes, uchar_byte]

theorem emod_of_bmod {a b : Int} {m : Nat} (h : a.bmod m = b.bmod m) : a % m = b % m := by
  rw [← Int.bmod_emod, h, Int.bmod_emod]

/-- The last of the 32 bytes belongs to `second_part`, which is added at the end. -/
theorem decodeTime_last (lib : CLib) {pre : Str} (hlen : pre.length = 31) :
    PreparedResult.decodeTime lib (pre ++ [byte 0]) ≠
      PreparedResult.decodeTime lib (pre ++ [byte 1]) := by
  have hmember (offset : Nat) (h : offset + 4 ≤ 31) (c : Char) :
      PreparedResult.member offset 4 (pre ++ [c]) = PreparedResult.member offset 4 pre := by
    have hrest : 4 ≤ (pre.drop offset).length := by
      simp only [List.length_drop]
      omega
    rw [PreparedResult.member, List.drop_append_of_le_length (by omega),
      List.take_append_of_le_length hrest]
    rfl
  have hpart (c : Char) :
      PreparedResult.member 24 8 (pre ++ [c]) = ofBytes (pre.drop 24 ++ [c]) := by
    have hrest : (pre.drop 24 ++ [c]).length ≤ 8 := by
      simp only [List.length_append, List.length_drop, List.length_cons, List.length_nil]
      omega
    rw [PreparedResult.member, List.drop_append_of_le_length (by omega),
      List.take_of_length_le hrest]
  have htm (c : Char) : (PreparedResult.decodeMysqlTime (pre ++ [c])).tm =
      (PreparedResult.decodeMysqlTime pre).tm := by
    simp only [MysqlTime.tm, PreparedResult.decodeMysqlTime, hmember 0 (by omega),
      hmember 4 (by omega), hmember 8 (by omega), hmember 12 (by omega), hmember 16 (by omega),
      hmember 20 (by omega)]
  intro heq
  have hsum := Value.timestamp.inj heq
  simp only [Timestamp.ofMysqlTime, htm] at hsum
  have hval := congrArg Int64.toInt ((Int64.add_right_inj _).mp hsum)
  have hdrop : (pre.drop 24).length = 7 := by
    simp only [List.length_drop]
    omega
  simp only [PreparedResult.decodeMysqlTime, hpart, Int64.toInt_ofNat', ofBytes_last, hdrop] at hval
  have hmod := emod_of_bmod hval
  have hlt := ofBytes_lt (pre.drop 24)
  rw [hdrop] at hlt
  simp only [Int64.size] at hmod
  omega

/-- The last byte taken shows in the value. -/
theorem decode_last (lib : CLib) {getter : Getter} (hstring : getter ≠ .getString) {len : Nat}
    {pre : Str}
    (hpre : pre.length + 1 = getter.width len) :
    PreparedResult.decode lib getter (pre ++ [byte 0]) ≠
      PreparedResult.decode lib getter (pre ++ [byte 1]) := by
  cases getter with
  | getInt =>
    have hlen : pre.length = 3 := by simp only [Getter.width] at hpre; omega
    intro heq
    have hval := congrArg Int32.toInt (Value.int.inj heq)
    simp only [Int32.toInt_ofInt, ofBytes_last, hlen] at hval
    have hmod := emod_of_bmod hval
    have hlt := ofBytes_lt pre
    rw [hlen] at hlt
    simp only [Int32.size] at hmod
    omega
  | getLong =>
    have hlen : pre.length = 7 := by simp only [Getter.width] at hpre; omega
    intro heq
    have hval := congrArg Int64.toInt (Value.long_long.inj heq)
    simp only [Int64.toInt_ofInt, ofBytes_last, hlen] at hval
    have hmod := emod_of_bmod hval
    have hlt := ofBytes_lt pre
    rw [hlen] at hlt
    simp only [Int64.size] at hmod
    omega
  | getFloat =>
    have hlen : pre.length = 3 := by simp only [Getter.width] at hpre; omega
    intro heq
    have hval := congrArg UInt32.toNat (Value.float.inj heq)
    simp only [UInt32.toNat_ofNat', ofBytes_last, hlen] at hval
    have hlt := ofBytes_lt pre
    rw [hlen] at hlt
    omega
  | getDouble =>
    have hlen : pre.length = 7 := by simp only [Getter.width] at hpre; omega
    intro heq
    have hval := congrArg UInt64.toNat (Value.double.inj heq)
    simp only [UInt64.toNat_ofNat', ofBytes_last, hlen] at hval
    have hlt := ofBytes_lt pre
    rw [hlen] at hlt
    omega
  | getString => exact absurd rfl hstring
  | getTime =>
    have hlen : pre.length = 31 := by simp only [Getter.width] at hpre; omega
    exact decodeTime_last lib hlen

def fetchedBytes (cell : Option Cell) : Str := (cell.map Cell.binary).getD []

/-- The length behind a fetch, where `old` was stored before. -/
def fetchedLength (old : Nat) (cell : Option Cell) : Nat :=
  (cell.map fun c => c.binary.length).getD old

/-- The buffer behind a fetch. -/
def fetchedInto (memory : Str) (cell : Option Cell) : Str :=
  (fetchedBytes cell).take memory.length ++ memory.drop (fetchedBytes cell).length

theorem length_fetchedInto (memory : Str) (cell : Option Cell) :
    (fetchedInto memory cell).length = memory.length := by
  simp only [fetchedInto, List.length_append, List.length_take, List.length_drop]
  omega

/-- What a getter shows of a row fetched into a buffer. -/
theorem prepared_get_next {resBind : List Bind} (hfresh : Fresh fields resBind)
    (row : ResultRow fields) (getter : Getter) {ref : ColumnRef} {i : Nat}
    (hres : resolve fields ref = some i) {cell : Option Cell} (hcell : row.cells[i]? = some cell)
    {bind : Bind} (hbind : resBind[i]? = some bind) :
    PreparedResult.get lib fields (PreparedResult.next resBind row.binary) getter ref =
      match bind.buffer with
      | none => .value getter.zero
      | some memory => PreparedResult.load lib getter
          (getter.width (fetchedLength bind.length cell)) (fetchedInto memory cell) := by
  obtain ⟨-, bind', cell', -, hbind', hcell', -, hnext⟩ :=
    next_getElem? hfresh row (resolve_lt hres)
  rw [hbind] at hbind'
  rw [hcell] at hcell'
  obtain rfl := Option.some.inj hbind'
  obtain rfl := Option.some.inj hcell'
  rw [prepared_get_some (fresh_next hfresh row).length_eq.symm getter hres hnext]
  cases hbuf : bind.buffer with
  | none => cases cell <;> simp [fetchCell, hbuf]
  | some memory =>
    cases cell <;> simp [fetchCell, hbuf, fetchedLength, fetchedBytes, fetchedInto]

theorem load_own {memory : Str} {c : Cell} {getter : Getter} {w : Nat} (hown : w ≤ c.binary.length)
    (hroom : w ≤ memory.length) : PreparedResult.load lib getter w (fetchedInto memory (some c)) =
      .value (PreparedResult.decode lib getter (c.binary.take w)) := by
  have hsize : w ≤ (fetchedInto memory (some c)).length := by
    rw [length_fetchedInto]
    exact hroom
  have htake : (fetchedInto memory (some c)).take w = c.binary.take w := by
    have hfit : w ≤ (c.binary.take memory.length).length := by
      simp only [List.length_take]
      omega
    rw [fetchedInto, fetchedBytes, Option.map_some, Option.getD_some,
      List.take_append_of_le_length hfit, List.take_take, Nat.min_eq_left hroom]
  rw [PreparedResult.load, if_pos hsize, htake]

theorem load_outside {memory : Str} {cell : Option Cell} {getter : Getter} {w : Nat}
    (hroom : memory.length < w) :
    PreparedResult.load lib getter w (fetchedInto memory cell) = .undefined := by
  rw [PreparedResult.load, if_neg]
  rw [length_fetchedInto]
  omega

/-- Two memories that show through a cell too short for the getter. -/
theorem load_stale {getter : Getter} (hstring : getter ≠ .getString) {cell : Option Cell}
    {len w n : Nat}
    (hw : w = getter.width len) (hshort : (fetchedBytes cell).length < w) (hroom : w ≤ n) :
    PreparedResult.load lib getter w (fetchedInto (memory (byte 0) w n) cell) ≠
      PreparedResult.load lib getter w (fetchedInto (memory (byte 1) w n) cell) := by
  have hpos : 0 < w := by omega
  obtain ⟨pre, hpre, htake⟩ := take_stale hshort hroom
  have hload (c : Char) : PreparedResult.load lib getter w (fetchedInto (memory c w n) cell) =
      .value (PreparedResult.decode lib getter (pre ++ [c])) := by
    have hsize : w ≤ (fetchedInto (memory c w n) cell).length := by
      rw [length_fetchedInto, length_memory c hpos]
      exact hroom
    rw [PreparedResult.load, if_pos hsize, fetchedInto, length_memory c hpos, htake]
  rw [hload, hload]
  intro heq
  exact decode_last lib hstring (hpre.trans hw) (Read.value.inj heq)

theorem staleBinds_getElem? {i : Nat} {field : ColumnMeta} (hfield : fields[i]? = some field)
    (last : Char) (w len : Nat) (hneg : ¬ makeResultBind field < 0) :
    (staleBinds fields last w len)[i]? =
      some { buffer := some (memory last w (makeResultBind field).toNat), length := len } := by
  simp [staleBinds, hfield, hneg]

/-- For every column a reference names. -/
def OfColumn (row : ResultRow fields) (ref : ColumnRef) (P : ColumnMeta → Option Cell → Prop) :
    Prop :=
  ∀ i field cell, resolve fields ref = some i → fields[i]? = some field →
    row.cells[i]? = some cell → P field cell

theorem prepared_shows_own {row : ResultRow fields} {getter : Getter} {ref : ColumnRef} {r : Read}
    (hdefined : r ≠ .undefined) (hnull : row.IsNull ref → r = .value getter.zero)
    (hshows : PreparedResult.Shows lib [row] getter ref r) :
    OfColumn row ref fun field cell => PreparedResult.OwnBytes field getter cell := by
  intro i field cell hres hfield hcell
  by_contra hown
  simp only [PreparedResult.OwnBytes, not_or, not_exists, not_and] at hown
  obtain ⟨hneg, hbytes⟩ := hown
  have hstale (last : Char) {w : Nat} (hw : 0 < w) (len : Nat) :
      PreparedResult.load lib getter (getter.width (fetchedLength len cell))
        (fetchedInto (memory last w (makeResultBind field).toNat) cell) = r := by
    have hget := hshows _ (fresh_staleBinds fields last hw len)
    simp only [List.map_cons, List.map_nil, List.foldl_cons, List.foldl_nil] at hget
    rwa [prepared_get_next (fresh_staleBinds fields last hw len) row getter hres hcell
      (staleBinds_getElem? hfield last w len hneg)] at hget
  -- a getter that takes a byte of its own from the memory
  have hshort {w : Nat} (hstring : getter ≠ .getString)
      (hw : ∀ len, getter.width (fetchedLength len cell) = w)
      (hlt : (fetchedBytes cell).length < w) : False := by
    have hpos : 0 < w := by omega
    have hzero := hstale (byte 0) hpos 0
    have hone := hstale (byte 1) hpos 0
    rw [hw] at hzero hone
    by_cases hroom : w ≤ (makeResultBind field).toNat
    · exact load_stale hstring (hw 0).symm hlt hroom (hzero.trans hone.symm)
    · rw [load_outside (by rw [length_memory _ hpos]; omega)] at hzero
      exact hdefined hzero.symm
  cases cell with
  | none =>
    by_cases hstring : getter = .getString
    · -- the length that an earlier row has left
      subst hstring
      have hnone := hstale (byte 0) Nat.one_pos 0
      have hone := hstale (byte 0) Nat.one_pos 1
      have hempty : r = .value (.string []) := hnull ⟨i, hres, hcell⟩
      rw [hempty] at hone
      simp only [fetchedLength, Getter.width, Option.map_none, Option.getD_none,
        PreparedResult.load,
        length_fetchedInto, length_memory _ Nat.one_pos] at hone
      split at hone
      · rename_i hroom
        have hlen := congrArg (fun s => match s with | .value (.string s) => s.length | _ => 0) hone
        simp only [PreparedResult.decode, List.length_take, length_fetchedInto,
          length_memory _ Nat.one_pos, List.length_nil] at hlen
        omega
      · cases hone
    · have hwidth : ∀ len, getter.width (fetchedLength len none) = getter.width 0 := by
        intro len
        cases getter <;> first | rfl | exact absurd rfl hstring
      apply hshort hstring hwidth
      cases getter <;> first | (simp [fetchedBytes, Getter.width]; done) | exact absurd rfl hstring
  | some c =>
    by_cases hle : getter.width c.binary.length ≤ c.binary.length
    · have hroom := hbytes c rfl hle
      have hread := hstale (byte 0) Nat.one_pos 0
      rw [show fetchedLength 0 (some c) = c.binary.length from rfl, load_outside] at hread
      · exact hdefined hread.symm
      · rw [length_memory _ Nat.one_pos]
        omega
    · have hstring : getter ≠ .getString := by
        rintro rfl
        exact hle (Nat.mod_le _ _)
      exact hshort hstring (fun _ => rfl) (Nat.lt_of_not_le hle)

/-- What is shown of a cell whose bytes suffice. -/
def PreparedResult.ownRead (lib : CLib) (field : ColumnMeta) (getter : Getter) (c : Cell) : Read :=
  if makeResultBind field < 0 then .value getter.zero
  else .value (decode lib getter (c.binary.take (getter.width c.binary.length)))

theorem prepared_shows_ownRead {row : ResultRow fields} {getter : Getter} {ref : ColumnRef}
    {i : Nat}
    {field : ColumnMeta} {cell : Option Cell} (hres : resolve fields ref = some i)
    (hfield : fields[i]? = some field) (hcell : row.cells[i]? = some cell)
    (hown : PreparedResult.OwnBytes field getter cell) :
    PreparedResult.Shows lib [row] getter ref
      ((cell.map (PreparedResult.ownRead lib field getter)).getD (.value getter.zero)) := by
  intro resBind hfresh
  obtain ⟨field', bind, -, hfield', hbind, -, hnew, -⟩ := next_getElem? hfresh row (resolve_lt hres)
  obtain rfl := Option.some.inj (hfield.symm.trans hfield')
  rw [List.map_singleton, List.foldl_cons, List.foldl_nil,
    prepared_get_next hfresh row getter hres hcell hbind]
  by_cases hneg : makeResultBind field < 0
  · rw [NewBind, if_pos hneg] at hnew
    cases cell <;> simp [hnew, PreparedResult.ownRead, hneg]
  · obtain ⟨c, rfl, hbytes, hroom⟩ := hown.resolve_left hneg
    rw [NewBind, if_neg hneg] at hnew
    obtain ⟨memory, hbuf, hlen⟩ := hnew
    have hfit : getter.width c.binary.length ≤ memory.length := by omega
    have hload : PreparedResult.load lib getter _ (fetchedInto memory (some c)) = _ :=
      load_own hbytes hfit
    simp only [hbuf, fetchedLength, Option.map_some, Option.getD_some, hload,
      PreparedResult.ownRead, if_neg hneg]

/-- A reference that names a column names a cell. -/
theorem resolve_cell (row : ResultRow fields) {ref : ColumnRef} {i : Nat}
    (hres : resolve fields ref = some i) :
    ∃ field cell, fields[i]? = some field ∧ row.cells[i]? = some cell ∧
      (row.IsNull ref ↔ cell = none) ∧ ∀ P, OfColumn row ref P ↔ P field cell := by
  have hlt : i < fields.length := resolve_lt hres
  have hcells : i < row.cells.length := by rw [row.length_eq]; exact hlt
  have hfield : fields[i]? = some fields[i] := List.getElem?_eq_getElem hlt
  have hcell : row.cells[i]? = some row.cells[i] := List.getElem?_eq_getElem hcells
  refine ⟨_, _, hfield, hcell, ?_, fun P => ?_⟩
  · simp [ResultRow.IsNull, hres, hcell]
  · simp only [OfColumn, hres, Option.some.injEq]
    refine ⟨fun h => h i _ _ rfl hfield hcell, ?_⟩
    rintro hP _ _ _ rfl hfield' hcell'
    obtain rfl := Option.some.inj (hfield.symm.trans hfield')
    obtain rfl := Option.some.inj (hcell.symm.trans hcell')
    exact hP

theorem prepared_ownRow_iff (row : ResultRow fields) (getter : Getter) (ref : ColumnRef) :
    OwnRow (PreparedResult.Shows lib) row getter ref ↔
      OfColumn row ref fun field cell => PreparedResult.OwnBytes field getter cell := by
  constructor
  · rintro ⟨r, hdefined, hnull, hshows⟩
    exact prepared_shows_own hdefined hnull (hshows [])
  · intro hown
    cases hres : resolve fields ref with
    | none =>
      refine ⟨.value getter.zero, by simp, fun _ => rfl, prepared_shows_iff.mpr ?_⟩
      intro resBind hfresh
      exact prepared_get_none _ (fresh_foldl hfresh [row]).length_eq.symm getter hres
    | some i =>
      obtain ⟨field, cell, hfield, hcell, hnull, hof⟩ := resolve_cell row hres
      refine ⟨_, ?_, fun h => ?_, prepared_shows_iff.mpr
        (prepared_shows_ownRead hres hfield hcell ((hof _).mp hown))⟩
      · cases cell with
        | none => simp
        | some c =>
          simp only [Option.map_some, Option.getD_some, PreparedResult.ownRead]
          split <;> simp
      · rw [hnull.mp h]
        rfl

/-! ## SqlResult -/

/-- `SqlResult` shows one row and nothing before it. -/
theorem sql_shows_append (earlier : List (ResultRow fields)) (row : ResultRow fields)
    (getter : Getter) (ref : ColumnRef) (r : Read) :
    SqlResult.Shows lib (earlier ++ [row]) getter ref r ↔
      SqlResult.get lib fields row.text getter ref = r := by
  simp [SqlResult.Shows]

/-- What a getter reads of a cell, recognised or not. -/
def SqlResult.read (lib : CLib) : Getter → Option Str → Read
  | .getInt => nonNull fun s => .int (atoi s)
  | .getLong => nonNull fun s => .long_long (atol s)
  | .getFloat => nonNull fun s => .float (lib.toFloat (lib.atof s))
  | .getDouble => nonNull fun s => .double (lib.atof s)
  | .getString => fun
    | none => .value (.string [])
    | some text => .value (.string (cstring text))
  | .getTime => fun
    | none => .undefined
    | some text =>
      match Timestamp.ofString lib (cstring text) with
      | some t => .value (.timestamp t)
      | none => .throws

theorem sql_get_resolve (row : ResultRow fields) (getter : Getter) (ref : ColumnRef) :
    SqlResult.get lib fields row.text getter ref =
      match (resolve fields ref).bind (fun i => fields[i]?.map fun field => (i, field)) with
      | none => .value getter.zero
      | some (i, field) =>
        if getter.recognises field.type then SqlResult.read lib getter (row.text[i]?.getD none)
        else .value getter.zero := by
  have hget : SqlResult.get lib fields row.text getter ref =
      SqlResult.typed getter.recognises getter.zero (SqlResult.read lib getter) fields row.text
        (SqlResult.columnIndex fields ref) := by
    cases getter <;> rfl
  rw [hget, typed_resolve]

/-- The cell is one the getter may read. -/
def SqlResult.OwnText (field : ColumnMeta) (getter : Getter) (cell : Option Cell) : Prop :=
  getter.recognises field.type = false ∨ getter = .getString ∨ cell ≠ none

theorem read_defined_iff (getter : Getter) (cell : Option Cell) :
    SqlResult.read lib getter (cell.map Cell.text) ≠ .undefined ↔
      getter = .getString ∨ cell ≠ none := by
  cases cell with
  | none => cases getter <;> simp [SqlResult.read, SqlResult.nonNull]
  | some c =>
    have htime : (SqlResult.read lib .getTime (some c.text)) ≠ .undefined := by
      simp only [SqlResult.read]
      split <;> simp
    cases getter <;> first | (simp [SqlResult.read, SqlResult.nonNull]; done) | simpa using htime

theorem sql_ownRow_iff (row : ResultRow fields) (getter : Getter) (ref : ColumnRef) :
    OwnRow (SqlResult.Shows lib) row getter ref ↔
      OfColumn row ref fun field cell => SqlResult.OwnText field getter cell := by
  simp only [OwnRow, sql_shows_append, sql_get_resolve]
  cases hres : resolve fields ref with
  | none => simp [OfColumn, ResultRow.IsNull, hres]
  | some i =>
    obtain ⟨field, cell, hfield, hcell, hnull, hof⟩ := resolve_cell row hres
    have htext : row.text[i]?.getD none = cell.map Cell.text := by
      simp [ResultRow.text, hcell]
    have hdefined : SqlResult.read lib getter (cell.map Cell.text) ≠ .undefined ↔ _ :=
      read_defined_iff getter cell
    have hzero : cell = none → getter = .getString →
        SqlResult.read lib getter (cell.map Cell.text) = .value getter.zero := by
      rintro rfl rfl
      rfl
    simp only [Option.bind_some, hfield, Option.map_some, htext, hnull, hof, SqlResult.OwnText]
    by_cases hrec : getter.recognises field.type = true
    · simp only [hrec, if_true, Bool.true_eq_false, false_or, ← hdefined, forall_const]
      refine ⟨fun ⟨r, hr, _, heq⟩ => heq ▸ hr, fun h => ⟨_, h, fun hcell => ?_, rfl⟩⟩
      exact hzero hcell ((hdefined.mp h).resolve_right (not_not_intro hcell))
    · simp [hrec]

/-! ## Both -/

def sampleIntColumn : List ColumnMeta :=
  [{ name := "age".toList, length := 11, type := .MYSQL_TYPE_LONG }]

def sampleFive : ResultRow sampleIntColumn where
  cells := [some { binary := toBytes 4 5, text := "5".toList }]
  length_eq := rfl

def sampleNull : ResultRow sampleIntColumn where
  cells := [none]
  length_eq := rfl

/-- What `newBind` returned before the first row. -/
def sampleBinds : List Bind := [{ buffer := some (toBytes 4 0), length := 0 }]

/-- The NULL behind the row with a five reads as five. -/
theorem null_shows_five (lib : CLib) : PreparedResult.get lib sampleIntColumn
    (([sampleFive, sampleNull].map ResultRow.binary).foldl PreparedResult.next sampleBinds)
    .getInt (.columnIndex 1) = .value (.int 5) := by
  rfl

end TinyOrm
