import Mathlib.Data.List.AList
import Mathlib.Data.Finset.Card
import TinyOrm.Naming
set_option autoImplicit false

/-!
Index and column descriptions (datatype.h).

An `std::unordered_map` is an association list without repeated keys; the order
of its entries is the order an iteration happens to take.
-/

namespace TinyOrm

/-- `other` is a value read from a file that names no enumerator. -/
inductive IndexType where
  | INDEX_TYPE_UNI
  | INDEX_TYPE_MUL
  | INDEX_TYPE_PRI
  | other (code : Int)
  deriving DecidableEq, Repr

def IndexType.code : IndexType → Int
  | .INDEX_TYPE_UNI => 0
  | .INDEX_TYPE_MUL => 1
  | .INDEX_TYPE_PRI => 2
  | .other code => code

/-- `(Index::IndexType)type`. -/
def IndexType.ofCode (code : Int) : IndexType :=
  if code = 0 then .INDEX_TYPE_UNI
  else if code = 1 then .INDEX_TYPE_MUL
  else if code = 2 then .INDEX_TYPE_PRI
  else .other code

def IndexType.Declared : IndexType → Prop
  | .other _ => False
  | _ => True

instance (type : IndexType) : Decidable type.Declared := by
  cases type <;> unfold IndexType.Declared <;> infer_instance

structure Index where
  type : IndexType
  name : Str
  columns : List Str
  deriving DecidableEq, Repr

/-- `Index::operator==`: the set of the columns of both sides has as many
elements as either side has columns. -/
def Index.eq (index1 index2 : Index) : Bool :=
  if index1.name ≠ index2.name ∨ index1.type ≠ index2.type then false
  else
    let s := (index1.columns ++ index2.columns).toFinset
    if s.card ≠ index1.columns.length ∨ s.card ≠ index2.columns.length then false else true

abbrev Indices := AList fun _ : Str => Index

abbrev NameToIndex := AList fun _ : Str => Nat

/-- A column description. A default-constructed one leaves `offset` and the
type of `index` unset; no modelled function reads them before they are set. -/
structure FieldMeta where
  fieldName : Str := []
  cppType : Str := []
  columnType : Option Str := none
  columnName : Option Str := none
  extra : Str := []
  isPk : Bool := false
  autoInc : Bool := false
  hasIndex : Bool := false
  notNull : Bool := false
  default_ : Str := []
  index : Index := ⟨.INDEX_TYPE_UNI, [], []⟩
  offset : Int := 0
  ignore : Bool := false
  deriving DecidableEq, Repr

def FieldMeta.getColumnName (field : FieldMeta) : Str :=
  field.columnName.getD (cppToDb field.fieldName)

def FieldMeta.getColumnType (conf : Config) (field : FieldMeta) : Str :=
  field.columnType.getD (cppTypeToDbType conf field.cppType)

/-- `FieldMeta::operator==`; `none` when it asks `isSame` for an undefined
result. -/
def FieldMeta.eq (conf : Config) (field1 field2 : FieldMeta) : Option Bool :=
  if field1.getColumnName ≠ field2.getColumnName then some false
  else if field1.notNull ≠ field2.notNull then some false
  else if field1.extra ≠ field2.extra then some false
  else do
    let same ← isSame field1.default_ field2.default_
    if !same then some false
    else some (isSameDbType conf (field1.getColumnType conf) (field2.getColumnType conf))

/-- What the move constructor leaves behind: the strings empty, the optionals
and the index exchanged with those of a fresh object. -/
def FieldMeta.movedFrom (field : FieldMeta) : FieldMeta :=
  { field with
    fieldName := [], cppType := [], default_ := [], extra := [],
    columnName := none, columnType := none,
    index := { field.index with name := [], columns := [] } }

theorem Index.eq_self {index : Index} (h : index.columns.Nodup) : index.eq index = true := by
  simp [Index.eq, List.toFinset_card_of_nodup h]

theorem Index.eq_name_type {index1 index2 : Index} (h : index1.eq index2 = true) :
    index1.name = index2.name ∧ index1.type = index2.type := by
  unfold Index.eq at h
  by_cases hne : index1.name ≠ index2.name ∨ index1.type ≠ index2.type
  · simp [hne] at h
  · simpa only [ne_eq, not_or, not_not] using hne

/-- Equal but for the default and the type. -/
def FieldMeta.Alike (field1 field2 : FieldMeta) : Prop :=
  field1.getColumnName = field2.getColumnName ∧ field1.notNull = field2.notNull ∧
    field1.extra = field2.extra

theorem FieldMeta.eq_of_alike (conf : Config) {field1 field2 : FieldMeta}
    (h : field1.Alike field2) :
    FieldMeta.eq conf field1 field2 = (isSame field1.default_ field2.default_).map
      (· && isSameDbType conf (field1.getColumnType conf) (field2.getColumnType conf)) := by
  obtain ⟨hname, hnull, hextra⟩ := h
  cases hsame : isSame field1.default_ field2.default_ with
  | none => simp [FieldMeta.eq, hname, hnull, hextra, hsame]
  | some same => cases same <;> simp [FieldMeta.eq, hname, hnull, hextra, hsame]

theorem FieldMeta.eq_of_not_alike (conf : Config) {field1 field2 : FieldMeta}
    (h : ¬ field1.Alike field2) : FieldMeta.eq conf field1 field2 = some false := by
  unfold FieldMeta.eq
  split
  · rfl
  · split
    · rfl
    · split
      · rfl
      · rename_i hname hnull hextra
        simp only [ne_eq, not_not] at hname hnull hextra
        exact absurd ⟨hname, hnull, hextra⟩ h

theorem FieldMeta.eq_true_iff {conf : Config} {field1 field2 : FieldMeta} :
    FieldMeta.eq conf field1 field2 = some true ↔ field1.Alike field2 ∧
      isSame field1.default_ field2.default_ = some true ∧
      isSameDbType conf (field1.getColumnType conf) (field2.getColumnType conf) = true := by
  by_cases halike : field1.Alike field2
  · rw [FieldMeta.eq_of_alike conf halike]
    cases isSame field1.default_ field2.default_ <;> simp [halike]
  · simp [FieldMeta.eq_of_not_alike conf halike, halike]

/-- A column compares equal to every column recorded with the same attributes. -/
theorem FieldMeta.eq_of_same (conf : Config) {field1 field2 : FieldMeta}
    (hname : field1.getColumnName = field2.getColumnName)
    (hnull : field1.notNull = field2.notNull) (hextra : field1.extra = field2.extra)
    (hdefault : field1.default_ = field2.default_)
    (htype : field1.getColumnType conf = field2.getColumnType conf) :
    FieldMeta.eq conf field1 field2 = some true := by
  simp [FieldMeta.eq, hname, hnull, hextra, hdefault, htype, isSame_refl, isSameDbType_refl]

example :
    Index.eq ⟨.INDEX_TYPE_UNI, "uni".toList, ["a".toList, "b".toList]⟩
      ⟨.INDEX_TYPE_UNI, "uni".toList, ["b".toList, "a".toList]⟩ = true := by decide

end TinyOrm
