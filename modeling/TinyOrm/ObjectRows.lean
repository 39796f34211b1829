import TinyOrm.InsertRows
set_option autoImplicit false

/-!
What `Create` stores of an object, and what `fillObject` reads back from a row.
-/

namespace TinyOrm

/-! ## Objects of a class -/

/-- Values of a member by the type of its declaration. A `bool`, `short` or `char`
is the `int` it is promoted to. -/
def IsMember (cppType : Str) : Value → Prop
  | .int n => cppType = "int".toList ∨ (cppType = "bool".toList ∧ (n = 0 ∨ n = 1)) ∨
      (cppType = "short".toList ∧ -2 ^ 15 ≤ n.toInt ∧ n.toInt < 2 ^ 15) ∨
      (cppType = "char".toList ∧ -2 ^ 7 ≤ n.toInt ∧ n.toInt < 2 ^ 7)
  | .long_long _ => cppType = "long long".toList
  | .float _ => cppType = "float".toList
  | .double _ => cppType = "double".toList
  | .string _ => cppType = "string".toList ∨ cppType = "std::string".toList
  | .timestamp _ => cppType = "Timestamp".toList
  | .const_str _ => False

def memberTypes : List Str := rulesJson.default_types.map Prod.fst

/-- A model as its constructor leaves it. -/
structure ClassModel where
  model : Model
  connected : model.conn.isSome
  types : ∀ field ∈ model.metadata, field.cppType ∈ memberTypes
  columnToIndex : model.columnToIndex = fillColumnToIndex model.metadata 0 ∅

/-- A value for every member. -/
abbrev ClassModel.Object (c : ClassModel) :=
  { t : Obj // List.Forall₂ (fun field val => IsMember field.cppType val) c.model.metadata t }

/-! ## What should be read back -/

/-- The getter of the member's type finds the value. A row has no getter that
`fillObject` would call for the other types. -/
def Row.Holds (rs : Row) (col : Str) : Value → Prop
  | .int n => rs.getInt col = n
  | .string s => rs.getString col = s
  | .timestamp us => rs.getTime col = us
  | _ => True

def Sym.word? : Sym → Option Str
  | .word s => some s
  | .ch _ => none

/-- The words between the first parentheses of a statement. -/
def printedColumns (sql : Sql) : List Str :=
  ((sql.dropWhile (· ≠ .ch '(')).takeWhile (· ≠ .ch ')')).filterMap Sym.word?

/-- Each placeholder is bound to the member whose column stands at its position, and
a row of these values sets the members of its columns back to them. -/
structure ClassModel.RoundTrips (c : ClassModel) : Prop where
  binds : ∀ t : c.Object, ∃ stmt, (c.model.Create t.1).sent = some stmt ∧
    placeholders stmt.sql = (storedMembers c.model.metadata t.1).length ∧
    ∀ k < placeholders stmt.sql, ∃ field val,
      (storedMembers c.model.metadata t.1)[k]? = some (field, val) ∧
      (printedColumns stmt.sql)[k]? = some field.getColumnName ∧
      stmt.paramBind[k]? = some (some val.param)
  fills : ∀ (t t' : c.Object) (rs : Row) (cols : List Str),
    (∀ p ∈ storedMembers c.model.metadata t.1, rs.Holds p.1.getColumnName p.2) →
    (∀ col ∈ cols, col ∈ Model.insertColumns c.model.metadata) →
    ∀ (i : Nat) (field : FieldMeta) (val old : Value), c.model.metadata[i]? = some field →
      t.1[i]? = some val → t'.1[i]? = some old →
      (c.model.fillObject t'.1 rs cols)[i]? =
        some (if field.ignore = false ∧ field.getColumnName ∈ cols then val else old)

/-- The types that both loops have a branch for. -/
def dispatchedTypes : List Str :=
  ["int".toList, "string".toList, "std::string".toList, "Timestamp".toList]

structure ClassModel.Storable (c : ClassModel) : Prop where
  names : ∀ name ∈ c.model.getTableName :: Model.insertColumns c.model.metadata, '?' ∉ name
  types : ∀ field ∈ c.model.metadata, field.ignore = false → field.cppType ∈ dispatchedTypes
  last : c.model.metadata.Pairwise fun field later =>
    field.ignore = false → field.getColumnName ≠ later.getColumnName

/-! ## The index of a column -/

theorem lookup_fillColumnToIndex (fields : List FieldMeta) (i : Nat) (acc : NameToIndex)
    (name : Str) :
    (∃ (j : Nat) (field : FieldMeta), fields[j]? = some field ∧ field.getColumnName = name ∧
      (fillColumnToIndex fields i acc).lookup name = some (i + j) ∧
      ∀ (k : Nat) (later : FieldMeta), j < k → fields[k]? = some later →
        later.getColumnName ≠ name) ∨
    ((∀ field ∈ fields, field.getColumnName ≠ name) ∧
      (fillColumnToIndex fields i acc).lookup name = acc.lookup name) := by
  induction fields generalizing i acc with
  | nil => exact .inr ⟨by simp, rfl⟩
  | cons field fields ih =>
    rw [fillColumnToIndex]
    rcases ih (i + 1) (acc.insert field.getColumnName i) with
      ⟨j, found, hget, hname, hlookup, hlater⟩ | ⟨hnone, hlookup⟩
    · refine .inl ⟨j + 1, found, hget, hname, ?_, fun k later hk hlate => ?_⟩
      · rw [hlookup]
        congr 1
        omega
      · obtain ⟨k, rfl⟩ : ∃ n, k = n + 1 := ⟨k - 1, by omega⟩
        exact hlater k later (by omega) hlate
    · rw [hlookup]
      by_cases hname : field.getColumnName = name
      · refine .inl ⟨0, field, rfl, hname, by simp [hname], fun k later hk hlate => ?_⟩
        obtain ⟨k, rfl⟩ : ∃ n, k = n + 1 := ⟨k - 1, by omega⟩
        exact hnone later (List.mem_of_getElem? hlate)
      · refine .inr ⟨?_, by rw [AList.lookup_insert_ne (Ne.symm hname)]⟩
        simpa [hname] using hnone

namespace ClassModel

variable {c : ClassModel}

theorem length_object (t : c.Object) : t.1.length = c.model.metadata.length :=
  t.2.length_eq.symm

theorem isMember_of_getElem (t : c.Object) {i : Nat} {field : FieldMeta} {val : Value}
    (hfield : c.model.metadata[i]? = some field) (hval : t.1[i]? = some val) :
    IsMember field.cppType val := by
  obtain ⟨hlt, hget⟩ := List.getElem?_eq_some_iff.mp hfield
  obtain ⟨hlt', hget'⟩ := List.getElem?_eq_some_iff.mp hval
  have hmember := (List.forall₂_iff_get.mp t.2).2 i hlt hlt'
  rw [List.get_eq_getElem, List.get_eq_getElem, hget, hget'] at hmember
  exact hmember

theorem storedMembers_eq (fields : List FieldMeta) (t : Obj) :
    storedMembers fields t = (fields.zip t).filter (!·.1.ignore) := by
  induction fields generalizing t with
  | nil => rfl
  | cons field fields ih =>
    cases t with
    | nil => rfl
    | cons val vals => cases hignore : field.ignore <;> simp [storedMembers, hignore, ih]

theorem mem_storedMembers {fields : List FieldMeta} {t : Obj} {p : FieldMeta × Value} :
    p ∈ storedMembers fields t ↔
      ∃ i : Nat, fields[i]? = some p.1 ∧ t[i]? = some p.2 ∧ p.1.ignore = false := by
  rw [storedMembers_eq, List.mem_filter, List.mem_iff_getElem?]
  simp only [List.getElem?_zip_eq_some, Bool.not_eq_true']
  constructor
  · exact fun ⟨⟨i, hfield, hval⟩, hignore⟩ => ⟨i, hfield, hval, hignore⟩
  · exact fun ⟨i, hfield, hval, hignore⟩ => ⟨⟨i, hfield, hval⟩, hignore⟩

theorem mem_insertColumns {fields : List FieldMeta} {col : Str} :
    col ∈ Model.insertColumns fields ↔
      ∃ (i : Nat) (field : FieldMeta), fields[i]? = some field ∧ field.ignore = false ∧
        field.getColumnName = col := by
  have hfilter : Model.insertColumns fields =
      (fields.filter (!·.ignore)).map (·.getColumnName) := by
    induction fields with
    | nil => rfl
    | cons field fields ih =>
      cases hignore : field.ignore <;> simp [Model.insertColumns, hignore, ih]
  rw [hfilter, List.mem_map]
  constructor
  · intro hcol
    obtain ⟨field, hmem, hname⟩ := hcol
    obtain ⟨hfield, hignore⟩ := List.mem_filter.mp hmem
    obtain ⟨i, hget⟩ := List.mem_iff_getElem?.mp hfield
    exact ⟨i, field, hget, by simpa using hignore, hname⟩
  · intro hcol
    obtain ⟨i, field, hget, hignore, hname⟩ := hcol
    have hfield := List.mem_iff_getElem?.mpr ⟨i, hget⟩
    exact ⟨field, List.mem_filter.mpr ⟨hfield, by simpa using hignore⟩, hname⟩

/-! ## Reading back -/

theorem Storable.unique (h : c.Storable) {i j : Nat} {field later : FieldMeta} (hij : i < j)
    (hfield : c.model.metadata[i]? = some field) (hlater : c.model.metadata[j]? = some later)
    (hignore : field.ignore = false) : field.getColumnName ≠ later.getColumnName := by
  obtain ⟨hlt, rfl⟩ := List.getElem?_eq_some_iff.mp hfield
  obtain ⟨hlt', rfl⟩ := List.getElem?_eq_some_iff.mp hlater
  exact List.pairwise_iff_getElem.mp h.last i j hlt hlt' hij hignore

/-- A column that is stored is found at its member. -/
theorem Storable.lookup (h : c.Storable) {i : Nat} {field : FieldMeta}
    (hfield : c.model.metadata[i]? = some field) (hignore : field.ignore = false) :
    c.model.columnToIndex.lookup field.getColumnName = some i := by
  rw [c.columnToIndex]
  rcases lookup_fillColumnToIndex c.model.metadata 0 ∅ field.getColumnName with
    ⟨j, found, hget, hname, hlookup, hlater⟩ | ⟨hnone, -⟩
  · rcases Nat.lt_trichotomy i j with hlt | rfl | hgt
    · exact absurd hname.symm (h.unique hlt hfield hget hignore)
    · simpa using hlookup
    · exact absurd rfl (hlater i field hgt hfield)
  · exact absurd rfl (hnone field (List.mem_of_getElem? hfield))

/-- The branch that both loops take, and the values of members of the type. -/
theorem dispatched_cases {cppType : Str} {val : Value} (htype : cppType ∈ dispatchedTypes)
    (hmember : IsMember cppType val) :
    (cppType = ORM_TYPE_INT ∧ ∃ n, val = .int n) ∨
    (cppType ≠ ORM_TYPE_INT ∧ getCppTypeName cppType = ORM_TYPE_STRING ∧ ∃ s, val = .string s) ∨
    (cppType ≠ ORM_TYPE_INT ∧ getCppTypeName cppType ≠ ORM_TYPE_STRING ∧
      getCppTypeName cppType = ORM_TYPE_TIMESTAMP ∧ ∃ us, val = .timestamp us) := by
  simp only [dispatchedTypes, List.mem_cons, List.not_mem_nil, or_false] at htype
  rcases htype with rfl | rfl | rfl | rfl
  · cases val with
    | int n => exact .inl ⟨rfl, n, rfl⟩
    | _ => exact absurd hmember (by simp [IsMember])
  · cases val with
    | string s => exact .inr (.inl ⟨by decide, by decide, s, rfl⟩)
    | _ => exact absurd hmember (by simp [IsMember])
  · cases val with
    | string s => exact .inr (.inl ⟨by decide, by decide, s, rfl⟩)
    | _ => exact absurd hmember (by simp [IsMember])
  · cases val with
    | timestamp us => exact .inr (.inr ⟨by decide, by decide, by decide, us, rfl⟩)
    | _ => exact absurd hmember (by simp [IsMember])

theorem boundParam_eq {field : FieldMeta} {val : Value} (htype : field.cppType ∈ dispatchedTypes)
    (hmember : IsMember field.cppType val) : boundParam field val = some val.param := by
  rcases dispatched_cases htype hmember with
    ⟨hint, n, rfl⟩ | ⟨hint, hstring, s, rfl⟩ | ⟨hint, hstring, htime, us, rfl⟩
  · rw [boundParam, if_pos hint]
    rfl
  · rw [boundParam, if_neg hint, if_pos hstring]
    rfl
  · rw [boundParam, if_neg hint, if_neg hstring, if_pos htime]
    rfl

theorem fillColumn_eq {rs : Row} {acc : Obj} {i : Nat} {field : FieldMeta} {val : Value}
    (hlookup : c.model.columnToIndex.lookup field.getColumnName = some i)
    (hfield : c.model.metadata[i]? = some field) (htype : field.cppType ∈ dispatchedTypes)
    (hmember : IsMember field.cppType val) (hholds : rs.Holds field.getColumnName val) :
    c.model.fillColumn rs acc field.getColumnName = acc.set i val := by
  rw [Model.fillColumn, hlookup]
  simp only [hfield]
  rcases dispatched_cases htype hmember with
    ⟨hint, n, rfl⟩ | ⟨hint, hstring, s, rfl⟩ | ⟨hint, hstring, htime, us, rfl⟩
  · rw [if_pos hint, show rs.getInt field.getColumnName = n from hholds]
  · rw [if_neg hint, if_pos hstring, show rs.getString field.getColumnName = s from hholds]
  · rw [if_neg hint, if_neg hstring, if_pos htime,
      show rs.getTime field.getColumnName = us from hholds]

/-- Each column sets its own member, so that the order and repetitions do not matter. -/
theorem Storable.fills (h : c.Storable) {t : c.Object} {rs : Row}
    (hrow : ∀ p ∈ storedMembers c.model.metadata t.1, rs.Holds p.1.getColumnName p.2)
    {cols : List Str} (hcols : ∀ col ∈ cols, col ∈ Model.insertColumns c.model.metadata)
    {i : Nat} {field : FieldMeta} {val old : Value} (hfield : c.model.metadata[i]? = some field)
    (hval : t.1[i]? = some val) {acc : Obj} (hold : acc[i]? = some old) :
    (c.model.fillObject acc rs cols)[i]? =
      some (if field.ignore = false ∧ field.getColumnName ∈ cols then val else old) := by
  induction cols generalizing acc old with
  | nil => simpa [Model.fillObject] using hold
  | cons col cols ih =>
    obtain ⟨j, stored, hstored, hignore, rfl⟩ := mem_insertColumns.mp (hcols col (by simp))
    have hlt : j < t.1.length := by
      rw [length_object]
      exact (List.getElem?_eq_some_iff.mp hstored).1
    have hstoredVal : t.1[j]? = some t.1[j] := List.getElem?_eq_getElem hlt
    have hstep : c.model.fillColumn rs acc stored.getColumnName = acc.set j t.1[j] := by
      refine fillColumn_eq (h.lookup hstored hignore) hstored
        (h.types stored (List.mem_of_getElem? hstored) hignore)
        (isMember_of_getElem t hstored hstoredVal) ?_
      exact hrow (stored, t.1[j]) (mem_storedMembers.mpr ⟨j, hstored, hstoredVal, hignore⟩)
    have hrest : ∀ col ∈ cols, col ∈ Model.insertColumns c.model.metadata :=
      fun col hcol => hcols col (by simp [hcol])
    have hfold : c.model.fillObject acc rs (stored.getColumnName :: cols) =
        c.model.fillObject (acc.set j t.1[j]) rs cols := by
      rw [Model.fillObject, List.foldl_cons, hstep, Model.fillObject]
    rw [hfold]
    by_cases hij : j = i
    · subst hij
      obtain rfl : stored = field := Option.some.inj (hstored.symm.trans hfield)
      obtain rfl : t.1[j] = val := Option.some.inj (hstoredVal.symm.trans hval)
      have hset : (acc.set j t.1[j])[j]? = some t.1[j] := by
        rw [List.getElem?_set_self (List.getElem?_eq_some_iff.mp hold).1]
      have hmore := ih hrest hset
      rw [ite_self] at hmore
      simpa [hignore] using hmore
    · have hset : (acc.set j t.1[j])[i]? = some old := by
        rw [List.getElem?_set_ne hij, hold]
      have hother : field.ignore = false → field.getColumnName ≠ stored.getColumnName := by
        intro hfieldIgnore
        rcases Nat.lt_or_gt_of_ne hij with hlt | hgt
        · exact Ne.symm (h.unique hlt hstored hfield hignore)
        · exact h.unique hgt hfield hstored hfieldIgnore
      refine (ih hrest hset).trans (congrArg some (if_congr ?_ rfl rfl))
      rw [List.mem_cons]
      exact and_congr_right fun hfieldIgnore => (or_iff_right (hother hfieldIgnore)).symm

/-! ## Storing -/

theorem printed_indexColumns (cols : List Str) (sql : Sql) :
    ((Model.indexColumns cols ++ (lit ")" ++ sql)).takeWhile (· ≠ .ch ')')).filterMap Sym.word? =
      cols := by
  have hword (col : Str) (rest : Sql) :
      ((word col ++ (lit ", " ++ rest)).takeWhile (· ≠ .ch ')')).filterMap Sym.word? =
        col :: (rest.takeWhile (· ≠ .ch ')')).filterMap Sym.word? := rfl
  induction cols with
  | nil => rfl
  | cons col cols ih =>
    cases cols with
    | nil => rfl
    | cons next cols => rw [indexColumns_cons, List.append_assoc, List.append_assoc, hword, ih]

theorem printedColumns_insertText (m : Model) :
    printedColumns m.insertText = Model.insertColumns m.metadata := by
  have hinto (table : Str) (rest : Sql) :
      (lit "INSERT INTO " ++ (word table ++ (lit "(" ++ rest))).dropWhile (· ≠ .ch '(') =
        lit "(" ++ rest := rfl
  have hl (rest : Sql) : ((lit "(" ++ rest).takeWhile (· ≠ .ch ')')).filterMap Sym.word? =
      (rest.takeWhile (· ≠ .ch ')')).filterMap Sym.word? := rfl
  rw [insertText_eq, insertAllText_eq, printedColumns, hinto, hl, printed_indexColumns]

theorem length_storedMembers (t : c.Object) :
    (storedMembers c.model.metadata t.1).length =
      (Model.insertColumns c.model.metadata).length := by
  rw [← storedMembers_columns (length_object t), List.length_map]

theorem placeholders_insertText (m : Model) :
    placeholders m.insertText = marks (m.getTableName :: Model.insertColumns m.metadata) +
      (Model.insertColumns m.metadata).length := by
  rw [insertText_eq, placeholders_insertAllText, Nat.one_mul]

theorem sent_eq (t : c.Object) : (c.model.Create t.1).sent = some
    (Model.bindMembers c.model.metadata t.1 (Statement.prepare c.model.insertText, 1)).1 := by
  obtain ⟨conn, hconn⟩ := Option.isSome_iff_exists.mp c.connected
  rw [Model.Create, Model.prepareStatement, hconn]
  rfl

/-- As many placeholders as members: each member takes the next one. -/
theorem paramBind_eq (t : c.Object)
    (hmarks : placeholders c.model.insertText = (storedMembers c.model.metadata t.1).length) :
    (Model.bindMembers c.model.metadata t.1 (Statement.prepare c.model.insertText, 1)).1.paramBind =
      boundParams c.model.metadata t.1 := by
  have hbind := bindMembers_eq c.model.metadata t.1 c.model.insertText [] 0
  have hlength : (boundParams c.model.metadata t.1).length + 0 =
      placeholders c.model.insertText := by
    rw [hmarks, boundParams, List.length_map, Nat.add_zero]
  rw [hlength] at hbind
  rw [Statement.prepare]
  simp only [List.nil_append, List.length_nil, Nat.zero_add] at hbind
  rw [hbind]
  simp

theorem Storable.binds (h : c.Storable) (t : c.Object) :
    ∃ stmt, (c.model.Create t.1).sent = some stmt ∧
      placeholders stmt.sql = (storedMembers c.model.metadata t.1).length ∧
      ∀ k < placeholders stmt.sql, ∃ field val,
        (storedMembers c.model.metadata t.1)[k]? = some (field, val) ∧
        (printedColumns stmt.sql)[k]? = some field.getColumnName ∧
        stmt.paramBind[k]? = some (some val.param) := by
  have hmarks : placeholders c.model.insertText =
      (storedMembers c.model.metadata t.1).length := by
    rw [placeholders_insertText, (marks_eq_zero _).mpr h.names, Nat.zero_add,
      length_storedMembers]
  refine ⟨_, sent_eq t, ?_⟩
  rw [bindMembers_sql, Statement.prepare_sql, paramBind_eq t hmarks, printedColumns_insertText]
  refine ⟨hmarks, fun k hk => ?_⟩
  rw [hmarks] at hk
  have hget := List.getElem?_eq_getElem hk
  generalize (storedMembers c.model.metadata t.1)[k] = p at hget
  obtain ⟨field, val⟩ := p
  obtain ⟨i, hfield, hval, hignore⟩ := mem_storedMembers.mp (List.mem_of_getElem? hget)
  have htype := h.types field (List.mem_of_getElem? hfield) hignore
  have hmember := isMember_of_getElem t hfield hval
  refine ⟨field, val, hget, ?_, ?_⟩
  · rw [← storedMembers_columns (length_object t), List.getElem?_map, hget]
    rfl
  · rw [boundParams, List.getElem?_map, hget, Option.map_some, boundParam_eq htype hmember]

theorem Storable.roundTrips (h : c.Storable) : c.RoundTrips where
  binds := h.binds
  fills := fun _ _ _ _ hrow hcols _ _ _ _ hfield hval hold => h.fills hrow hcols hfield hval hold

/-- A column of a later member does not set this one. -/
theorem fillColumn_later (rs : Row) (acc : Obj) {i j : Nat} {later : FieldMeta} {col : Str}
    (hij : i < j) (hlater : c.model.metadata[j]? = some later)
    (hcol : later.getColumnName = col) : (c.model.fillColumn rs acc col)[i]? = acc[i]? := by
  rcases lookup_fillColumnToIndex c.model.metadata 0 ∅ col with
    ⟨k, found, hget, -, hlookup, hlast⟩ | ⟨hnone, -⟩
  · have hki : k ≠ i := by
      intro heq
      exact hlast j later (by omega) hlater hcol
    rw [← c.columnToIndex, Nat.zero_add] at hlookup
    rw [Model.fillColumn, hlookup]
    simp only [hget]
    split
    · exact List.getElem?_set_ne hki
    · split
      · exact List.getElem?_set_ne hki
      · split
        · exact List.getElem?_set_ne hki
        · rfl
  · exact absurd hcol (hnone later (List.mem_of_getElem? hlater))

/-! ## What a round trip needs -/

def zeroOf (cppType : Str) : Value :=
  if cppType = "long long".toList then .long_long 0
  else if cppType = "float".toList then .float 0
  else if cppType = "double".toList then .double 0
  else if cppType = "string".toList ∨ cppType = "std::string".toList then .string []
  else if cppType = "Timestamp".toList then .timestamp 0
  else .int 0

/-- A value that is not the zero, for the types with a branch. -/
def oneOf (cppType : Str) : Value :=
  if cppType = "string".toList ∨ cppType = "std::string".toList then .string "1".toList
  else if cppType = "Timestamp".toList then .timestamp 1
  else .int 1

def zeroRow : Row := ⟨fun _ => 0, fun _ => [], fun _ => 0⟩

theorem isMember_zeroOf {cppType : Str} (h : cppType ∈ memberTypes) :
    IsMember cppType (zeroOf cppType) := by
  simp only [memberTypes, rulesJson, List.map_cons, List.map_nil, List.mem_cons,
    List.not_mem_nil, or_false] at h
  rcases h with rfl | rfl | rfl | rfl | rfl | rfl | rfl | rfl | rfl | rfl <;>
    simp [zeroOf, IsMember]

theorem zeroRow_holds (col cppType : Str) : zeroRow.Holds col (zeroOf cppType) := by
  unfold zeroOf
  repeat' split
  all_goals first | rfl | trivial

theorem isMember_oneOf {cppType : Str} (h : cppType ∈ dispatchedTypes) :
    IsMember cppType (oneOf cppType) ∧ oneOf cppType ≠ zeroOf cppType := by
  simp only [dispatchedTypes, List.mem_cons, List.not_mem_nil, or_false] at h
  rcases h with rfl | rfl | rfl | rfl <;> simp [oneOf, zeroOf, IsMember]

/-- The object of zeros with another value at one member. -/
def zeroExcept (c : ClassModel) (i : Nat) (val : Value)
    (h : ∀ field, c.model.metadata[i]? = some field → IsMember field.cppType val) : c.Object :=
  ⟨(c.model.metadata.map fun field => zeroOf field.cppType).set i val, by
    rw [List.forall₂_iff_get]
    refine ⟨by simp, fun k hk hk' => ?_⟩
    simp only [List.get_eq_getElem, List.getElem_set]
    split
    · rename_i hik
      subst hik
      exact h _ (List.getElem?_eq_getElem hk)
    · rw [List.getElem_map]
      exact isMember_zeroOf (c.types _ (List.getElem_mem hk))⟩

def zero (c : ClassModel) : c.Object :=
  ⟨c.model.metadata.map fun field => zeroOf field.cppType, by
    rw [List.forall₂_map_right_iff, List.forall₂_same]
    exact fun field hfield => isMember_zeroOf (c.types field hfield)⟩

theorem RoundTrips.names (h : c.RoundTrips) :
    ∀ name ∈ c.model.getTableName :: Model.insertColumns c.model.metadata, '?' ∉ name := by
  obtain ⟨stmt, hsent, hmarks, -⟩ := h.binds c.zero
  rw [sent_eq] at hsent
  rw [← Option.some.inj hsent, bindMembers_sql, Statement.prepare_sql, placeholders_insertText,
    length_storedMembers] at hmarks
  exact (marks_eq_zero _).mp (by omega)

/-- No loop has a branch for the other types. -/
theorem boundParam_other {field : FieldMeta} (hmember : field.cppType ∈ memberTypes)
    (h : field.cppType ∉ dispatchedTypes) (val : Value) : boundParam field val = none := by
  have htypes : ∀ cppType ∈ memberTypes, cppType ∈ dispatchedTypes ∨
      (cppType ≠ ORM_TYPE_INT ∧ getCppTypeName cppType ≠ ORM_TYPE_STRING ∧
        getCppTypeName cppType ≠ ORM_TYPE_TIMESTAMP) := by decide
  rcases htypes _ hmember with hin | ⟨hint, hstring, htime⟩
  · exact absurd hin h
  · rw [boundParam, if_neg hint, if_neg hstring, if_neg htime]

theorem RoundTrips.types (h : c.RoundTrips) :
    ∀ field ∈ c.model.metadata, field.ignore = false → field.cppType ∈ dispatchedTypes := by
  intro field hfield hignore
  obtain ⟨stmt, hsent, hmarks, hbinds⟩ := h.binds c.zero
  rw [sent_eq] at hsent
  obtain rfl := Option.some.inj hsent
  rw [bindMembers_sql, Statement.prepare_sql] at hmarks hbinds
  obtain ⟨i, hget⟩ := List.mem_iff_getElem?.mp hfield
  have hstored : (field, zeroOf field.cppType) ∈ storedMembers c.model.metadata c.zero.1 := by
    refine mem_storedMembers.mpr ⟨i, hget, ?_, hignore⟩
    rw [zero, List.getElem?_map, hget]
    rfl
  obtain ⟨k, hk⟩ := List.mem_iff_getElem?.mp hstored
  have hlt : k < placeholders c.model.insertText := by
    rw [hmarks]
    exact (List.getElem?_eq_some_iff.mp hk).1
  obtain ⟨field', val, hk', -, hbound⟩ := hbinds k hlt
  rw [paramBind_eq c.zero hmarks, boundParams, List.getElem?_map, hk, Option.map_some,
    Option.some.injEq] at hbound
  by_contra hother
  rw [boundParam_other (c.types field hfield) hother] at hbound
  cases hbound

theorem RoundTrips.last (h : c.RoundTrips) : c.model.metadata.Pairwise fun field later =>
    field.ignore = false → field.getColumnName ≠ later.getColumnName := by
  rw [List.pairwise_iff_getElem]
  intro i j hi hj hij hignore hsame
  have hfield : c.model.metadata[i]? = some c.model.metadata[i] := List.getElem?_eq_getElem hi
  have hlater : c.model.metadata[j]? = some c.model.metadata[j] := List.getElem?_eq_getElem hj
  generalize c.model.metadata[i] = field at hfield hignore hsame
  generalize c.model.metadata[j] = later at hlater hsame
  obtain ⟨hone, hne⟩ := isMember_oneOf
    (h.types field (List.mem_of_getElem? hfield) hignore)
  have hvalue : ∀ found, c.model.metadata[i]? = some found →
      IsMember found.cppType (oneOf field.cppType) := by
    intro found hfound
    rw [← Option.some.inj (hfield.symm.trans hfound)]
    exact hone
  have hzero : c.zero.1[i]? = some (zeroOf field.cppType) := by
    rw [zero, List.getElem?_map, hfield]
    rfl
  have hother : (c.zeroExcept i _ hvalue).1[i]? = some (oneOf field.cppType) := by
    rw [zeroExcept, List.getElem?_set_self (by simpa using hi)]
  have hfill := h.fills c.zero (c.zeroExcept i _ hvalue) zeroRow [field.getColumnName]
    (fun p hp => by
      obtain ⟨k, hget, hval, -⟩ := mem_storedMembers.mp hp
      rw [zero, List.getElem?_map, hget, Option.map_some, Option.some.injEq] at hval
      rw [← hval]
      exact zeroRow_holds _ _)
    (fun col hcol => by
      rw [List.mem_singleton.mp hcol]
      exact mem_insertColumns.mpr ⟨i, field, hfield, hignore, rfl⟩)
    i field _ _ hfield hzero hother
  rw [if_pos ⟨hignore, List.mem_singleton_self _⟩] at hfill
  -- the column leads to a later member, so this one keeps its other value
  have hkept := fillColumn_later zeroRow (c.zeroExcept i _ hvalue).1 hij hlater hsame.symm
  rw [hother] at hkept
  have hfold : c.model.fillObject (c.zeroExcept i _ hvalue).1 zeroRow [field.getColumnName] =
      c.model.fillColumn zeroRow (c.zeroExcept i _ hvalue).1 field.getColumnName := rfl
  rw [hfold, hkept] at hfill
  exact hne (Option.some.inj hfill)

theorem RoundTrips.storable (h : c.RoundTrips) : c.Storable := ⟨h.names, h.types, h.last⟩

/-- What `Create` stores is read back exactly for the types with a branch, if no
later member has the column of a stored one and no name holds a placeholder. -/
theorem roundTrips_iff (c : ClassModel) : c.RoundTrips ↔ c.Storable :=
  ⟨RoundTrips.storable, Storable.roundTrips⟩

/-- A class with one member of the type. -/
def oneMember (cppType : Str) (h : cppType ∈ memberTypes) : ClassModel where
  model := {
    className := "Item".toList
    metadata := [{ fieldName := "price".toList, cppType := cppType }]
    columnToIndex := fillColumnToIndex
      [{ fieldName := "price".toList, cppType := cppType }] 0 ∅
    conn := some 0 }
  connected := rfl
  types := by
    intro field hfield
    rw [List.mem_singleton.mp hfield]
    exact h
  columnToIndex := rfl

/-- A double is never bound, nor set from a row. -/
theorem double_not_bound :
    ¬ (oneMember "double".toList (by decide)).RoundTrips ∧
      ((oneMember "double".toList (by decide)).model.Create [.double 7]).sent.map (·.paramBind) =
        some [none] ∧
      (oneMember "double".toList (by decide)).model.fillObject [.double 7] zeroRow
        ["price".toList] = [.double 7] := by
  refine ⟨fun h => ?_, by decide, by decide⟩
  have htype := h.types _ (List.mem_singleton_self _) rfl
  exact absurd htype (by decide)

end ClassModel

end TinyOrm
