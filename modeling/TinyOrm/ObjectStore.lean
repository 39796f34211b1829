import TinyOrm.RowStore
import TinyOrm.Lib.Answers
set_option autoImplicit false

/-!
The objects of a class that are stored in a table, as the operations of its `Model`
present them.
-/

namespace TinyOrm

attribute [local instance] decideName

/-! ## A class and its table -/

/-- A class with its table on the server. The table has a column for each member that
`Create` sends, and may have others: of members that it does not send, such as an
AUTO_INCREMENT key, and of no member at all. -/
structure HostedClass extends ClassModel where
  srv : TableServer
  fresh : model.Fresh
  named : model.Named
  blank : model.blank.length = model.metadata.length
  table : srv.name = model.getTableName
  distinct : (model.metadata.map FieldMeta.getColumnName).Nodup
  sent : ∀ col ∈ Model.insertColumns model.metadata, col ∈ srv.columns
  marks : ∀ name ∈ model.getTableName :: srv.columns, '?' ∉ name
  dispatched : ∀ field ∈ model.metadata, field.getColumnName ∈ srv.columns →
    field.cppType ∈ dispatchedTypes
  keeps : ∀ field ∈ model.metadata, field.ignore = false → ∀ val, IsMember field.cppType val →
    IsMember field.cppType (srv.keep field.getColumnName val)
  fills : ∀ field ∈ model.metadata, field.ignore = true → field.getColumnName ∈ srv.columns →
    ∀ number, ∃ val, srv.fill number field.getColumnName = some val ∧ IsMember field.cppType val

/-- An object in the table, with what its row has in the columns of no member. -/
structure HostedClass.Record (h : HostedClass) where
  rest : TableRow
  obj : h.Object

namespace HostedClass

variable {h : HostedClass}

/-- The member that has a column. -/
def member (h : HostedClass) (t : Obj) (col : Str) : Option Value :=
  ((h.model.metadata.zip t).find? fun p => p.1.getColumnName = col).map Prod.snd

/-- The values a record has in the table. -/
def row (o : h.Record) : TableRow := fun col =>
  if col ∈ h.srv.columns then (h.member o.obj.1 col).or (o.rest col) else none

/-- What is kept of an object, and what is filled in. -/
def keptMembers (h : HostedClass) (number : Nat) (t : Obj) : Obj :=
  List.zipWith (fun field val =>
    if field.ignore then (h.srv.filled number field.getColumnName).getD val
    else h.srv.keep field.getColumnName val) h.model.metadata t

/-- An object after one assignment. -/
def setMember (h : HostedClass) (t : Obj) (p : Str × Value) : Obj :=
  List.zipWith (fun field val =>
    if field.getColumnName = p.1 then h.srv.keep p.1 p.2 else val) h.model.metadata t

def setMembers (h : HostedClass) (t : Obj) (values : List (Str × Value)) : Obj :=
  values.foldl h.setMember t

/-- An object read from the table: the members whose columns are selected, all that have a
column where none is; the other members are those of `old`. -/
def view (h : HostedClass) (cols : List Str) (old t : Obj) : Obj :=
  List.zipWith (fun field p =>
    if field.getColumnName ∈ h.srv.columns ∧ (cols = [] ∨ field.getColumnName ∈ cols) then p.1
    else p.2) h.model.metadata (t.zip old)

/-- An assignment to the column of a member, of a value that the column can keep. -/
def Settable (h : HostedClass) (p : Str × Value) : Prop :=
  p.1 ∈ h.srv.columns ∧ (∃ field ∈ h.model.metadata, field.getColumnName = p.1) ∧
    ∀ field ∈ h.model.metadata, field.getColumnName = p.1 →
      IsMember field.cppType (h.srv.keep p.1 p.2)

structure Assignments (h : HostedClass) extends Assignment where
  settable : ∀ p ∈ cols.zip vals, h.Settable p
  handled : ∀ val ∈ vals, val.Handled

def Assignments.pairs (args : h.Assignments) : List (Str × Value) := args.cols.zip args.vals

/-! ## Rows of objects -/

/-- A column has one member. -/
theorem index_unique {i j : Nat} {field other : FieldMeta}
    (hfield : h.model.metadata[i]? = some field) (hother : h.model.metadata[j]? = some other)
    (hname : field.getColumnName = other.getColumnName) : i = j := by
  have hi : (h.model.metadata.map FieldMeta.getColumnName)[i]? = some field.getColumnName := by
    rw [List.getElem?_map, hfield, Option.map_some]
  have hj : (h.model.metadata.map FieldMeta.getColumnName)[j]? = some field.getColumnName := by
    rw [List.getElem?_map, hother, Option.map_some, hname]
  obtain ⟨hlt, hget⟩ := List.getElem?_eq_some_iff.mp hi
  obtain ⟨hlt', hget'⟩ := List.getElem?_eq_some_iff.mp hj
  exact (List.Nodup.getElem_inj_iff h.distinct).mp (hget.trans hget'.symm)

theorem member_eq {t : Obj} {i : Nat} {field : FieldMeta} {val : Value}
    (hfield : h.model.metadata[i]? = some field) (hval : t[i]? = some val) :
    h.member t field.getColumnName = some val := by
  have hmem : (field, val) ∈ h.model.metadata.zip t :=
    List.mem_of_getElem? (List.getElem?_zip_eq_some.mpr ⟨hfield, hval⟩)
  rw [member]
  cases hfind : (h.model.metadata.zip t).find?
      fun p => p.1.getColumnName = field.getColumnName with
  | none => exact absurd (List.find?_eq_none.mp hfind _ hmem) (by simp)
  | some p =>
    have hname : p.1.getColumnName = field.getColumnName := by
      simpa using List.find?_some hfind
    obtain ⟨j, hj⟩ := List.mem_iff_getElem?.mp (List.mem_of_find?_eq_some hfind)
    obtain ⟨hfield', hval'⟩ := List.getElem?_zip_eq_some.mp hj
    obtain rfl := index_unique hfield' hfield hname
    rw [Option.map_some, ← hval', hval]

theorem member_eq_none (t : Obj) {col : Str}
    (hcol : ∀ field ∈ h.model.metadata, field.getColumnName ≠ col) : h.member t col = none := by
  rw [member, Option.map_eq_none_iff, List.find?_eq_none]
  intro p hp
  simpa using hcol p.1 (List.of_mem_zip hp).1

theorem row_member (o : h.Record) {i : Nat} {field : FieldMeta} {val : Value}
    (hfield : h.model.metadata[i]? = some field) (hval : o.obj.1[i]? = some val)
    (hcol : field.getColumnName ∈ h.srv.columns) :
    row o field.getColumnName = some val := by
  rw [row, if_pos hcol, member_eq hfield hval, Option.some_or]

theorem row_other (o : h.Record) {col : Str}
    (hcol : ∀ field ∈ h.model.metadata, field.getColumnName ≠ col) :
    row o col = if col ∈ h.srv.columns then o.rest col else none := by
  rw [row, member_eq_none _ hcol, Option.none_or]

theorem row_absent (o : h.Record) {col : Str} (hcol : col ∉ h.srv.columns) :
    row o col = none := if_neg hcol

/-- A column is that of a member, or of none. -/
theorem column_cases (h : HostedClass) (col : Str) :
    (∃ (i : Nat) (field : FieldMeta), h.model.metadata[i]? = some field ∧
        field.getColumnName = col) ∨
      ∀ field ∈ h.model.metadata, field.getColumnName ≠ col := by
  by_cases hmember : ∃ field ∈ h.model.metadata, field.getColumnName = col
  · obtain ⟨field, hfield, hname⟩ := hmember
    obtain ⟨i, hi⟩ := List.mem_iff_getElem?.mp hfield
    exact .inl ⟨i, field, hi, hname⟩
  · exact .inr fun field hfield hname => hmember ⟨field, hfield, hname⟩

theorem members_getElem (t : h.Object) {i : Nat} {field : FieldMeta}
    (hfield : h.model.metadata[i]? = some field) : ∃ val, t.1[i]? = some val := by
  have hlt : i < t.1.length := by
    rw [ClassModel.length_object]
    exact (List.getElem?_eq_some_iff.mp hfield).1
  exact ⟨_, List.getElem?_eq_getElem hlt⟩

theorem members_zipWith {fields : List FieldMeta} {t : Obj} {f : FieldMeta → Value → Value}
    (ht : List.Forall₂ (fun field val => IsMember field.cppType val) fields t)
    (hf : ∀ field ∈ fields, ∀ val, IsMember field.cppType val →
      IsMember field.cppType (f field val)) :
    List.Forall₂ (fun field val => IsMember field.cppType val) fields
      (List.zipWith f fields t) := by
  induction ht with
  | nil => exact .nil
  | @cons field val fields t hval _ ih =>
    exact .cons (hf field (by simp) val hval)
      (ih fun later hlater => hf later (by simp [hlater]))

theorem filled_member {field : FieldMeta} (hfield : field ∈ h.model.metadata)
    (hignore : field.ignore = true) {number : Nat} {val : Value}
    (hfill : h.srv.filled number field.getColumnName = some val) : IsMember field.cppType val := by
  rw [TableServer.filled] at hfill
  split at hfill
  · rename_i hcol
    obtain ⟨val', hval', hmember⟩ := h.fills field hfield hignore hcol number
    rw [hval'] at hfill
    exact Option.some.inj hfill ▸ hmember
  · cases hfill

def kept (number : Nat) (t : h.Object) : h.Record :=
  ⟨h.srv.filled number, h.keptMembers number t.1,
    members_zipWith t.2 fun field hfield val hval => by
    cases hignore : field.ignore with
    | true =>
      rw [if_pos rfl]
      cases hfill : h.srv.filled number field.getColumnName with
      | none => exact hval
      | some filled => exact filled_member hfield hignore hfill
    | false => simpa using h.keeps field hfield hignore val hval⟩

/-- The records of some objects, numbered in their order. -/
def keptAll : Nat → List h.Object → List h.Record
  | _, [] => []
  | number, t :: v => kept number t :: keptAll (number + 1) v

theorem members_setMember {p : Str × Value} (hp : h.Settable p) (t : h.Object) :
    List.Forall₂ (fun field val => IsMember field.cppType val) h.model.metadata
      (h.setMember t.1 p) :=
  members_zipWith t.2 fun field hfield val hval => by
    split
    · rename_i hname
      exact hp.2.2 field hfield hname
    · exact hval

theorem members_setMembers {values : List (Str × Value)} (hvalues : ∀ p ∈ values, h.Settable p)
    (t : h.Object) :
    List.Forall₂ (fun field val => IsMember field.cppType val) h.model.metadata
      (h.setMembers t.1 values) := by
  induction values generalizing t with
  | nil => exact t.2
  | cons p values ih =>
    exact ih (fun q hq => hvalues q (by simp [hq]))
      ⟨h.setMember t.1 p, members_setMember (hvalues p (by simp)) t⟩

def assigned (args : h.Assignments) (o : h.Record) : h.Record :=
  ⟨o.rest, h.setMembers o.obj.1 args.pairs, members_setMembers args.settable o.obj⟩

/-! ## What the statements do to the rows -/

theorem insertedRow_values (t : h.Object) : (h.model.insertedRow t.1).values =
    (storedMembers h.model.metadata t.1).map fun p =>
      (p.1.getColumnName, boundParam p.1 p.2) := by
  rw [Model.insertedRow, ← storedMembers_columns (ClassModel.length_object t), boundParams,
    List.zip_map']

theorem insertedRow_names (t : h.Object) : (h.model.insertedRow t.1).values.map Prod.fst =
    Model.insertColumns h.model.metadata := by
  rw [insertedRow_values, List.map_map, ← storedMembers_columns (ClassModel.length_object t)]
  rfl

theorem insertColumns_nodup (h : HostedClass) :
    (Model.insertColumns h.model.metadata).Nodup := by
  have hdistinct := h.distinct
  generalize h.model.metadata = fields at hdistinct
  induction fields with
  | nil => exact List.nodup_nil
  | cons field fields ih =>
    obtain ⟨hnew, hrest⟩ := List.nodup_cons.mp hdistinct
    rw [Model.insertColumns]
    split
    · exact ih hrest
    · refine List.nodup_cons.mpr ⟨fun hmem => ?_, ih hrest⟩
      obtain ⟨i, later, hlater, -, hname⟩ := ClassModel.mem_insertColumns.mp hmem
      exact hnew (hname ▸ List.mem_map_of_mem (List.mem_of_getElem? hlater))

theorem accepts_insertedRow (t : h.Object) : h.srv.Accepts (h.model.insertedRow t.1) := by
  refine ⟨h.table.symm, ?_, fun p hp => ?_⟩
  · rw [insertedRow_names]
    exact h.insertColumns_nodup
  · have hcol : p.1 ∈ (h.model.insertedRow t.1).values.map Prod.fst := List.mem_map_of_mem hp
    rw [insertedRow_names] at hcol
    exact h.sent p.1 hcol

/-- The row that Create inserts is that of the record that is kept. -/
theorem assign_insertedRow (number : Nat) (t : h.Object) :
    h.srv.assign (h.srv.filled number) (h.model.insertedRow t.1).values = row (kept number t) := by
  have hnames := insertedRow_names t
  funext col
  by_cases hcol : col ∈ Model.insertColumns h.model.metadata
  · obtain ⟨i, field, hfield, hignore, rfl⟩ := ClassModel.mem_insertColumns.mp hcol
    obtain ⟨val, hval⟩ := members_getElem t hfield
    have hmem : (field.getColumnName, boundParam field val) ∈
        (h.model.insertedRow t.1).values := by
      rw [insertedRow_values]
      exact List.mem_map.mpr ⟨(field, val),
        ClassModel.mem_storedMembers.mpr ⟨i, hfield, hval, hignore⟩, rfl⟩
    have htype := h.dispatched field (List.mem_of_getElem? hfield) (h.sent _ hcol)
    have hkept : (kept number t).obj.1[i]? = some (h.srv.keep field.getColumnName val) := by
      simp [kept, keptMembers, List.getElem?_zipWith, hfield, hval, hignore]
    rw [TableServer.assign_of_mem (by rw [hnames]; exact h.insertColumns_nodup) hmem,
      ClassModel.boundParam_eq htype (ClassModel.isMember_of_getElem t hfield hval),
      row_member (kept number t) hfield hkept (h.sent _ hcol)]
    rfl
  · rw [TableServer.assign_of_not_mem (by rwa [hnames])]
    by_cases hcolumn : col ∈ h.srv.columns
    · rcases h.column_cases col with ⟨i, field, hfield, rfl⟩ | hother
      · have hignore : field.ignore = true := by
          by_contra hsent
          exact hcol (ClassModel.mem_insertColumns.mpr
            ⟨i, field, hfield, by simpa using hsent, rfl⟩)
        obtain ⟨val, hval⟩ := members_getElem t hfield
        obtain ⟨filled, hfill, -⟩ :=
          h.fills field (List.mem_of_getElem? hfield) hignore hcolumn number
        have hfilled : h.srv.filled number field.getColumnName = some filled := by
          rw [TableServer.filled, if_pos hcolumn, hfill]
        have hkept : (kept number t).obj.1[i]? = some filled := by
          simp [kept, keptMembers, List.getElem?_zipWith, hfield, hval, hignore, hfilled]
        rw [row_member (kept number t) hfield hkept hcolumn, hfilled]
      · rw [row_other _ hother, if_pos hcolumn]
        rfl
    · rw [row_absent _ hcolumn, TableServer.filled, if_neg hcolumn]

theorem newRows_insertedRows (number : Nat) (v : List h.Object) :
    h.srv.newRows number (v.map fun t => h.model.insertedRow t.1) = (keptAll number v).map row := by
  induction v generalizing number with
  | nil => rfl
  | cons t v ih =>
    rw [List.map_cons, TableServer.newRows, assign_insertedRow, ih]
    rfl

theorem set_row {p : Str × Value} (hp : h.Settable p) (o : h.Record) :
    h.srv.set (row o) (p.1, some p.2.param) =
      row ⟨o.rest, h.setMember o.obj.1 p, members_setMember hp o.obj⟩ := by
  funext col
  by_cases hcolumn : col ∈ h.srv.columns
  · rcases h.column_cases col with ⟨i, field, hfield, rfl⟩ | hother
    · obtain ⟨val, hval⟩ := members_getElem o.obj hfield
      have hset : (h.setMember o.obj.1 p)[i]? =
          some (if field.getColumnName = p.1 then h.srv.keep p.1 p.2 else val) := by
        simp [setMember, List.getElem?_zipWith, hfield, hval]
      rw [row_member ⟨o.rest, h.setMember o.obj.1 p, _⟩ hfield hset hcolumn, TableServer.set]
      split
      · rfl
      · exact row_member o hfield hval hcolumn
    · obtain ⟨field, hfield, hname⟩ := hp.2.1
      have hne : col ≠ p.1 := fun heq => hother field hfield (hname.trans heq.symm)
      rw [TableServer.set, if_neg hne, row_other _ hother, row_other _ hother]
  · have hne : col ≠ p.1 := fun heq => hcolumn (heq ▸ hp.1)
    rw [TableServer.set, if_neg hne, row_absent _ hcolumn, row_absent _ hcolumn]

/-- The assignments that Update sends change the row to that of the record that they
change. -/
theorem assign_row (args : h.Assignments) (o : h.Record) :
    h.srv.assign (row o) (args.cols.zip (sentArgs args.vals)) = row (assigned args o) := by
  have hvalues (values : List (Str × Value)) (hvalues : ∀ p ∈ values, h.Settable p)
      (o : h.Record) : h.srv.assign (row o) (values.map fun p => (p.1, some p.2.param)) =
        row ⟨o.rest, h.setMembers o.obj.1 values, members_setMembers hvalues o.obj⟩ := by
    induction values generalizing o with
    | nil => rfl
    | cons p values ih =>
      have hp := hvalues p (by simp)
      have hmore := ih (fun q hq => hvalues q (by simp [hq]))
        ⟨o.rest, h.setMember o.obj.1 p, members_setMember hp o.obj⟩
      rw [← set_row hp] at hmore
      exact hmore
  have hzip : args.cols.zip (sentArgs args.vals) =
      args.pairs.map fun p => (p.1, some p.2.param) := by
    rw [sentArgs, List.zip_map_right]
    rfl
  rw [hzip]
  exact hvalues args.pairs args.settable o

/-- A member without a column is not assigned to. -/
theorem setMembers_absent {values : List (Str × Value)} (hvalues : ∀ p ∈ values, h.Settable p)
    {t : Obj} {i : Nat} {field : FieldMeta} {val : Value}
    (hfield : h.model.metadata[i]? = some field) (hval : t[i]? = some val)
    (hcol : field.getColumnName ∉ h.srv.columns) : (h.setMembers t values)[i]? = some val := by
  induction values generalizing t with
  | nil => exact hval
  | cons p values ih =>
    refine ih (fun q hq => hvalues q (by simp [hq])) (t := h.setMember t p) ?_
    have hne : field.getColumnName ≠ p.1 := fun heq => hcol (heq ▸ (hvalues p (by simp)).1)
    simp [setMember, List.getElem?_zipWith, hfield, hval, hne]

/-- An UPDATE counts the objects that it changes. -/
theorem changes_row (args : h.Assignments) (o : h.Record) :
    h.srv.changes (row o) (args.cols.zip (sentArgs args.vals)) = true ↔
      (assigned args o).obj ≠ o.obj := by
  rw [TableServer.changes, List.any_eq_true, assign_row]
  constructor
  · intro hchange heq
    obtain ⟨col, -, hcol⟩ := hchange
    have hsame : assigned args o = o := by
      cases o
      exact congrArg (Record.mk _) heq
    rw [hsame] at hcol
    simp at hcol
  · intro hne
    by_contra hsame
    refine hne (Subtype.ext (List.ext_getElem? fun i => ?_))
    cases hfield : h.model.metadata[i]? with
    | none =>
      have hle := List.getElem?_eq_none_iff.mp hfield
      rw [List.getElem?_eq_none (by rw [ClassModel.length_object]; exact hle),
        List.getElem?_eq_none (by rw [ClassModel.length_object]; exact hle)]
    | some field =>
      obtain ⟨val, hval⟩ := members_getElem o.obj hfield
      obtain ⟨new, hnew⟩ := members_getElem (assigned args o).obj hfield
      by_cases hcol : field.getColumnName ∈ h.srv.columns
      · have hrow : row (assigned args o) field.getColumnName =
            row o field.getColumnName := by
          by_contra hdiffer
          exact hsame ⟨_, hcol, by simpa using hdiffer⟩
        rw [row_member o hfield hval hcol, row_member _ hfield hnew hcol] at hrow
        rw [hval, hnew, hrow]
      · rw [hval]
        exact setMembers_absent args.settable hfield hval hcol

/-! ## What is read from a row -/

/-- A column sets its member, and one without a member sets nothing. -/
theorem fillColumn_cases (o : h.Record) (acc : Obj) {col : Str} (hcol : col ∈ h.srv.columns) :
    (∃ (i : Nat) (field : FieldMeta) (val : Value), h.model.metadata[i]? = some field ∧
        field.getColumnName = col ∧ o.obj.1[i]? = some val ∧
        h.model.fillColumn ((row o).getters h.srv.stale) acc col = acc.set i val) ∨
      ((∀ field ∈ h.model.metadata, field.getColumnName ≠ col) ∧
        h.model.fillColumn ((row o).getters h.srv.stale) acc col = acc) := by
  rcases lookup_fillColumnToIndex h.model.metadata 0 ∅ col with
    ⟨i, field, hfield, hname, hlookup, -⟩ | ⟨hnone, hlookup⟩
  · obtain ⟨val, hval⟩ := members_getElem o.obj hfield
    rw [← h.columnToIndex, Nat.zero_add] at hlookup
    subst hname
    refine .inl ⟨i, field, val, hfield, rfl, hval, ?_⟩
    exact ClassModel.fillColumn_eq hlookup hfield
      (h.dispatched field (List.mem_of_getElem? hfield) hcol)
      (ClassModel.isMember_of_getElem o.obj hfield hval)
      (TableRow.getters_holds _ (row_member o hfield hval hcol))
  · refine .inr ⟨hnone, ?_⟩
    rw [← h.columnToIndex, AList.lookup_empty] at hlookup
    rw [Model.fillColumn, hlookup]

theorem length_fillColumn (m : Model) (rs : Row) (acc : Obj) (col : Str) :
    (m.fillColumn rs acc col).length = acc.length := by
  unfold Model.fillColumn
  repeat' split
  all_goals simp

theorem fillObject_getElem (o : h.Record) {cols : List Str}
    (hcols : ∀ col ∈ cols, col ∈ h.srv.columns) {i : Nat} {field : FieldMeta} {val old : Value}
    (hfield : h.model.metadata[i]? = some field) (hval : o.obj.1[i]? = some val) {acc : Obj}
    (hold : acc[i]? = some old) :
    (h.model.fillObject acc ((row o).getters h.srv.stale) cols)[i]? =
      some (if field.getColumnName ∈ cols then val else old) := by
  induction cols generalizing acc old with
  | nil => simpa [Model.fillObject] using hold
  | cons col cols ih =>
    have hrest : ∀ later ∈ cols, later ∈ h.srv.columns := fun later hlater =>
      hcols later (by simp [hlater])
    have hfold : h.model.fillObject acc ((row o).getters h.srv.stale) (col :: cols) =
        h.model.fillObject (h.model.fillColumn ((row o).getters h.srv.stale) acc col)
          ((row o).getters h.srv.stale) cols := rfl
    rw [hfold]
    rcases fillColumn_cases o acc (hcols col (by simp)) with
      ⟨j, found, read, hfound, rfl, hread, hset⟩ | ⟨hnone, hset⟩
    · rw [hset]
      by_cases hij : j = i
      · subst hij
        obtain rfl : found = field := Option.some.inj (hfound.symm.trans hfield)
        obtain rfl : read = val := Option.some.inj (hread.symm.trans hval)
        have hnew : (acc.set j read)[j]? = some read := by
          rw [List.getElem?_set_self (List.getElem?_eq_some_iff.mp hold).1]
        rw [ih hrest hnew, ite_self, if_pos List.mem_cons_self]
      · have hnew : (acc.set j read)[i]? = some old := by
          rw [List.getElem?_set_ne hij, hold]
        have hother : field.getColumnName ≠ found.getColumnName := fun hname =>
          hij (index_unique hfound hfield hname.symm)
        rw [ih hrest hnew]
        refine congrArg some (if_congr ?_ rfl rfl)
        rw [List.mem_cons]
        exact (or_iff_right hother).symm
    · rw [hset, ih hrest hold]
      refine congrArg some (if_congr ?_ rfl rfl)
      rw [List.mem_cons]
      exact (or_iff_right (hnone field (List.mem_of_getElem? hfield))).symm

theorem length_fillObject (m : Model) (rs : Row) (acc : Obj) (cols : List Str) :
    (m.fillObject acc rs cols).length = acc.length := by
  induction cols generalizing acc with
  | nil => rfl
  | cons col cols ih => exact (ih (m.fillColumn rs acc col)).trans (length_fillColumn m rs acc col)

/-- The columns that a query for these columns returns. -/
def returned (h : HostedClass) (cols : List Str) : List Str :=
  if cols = [] then h.srv.columns else cols

theorem fillObject_view (o : h.Record) {old : Obj} (hold : old.length = h.model.metadata.length)
    {cols : List Str} (hcols : ∀ col ∈ cols, col ∈ h.srv.columns) :
    h.model.fillObject old ((row o).getters h.srv.stale) (h.returned cols) =
      h.view cols old o.obj.1 := by
  have hreturned : ∀ col ∈ h.returned cols, col ∈ h.srv.columns := by
    intro col hcol
    unfold returned at hcol
    split at hcol
    · exact hcol
    · exact hcols col hcol
  have hmem (col : Str) :
      col ∈ h.returned cols ↔ col ∈ h.srv.columns ∧ (cols = [] ∨ col ∈ cols) := by
    unfold returned
    split
    · rename_i hnil
      simp [hnil]
    · rename_i hsome
      rw [or_iff_right hsome]
      exact ⟨fun hcol => ⟨hcols col hcol, hcol⟩, fun hcol => hcol.2⟩
  refine List.ext_getElem? fun i => ?_
  cases hfield : h.model.metadata[i]? with
  | none =>
    have hle := List.getElem?_eq_none_iff.mp hfield
    rw [List.getElem?_eq_none (by rw [length_fillObject, hold]; exact hle)]
    simp [view, List.getElem?_zipWith, hfield]
  | some field =>
    obtain ⟨val, hval⟩ := members_getElem o.obj hfield
    have hlt : i < old.length := by
      rw [hold]
      exact (List.getElem?_eq_some_iff.mp hfield).1
    have hget : old[i]? = some old[i] := List.getElem?_eq_getElem hlt
    have hzip : (o.obj.1.zip old)[i]? = some (val, old[i]) :=
      List.getElem?_zip_eq_some.mpr ⟨hval, hget⟩
    rw [fillObject_getElem o hreturned hfield hval hget, view, List.getElem?_zipWith, hfield, hzip]
    exact congrArg some (if_congr (hmem _) rfl rfl)

end HostedClass

/-! ## The collection -/

open HostedClass

inductive StoreOp (h : HostedClass) where
  | Create (t : h.Object)
  | CreateAll (v : List h.Object)
  | Update (args : h.Assignments)
  | Delete
  | First (t : h.Object)
  | All

namespace StoreOp

variable {h : HostedClass}

/-- The operation on the model. -/
def op : StoreOp h → Op
  | .Create t => .Create t.1
  | .CreateAll v => .CreateAll (v.map Subtype.val)
  | .Update args => .Update args.toAssignment
  | .Delete => .Delete
  | .First t => .First t.1
  | .All => .All

end StoreOp

/-- The records that are stored, how many there have ever been, and the calls that a `First`
without a row has left to the next operation. -/
structure Collection (h : HostedClass) where
  records : List h.Record
  inserted : Nat
  pending : List Call

namespace Collection

variable {h : HostedClass}

/-- The conditions of a chain hold of the record. -/
def About (calls : List Call) (o : h.Record) : Bool := chosen (h.srv.truth (row o)) calls

def chain (s : Collection h) (req : List Call × StoreOp h) : List Call := s.pending ++ req.1

def next (s : Collection h) (req : List Call × StoreOp h) : Collection h :=
  match req.2 with
  | .Create t => ⟨s.records ++ [kept s.inserted t], s.inserted + 1, []⟩
  | .CreateAll v => ⟨s.records ++ keptAll s.inserted v, s.inserted + v.length, []⟩
  | .Update args =>
    ⟨s.records.map fun o => if About (s.chain req) o then assigned args o else o, s.inserted, []⟩
  | .Delete => ⟨s.records.filter fun o => !About (s.chain req) o, s.inserted, []⟩
  | .First _ => ⟨s.records, s.inserted,
      if s.records.any (About (s.chain req)) then [] else s.chain req⟩
  | .All => ⟨s.records, s.inserted, []⟩

def answer (s : Collection h) (req : List Call × StoreOp h) : Answer :=
  match req.2 with
  | .Create _ => .done
  | .CreateAll _ => .done
  | .Update args => .count (s.records.countP fun o =>
      About (s.chain req) o && decide ((assigned args o).obj ≠ o.obj))
  | .Delete => .count (s.records.countP (About (s.chain req)))
  | .First t =>
    match s.records.find? (About (s.chain req)) with
    | none => .found 0 t.1
    | some o => .found 1 (h.view ((s.chain req).flatMap Call.columns) t.1 o.obj.1)
  | .All => .objects ((cutRows (limitOf (s.chain req) .All)
      (s.records.filter (About (s.chain req)))).map fun o =>
        h.view ((s.chain req).flatMap Call.columns) h.model.blank o.obj.1)

/-- The conditions can be read, with the arguments in their places, and so can the
statement as a whole: Update and Delete have no page, Delete has at most one condition,
Update a single one or none with an OR outside of parentheses. -/
def allows (s : Collection h) (req : List Call × StoreOp h) : Prop :=
  match req.2 with
  | .Create _ => True
  | .CreateAll v => v ≠ []
  | .Update _ => (∀ call ∈ s.chain req, call.Readable) ∧ Unpaged (s.chain req) ∧
      ((effective (s.chain req)).length ≤ 1 ∨ ∀ call ∈ s.chain req, call.Closed)
  | .Delete => (∀ call ∈ s.chain req, call.Readable) ∧ Unpaged (s.chain req) ∧
      (effective (s.chain req)).length ≤ 1
  | .First _ => (∀ call ∈ s.chain req, call.Readable) ∧ WellPaged (s.chain req) .First ∧
      ∀ col ∈ (s.chain req).flatMap Call.columns, col ∈ h.srv.columns
  | .All => (∀ call ∈ s.chain req, call.Readable) ∧ WellPaged (s.chain req) .All ∧
      ∀ col ∈ (s.chain req).flatMap Call.columns, col ∈ h.srv.columns

/-! ## One operation -/

/-- The table of the records. -/
def stored (s : Collection h) : StoredRows := ⟨s.records.map row, s.inserted⟩

/-- The model has the pending calls, and the table has the rows of the records. -/
def concrete (s : Collection h) : Model × StoredRows := (h.model.calls s.pending, s.stored)

theorem calls_reset (h : HostedClass) (calls : List Call) :
    (h.model.calls calls).reset = h.model := by
  have hfresh := h.fresh
  rw [Model.calls_eq, Model.reset]
  generalize h.model = m at hfresh
  obtain ⟨hconstraints, hselected⟩ := hfresh
  cases m
  subst hconstraints hselected
  rfl

theorem calls_append (m : Model) (calls more : List Call) :
    (m.calls calls).calls more = m.calls (calls ++ more) := by
  rw [Model.calls, Model.calls, Model.calls, List.foldl_append]

theorem readDml_insert {m : Model} {n : Nat} {stmt : Statement} (h : stmt.sql = m.insertAllText n) :
    readDml stmt = (insertedRows stmt).map .insert := by
  have hselect (rest : Sql) : (lit "INSERT INTO " ++ rest).dropPrefix? (lit "SELECT ") = none := rfl
  have hupdate (rest : Sql) : (lit "INSERT INTO " ++ rest).dropPrefix? (lit "UPDATE ") = none := rfl
  have hdelete (rest : Sql) :
      (lit "INSERT INTO " ++ rest).dropPrefix? (lit "DELETE FROM ") = none := rfl
  simp only [readDml, h, insertAllText_eq, hselect, hupdate, hdelete]

/-- The steps of a request. -/
theorem step_eq {m m' : Model} {rows rows' : StoredRows} {calls : List Call} {op : Op}
    {stmt : Statement} {dml : Dml} {reply : Reply} {answer : Answer}
    (hstmt : op.statement (m.calls calls) = some stmt) (hdml : readDml stmt = some dml)
    (hexecute : h.srv.execute rows dml = some (rows', reply))
    (hmodel : (op.run (m.calls calls) reply).1 = m')
    (hanswer : op.answer (m.calls calls) reply = answer) :
    h.srv.step (m, rows) (calls, op) = some ((m', rows'), answer) := by
  simp only [TableServer.step, hstmt, hdml, hexecute, hmodel, hanswer, Option.bind_eq_bind,
    Option.bind_some]

/-- The server inserts the rows of the records that it keeps. -/
theorem execute_insert (s : Collection h) (v : List h.Object) :
    h.srv.execute s.stored (.insert (v.map fun t => h.model.insertedRow t.1)) =
      some (⟨(s.records ++ keptAll s.inserted v).map row, s.inserted + v.length⟩,
        { rowAffect := v.length }) := by
  have hnew : ∀ r ∈ v.map fun t => h.model.insertedRow t.1, h.srv.Accepts r := by
    intro r hr
    obtain ⟨t, -, rfl⟩ := List.mem_map.mp hr
    exact accepts_insertedRow t
  rw [TableServer.execute, if_pos hnew, List.length_map, List.map_append]
  simp only [stored, newRows_insertedRows]

theorem step_create (s : Collection h) (calls : List Call) (t : h.Object) :
    h.srv.step s.concrete (calls, .Create t.1) =
      some ((s.next (calls, .Create t)).concrete, .done) := by
  have hsent : Op.statement ((h.model.calls s.pending).calls calls) (.Create t.1) =
      some (Model.bindMembers h.model.metadata t.1
        (Statement.prepare h.model.insertText, 1)).1 := by
    have hcalls : Op.statement ((h.model.calls s.pending).calls calls) (.Create t.1) =
        (h.model.Create t.1).sent := by
      rw [calls_append, Model.calls_eq]
      rfl
    rw [hcalls, ClassModel.sent_eq]
  have hrows := Model.insertedRows_single h.named ⟨t.1, ClassModel.length_object t⟩
  have hdml : readDml (Model.bindMembers h.model.metadata t.1
      (Statement.prepare h.model.insertText, 1)).1 = some (.insert [h.model.insertedRow t.1]) := by
    rw [readDml_insert (m := h.model) (n := 1), hrows]
    · rfl
    · rw [bindMembers_sql, Statement.prepare_sql, insertText_eq]
  refine step_eq hsent hdml (execute_insert s [t]) ?_ rfl
  rw [calls_append]
  exact calls_reset h _

theorem step_createAll (s : Collection h) (calls : List Call) {v : List h.Object} (hv : v ≠ []) :
    h.srv.step s.concrete (calls, .CreateAll (v.map Subtype.val)) =
      some ((s.next (calls, .CreateAll v)).concrete, .done) := by
  obtain ⟨conn, hconn⟩ := Option.isSome_iff_exists.mp h.connected
  let objects : List h.model.Object := v.map fun t => ⟨t.1, ClassModel.length_object t⟩
  have hobjects : objects.map Subtype.val = v.map Subtype.val := by simp [objects]
  have hsent : Op.statement ((h.model.calls s.pending).calls calls)
      (.CreateAll (v.map Subtype.val)) = some (objects.foldl
        (fun acc t => Model.bindMembers h.model.metadata t.1 acc)
        (Statement.prepare (h.model.insertAllText objects.length), 1)).1 := by
    have hcalls : Op.statement ((h.model.calls s.pending).calls calls)
        (.CreateAll (v.map Subtype.val)) = (h.model.CreateAll (v.map Subtype.val)).sent := by
      rw [calls_append, Model.calls_eq]
      rfl
    rw [hcalls, ← hobjects, Model.CreateAll_sent hconn]
  have hrows := Model.insertedRows_batch h.named (v := objects) (by simpa [objects] using hv)
  have hinserted : (objects.map fun t => h.model.insertedRow t.1) =
      v.map fun t => h.model.insertedRow t.1 := by simp [objects]
  have hdml : readDml (objects.foldl (fun acc t => Model.bindMembers h.model.metadata t.1 acc)
      (Statement.prepare (h.model.insertAllText objects.length), 1)).1 =
        some (.insert (v.map fun t => h.model.insertedRow t.1)) := by
    rw [readDml_insert (m := h.model) (n := objects.length), hrows, hinserted]
    · rfl
    · exact foldl_bindMembers_sql objects _
  refine step_eq hsent hdml (execute_insert s v) ?_ rfl
  rw [calls_append]
  exact calls_reset h _

/-- The predicate of a statement is about the records that the chain is about. -/
def Reads (predicate : Option (BoolExpr BoundAtom)) (calls : List Call) : Prop :=
  ∀ row, selectsBound predicate row = chosen row calls

theorem execute_update {predicate : Option (BoolExpr BoundAtom)} {calls : List Call}
    (hreads : Reads predicate calls) (args : h.Assignments) (s : Collection h) :
    h.srv.execute s.stored
        (.update h.model.getTableName (args.cols.zip (sentArgs args.vals)) predicate) =
      some (⟨(s.records.map fun o => if About calls o then assigned args o else o).map row,
          s.inserted⟩,
        { rowAffect := s.records.countP fun o =>
            About calls o && decide ((assigned args o).obj ≠ o.obj) }) := by
  have habout (o : h.Record) : selectsBound predicate (h.srv.truth (row o)) =
      About calls o := hreads _
  have hknown : h.model.getTableName = h.srv.name ∧
      ∀ p ∈ args.cols.zip (sentArgs args.vals), p.1 ∈ h.srv.columns := by
    refine ⟨h.table.symm, fun p hp => ?_⟩
    obtain ⟨val, hval⟩ : ∃ val, (p.1, val) ∈ args.pairs := by
      rw [sentArgs, List.zip_map_right] at hp
      obtain ⟨q, hq, rfl⟩ := List.mem_map.mp hp
      exact ⟨q.2, hq⟩
    exact (args.settable _ hval).1
  have hrows : (s.records.map row).map (fun row =>
      if selectsBound predicate (h.srv.truth row) then
        h.srv.assign row (args.cols.zip (sentArgs args.vals)) else row) =
      (s.records.map fun o => if About calls o then assigned args o else o).map row := by
    rw [List.map_map, List.map_map]
    refine List.map_congr_left fun o _ => ?_
    simp only [Function.comp_apply, habout]
    split
    · exact assign_row args o
    · rfl
  have hcount : (s.records.map row).countP (fun row =>
      selectsBound predicate (h.srv.truth row) &&
        h.srv.changes row (args.cols.zip (sentArgs args.vals))) =
      s.records.countP fun o => About calls o && decide ((assigned args o).obj ≠ o.obj) := by
    rw [List.countP_map]
    refine List.countP_congr fun o _ => ?_
    simp only [Function.comp_apply, habout, Bool.and_eq_true, changes_row, decide_eq_true_eq]
  rw [TableServer.execute, if_pos hknown]
  simp only [stored, hrows, hcount]

theorem execute_delete {predicate : Option (BoolExpr BoundAtom)} {calls : List Call}
    (hreads : Reads predicate calls) (s : Collection h) :
    h.srv.execute s.stored (.delete h.model.getTableName predicate) =
      some (⟨(s.records.filter fun o => !About calls o).map row, s.inserted⟩,
        { rowAffect := s.records.countP (About calls) }) := by
  have habout (o : h.Record) : selectsBound predicate (h.srv.truth (row o)) =
      About calls o := hreads _
  rw [TableServer.execute, if_pos h.table.symm]
  simp only [stored, List.filter_map, List.countP_map, Function.comp_def, habout]

theorem execute_select {predicate : Option (BoolExpr BoundAtom)} {calls : List Call}
    (hreads : Reads predicate calls) {cols : List Str} (hcols : ∀ col ∈ cols, col ∈ h.srv.columns)
    (limit : Option (Nat × Nat)) (s : Collection h) :
    h.srv.execute s.stored (.select cols h.model.getTableName predicate limit) =
      some (s.stored, {
        fieldNames := h.returned cols
        rows := some ((cutRows limit (s.records.filter (About calls))).map fun o =>
          (row o).getters h.srv.stale) }) := by
  have habout (o : h.Record) : selectsBound predicate (h.srv.truth (row o)) =
      About calls o := hreads _
  rw [TableServer.execute, if_pos ⟨h.table.symm, hcols⟩]
  simp only [stored, List.filter_map, cutRows_map, List.map_map, Function.comp_def, habout,
    returned]

theorem step_update (s : Collection h) (calls : List Call) (args : h.Assignments)
    (hallows : s.allows (calls, .Update args)) :
    h.srv.step s.concrete (calls, .Update args.toAssignment) =
      some ((s.next (calls, .Update args)).concrete, s.answer (calls, .Update args)) := by
  obtain ⟨hread, hpage, hclosed⟩ := hallows
  have hnames : ∀ name ∈ h.model.getTableName :: args.cols, '?' ∉ name := by
    intro name hname
    refine h.marks name ?_
    rcases List.mem_cons.mp hname with rfl | hcol
    · exact List.mem_cons_self
    · obtain ⟨k, hk⟩ := List.mem_iff_getElem?.mp hcol
      have hlt : k < args.vals.length := by
        rw [← args.same]
        exact (List.getElem?_eq_some_iff.mp hk).1
      have hpair : (name, args.vals[k]) ∈ args.cols.zip args.vals :=
        List.mem_of_getElem? (List.getElem?_zip_eq_some.mpr ⟨hk, List.getElem?_eq_getElem hlt⟩)
      exact List.mem_cons_of_mem _ (args.settable _ hpair).1
  obtain ⟨stmt, predicate, hsent, hdml, hreads⟩ := update_read h.fresh h.connected hread hpage
    hclosed args.toAssignment args.handled hnames {}
  rw [Model.Update_eq, Option.bind_some] at hsent
  refine step_eq ?_ hdml (execute_update hreads args s) ?_ ?_
  · rw [calls_append, Op.statement, Op.run, Model.Update_eq]
    exact hsent
  · rw [calls_append, Op.run, Model.Update_eq]
    exact calls_reset h _
  · rw [Op.answer, Model.Update_eq]
    rfl

theorem step_delete (s : Collection h) (calls : List Call) (hallows : s.allows (calls, .Delete)) :
    h.srv.step s.concrete (calls, .Delete) =
      some ((s.next (calls, .Delete)).concrete, s.answer (calls, .Delete)) := by
  obtain ⟨hread, hpage, hone⟩ := hallows
  obtain ⟨stmt, hsent, hdelete⟩ := delete_read h.fresh h.connected hread hpage
    (h.marks _ List.mem_cons_self) {}
  rw [if_pos hone] at hdelete
  obtain ⟨predicate, hdml, hreads⟩ := hdelete
  refine step_eq ?_ hdml (execute_delete hreads s) ?_ rfl
  · rw [calls_append]
    exact hsent
  · rw [calls_append]
    exact calls_reset h _

/-- The query of a chain, and its answer. -/
theorem step_query (s : Collection h) {req : List Call × StoreOp h} {op : ReadOp}
    (hread : ∀ call ∈ s.chain req, call.Readable) (hpage : WellPaged (s.chain req) op)
    (hcols : ∀ col ∈ (s.chain req).flatMap Call.columns, col ∈ h.srv.columns) :
    ∃ stmt dml, (h.model.calls (s.chain req)).prepareQuery op.limit = some stmt ∧
      readDml stmt = some dml ∧
      h.srv.execute s.stored dml = some (s.stored, {
        fieldNames := h.returned ((s.chain req).flatMap Call.columns)
        rows := some ((cutRows (limitOf (s.chain req) op)
          (s.records.filter (About (s.chain req)))).map fun o =>
            (row o).getters h.srv.stale) }) := by
  have hnames : ∀ name ∈ h.model.getTableName :: (s.chain req).flatMap Call.columns,
      '?' ∉ name := by
    intro name hname
    refine h.marks name ?_
    rcases List.mem_cons.mp hname with rfl | hcol
    · exact List.mem_cons_self
    · exact List.mem_cons_of_mem _ (hcols name hcol)
  obtain ⟨stmt, predicate, hsent, hdml, hreads⟩ := query_read h.fresh h.connected hread hpage hnames
  exact ⟨stmt, _, hsent, hdml, execute_select hreads hcols _ s⟩

theorem calls_fillObject (m : Model) (calls : List Call) (acc : Obj) (rs : Row) (cols : List Str) :
    (m.calls calls).fillObject acc rs cols = m.fillObject acc rs cols := by
  rw [Model.calls_eq]
  rfl

theorem calls_blank (m : Model) (calls : List Call) : (m.calls calls).blank = m.blank := by
  rw [Model.calls_eq]

theorem step_all (s : Collection h) (calls : List Call) (hallows : s.allows (calls, .All)) :
    h.srv.step s.concrete (calls, .All) =
      some ((s.next (calls, .All)).concrete, s.answer (calls, .All)) := by
  obtain ⟨hread, hpage, hcols⟩ := hallows
  obtain ⟨stmt, dml, hsent, hdml, hexecute⟩ := step_query s hread hpage hcols
  refine step_eq ?_ hdml hexecute ?_ ?_
  · rw [calls_append]
    exact ((h.model.calls (s.chain (calls, .All))).All_sent {}).trans hsent
  · rw [calls_append]
    exact calls_reset h _
  · rw [calls_append]
    simp only [Op.answer, Model.All, List.map_map, calls_fillObject, calls_blank]
    refine congrArg Answer.objects (List.map_congr_left fun o _ => ?_)
    exact fillObject_view o h.blank hcols

theorem step_first (s : Collection h) (calls : List Call) (t : h.Object)
    (hallows : s.allows (calls, .First t)) :
    h.srv.step s.concrete (calls, .First t.1) =
      some ((s.next (calls, .First t)).concrete, s.answer (calls, .First t)) := by
  obtain ⟨hread, hpage, hcols⟩ := hallows
  obtain ⟨stmt, dml, hsent, hdml, hexecute⟩ := step_query s hread hpage hcols
  have hlimit : limitOf (s.chain (calls, .First t)) .First = some (1, 0) := rfl
  have hstmt : Op.statement ((h.model.calls s.pending).calls calls) (.First t.1) = some stmt := by
    rw [calls_append]
    exact ((h.model.calls (s.chain (calls, .First t))).First_sent t.1 {}).trans hsent
  rw [hlimit] at hexecute
  cases hchosen : s.records.filter (About (s.chain (calls, .First t))) with
  | nil =>
    have hfind : s.records.find? (About (s.chain (calls, .First t))) = none := by
      rw [← List.head?_filter, hchosen]
      rfl
    have hany : s.records.any (About (s.chain (calls, .First t))) = false := by
      rw [List.any_eq_false]
      exact List.filter_eq_nil_iff.mp hchosen
    rw [hchosen] at hexecute
    refine step_eq hstmt hdml hexecute ?_ ?_
    · simp only [next, hany]
      rw [calls_append]
      rfl
    · simp only [answer, hfind]
      rw [calls_append]
      rfl
  | cons o rest =>
    have hfind : s.records.find? (About (s.chain (calls, .First t))) = some o := by
      rw [← List.head?_filter, hchosen]
      rfl
    have hany : s.records.any (About (s.chain (calls, .First t))) = true :=
      List.any_eq_true.mpr ⟨o, List.mem_of_find?_eq_some hfind, List.find?_some hfind⟩
    rw [hchosen] at hexecute
    refine step_eq hstmt hdml hexecute ?_ ?_
    · simp only [next, hany, if_true]
      rw [calls_append]
      exact calls_reset h _
    · simp only [answer, hfind]
      rw [calls_append]
      simp only [Op.answer, Model.First, cutRows, List.drop_zero, List.take_succ_cons,
        List.map_cons, calls_fillObject]
      rw [fillObject_view o (ClassModel.length_object t) hcols]

/-! ## Runs -/

theorem step_concrete (s : Collection h) (req : List Call × StoreOp h) (hallows : s.allows req) :
    h.srv.step s.concrete (req.1, req.2.op) = some ((s.next req).concrete, s.answer req) := by
  obtain ⟨calls, op⟩ := req
  cases op with
  | Create t => exact step_create s calls t
  | CreateAll v => exact step_createAll s calls hallows
  | Update args => exact step_update s calls args hallows
  | Delete => exact step_delete s calls hallows
  | First t => exact step_first s calls t hallows
  | All => exact step_all s calls hallows

def userFields : List FieldMeta :=
  [{ fieldName := "id".toList, cppType := "int".toList, columnName := some "ID".toList,
      isPk := true, autoInc := true, ignore := true },
    { fieldName := "age".toList, cppType := "int".toList }]

/-- Users with an id that the table gives them and an age; the server compares the age with
a number. The table has a column more than the class. -/
def users : HostedClass where
  model := {
    className := "User".toList
    metadata := userFields
    columnToIndex := fillColumnToIndex userFields 0 ∅
    blank := [.int 0, .int 0]
    conn := some 0 }
  connected := rfl
  types := by decide
  columnToIndex := rfl
  srv := {
    name := "user".toList
    columns := ["ID".toList, "nick".toList, "age".toList]
    truth := fun row p =>
      match row "age".toList, p.2 with
      | some (.int n), [some ⟨_, .int k⟩] =>
        some (if p.1 = "age > ?".toList then k < n else n = k)
      | _, _ => none
    keep := fun _ val => val
    fill := fun number col => if col = "ID".toList then some (.int (Int32.ofNat (number + 1)))
      else none
    stale := ⟨fun _ => 7, fun _ => [], fun _ => 0⟩ }
  fresh := ⟨rfl, rfl⟩
  named := ⟨by decide, by decide⟩
  blank := rfl
  table := by decide
  distinct := by decide
  sent := by decide
  marks := by decide
  dispatched := by decide
  keeps := fun _ _ _ _ hval => hval
  fills := by
    intro field hfield hignore _ number
    have hid : ∀ field ∈ userFields, field.ignore = true →
        field.getColumnName = "ID".toList ∧ field.cppType = "int".toList := by decide
    obtain ⟨hname, htype⟩ := hid field hfield hignore
    rw [hname]
    exact ⟨_, rfl, .inl htype⟩

def user (age : Int32) : users.Object :=
  ⟨[.int 0, .int age], .cons (.inl rfl) (.cons (.inl rfl) .nil)⟩

def setAge (age : Int32) : users.Assignments where
  cols := ["age".toList]
  vals := [.int age]
  same := rfl
  some_col := by simp
  settable := by
    intro p hp
    rw [List.mem_singleton.mp hp]
    have hcol : "age".toList ∈ users.srv.columns ∧
        ∃ field ∈ userFields, field.getColumnName = "age".toList := by decide
    have hint : ∀ field ∈ userFields, field.cppType = "int".toList := by decide
    exact ⟨hcol.1, hcol.2, fun field hfield _ => .inl (hint field hfield)⟩
  handled := by
    intro val hval
    rw [List.mem_singleton.mp hval]
    trivial

end Collection

end TinyOrm
