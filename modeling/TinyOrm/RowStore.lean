import TinyOrm.StatementReading
import TinyOrm.ObjectRows
import TinyOrm.Session
set_option autoImplicit false

/-!
A server with one table, and what it makes of the statements of a `Model`.
-/

namespace TinyOrm

/-- A name is looked for from the front. -/
@[reducible] def decideName (name : Str) (names : List Str) : Decidable (name ∈ names) :=
  decidable_of_iff (names.any (· = name) = true) (by simp)

attribute [local instance] decideName

/-- The values of a row by column; `none` is NULL. -/
abbrev TableRow := Str → Option Value

/-- The getters of a row that a query has returned. They do not look for NULL or for the
type of the column: `stale` is what they show then. -/
def TableRow.getters (stale : Row) (row : TableRow) : Row where
  getInt col := match row col with
    | some (.int n) => n
    | _ => stale.getInt col
  getString col := match row col with
    | some (.string s) => s
    | _ => stale.getString col
  getTime col := match row col with
    | some (.timestamp us) => us
    | _ => stale.getTime col

theorem TableRow.getters_holds (stale : Row) {row : TableRow} {col : Str} {val : Value}
    (h : row col = some val) : (row.getters stale).Holds col val := by
  cases val with
  | int n => simp [Row.Holds, getters, h]
  | string s => simp [Row.Holds, getters, h]
  | timestamp us => simp [Row.Holds, getters, h]
  | _ => trivial

/-- A table: whether an atomic predicate is true of a row, what a column keeps of a value
that is sent to it, and what the row with a number has in a column for which nothing is
sent (AUTO_INCREMENT, or a default). -/
structure TableServer where
  name : Str
  columns : List Str
  truth : TableRow → BoundAtom → Option Bool
  keep : Str → Value → Value
  fill : Nat → Str → Option Value
  stale : Row

/-- The rows of a table, and how many have ever been inserted. -/
structure StoredRows where
  rows : List TableRow
  inserted : Nat

/-- The rows from the second number of a limit on, at most as many as the first one. -/
def cutRows {α : Type} (limit : Option (Nat × Nat)) (rows : List α) : List α :=
  match limit with
  | none => rows
  | some (n, offset) => (rows.drop offset).take n

theorem cutRows_map {α β : Type} (f : α → β) (limit : Option (Nat × Nat)) (rows : List α) :
    cutRows limit (rows.map f) = (cutRows limit rows).map f := by
  cases limit with
  | none => rfl
  | some limit => simp [cutRows, List.map_take, List.map_drop]

namespace TableServer

variable (srv : TableServer)

def set (row : TableRow) (p : Str × Option Param) : TableRow :=
  fun col => if col = p.1 then p.2.map fun param => srv.keep p.1 param.value else row col

/-- Assignments are made from the left. -/
def assign (row : TableRow) (values : List (Str × Option Param)) : TableRow :=
  values.foldl srv.set row

/-- Whether the row is another one after the assignments. -/
def changes (row : TableRow) (values : List (Str × Option Param)) : Bool :=
  srv.columns.any fun col => srv.assign row values col ≠ row col

/-- The row with the number before anything is assigned to it. -/
def filled (number : Nat) : TableRow :=
  fun col => if col ∈ srv.columns then srv.fill number col else none

/-- The rows are numbered in the order in which they come. -/
def newRows : Nat → List InsertedRow → List TableRow
  | _, [] => []
  | number, r :: new => srv.assign (srv.filled number) r.values :: newRows (number + 1) new

/-- An INSERT into this table may name each of its columns once. -/
def Accepts (r : InsertedRow) : Prop :=
  r.table = srv.name ∧ (r.values.map Prod.fst).Nodup ∧ ∀ p ∈ r.values, p.1 ∈ srv.columns

instance (r : InsertedRow) : Decidable (srv.Accepts r) := inferInstanceAs (Decidable (_ ∧ _ ∧ _))

/-- The new rows of the table and the answer. A name that is unknown is refused. Only a row
that is changed counts as affected by an UPDATE. -/
def execute (t : StoredRows) : Dml → Option (StoredRows × Reply)
  | .insert new =>
    if ∀ r ∈ new, srv.Accepts r then
      some (⟨t.rows ++ srv.newRows t.inserted new, t.inserted + new.length⟩,
        { rowAffect := new.length })
    else none
  | .update table values predicate =>
    if table = srv.name ∧ ∀ p ∈ values, p.1 ∈ srv.columns then
      some ({ t with rows := t.rows.map fun row =>
          if selectsBound predicate (srv.truth row) then srv.assign row values else row },
        { rowAffect := t.rows.countP fun row =>
            selectsBound predicate (srv.truth row) && srv.changes row values })
    else none
  | .delete table predicate =>
    if table = srv.name then
      some ({ t with rows := t.rows.filter fun row => !selectsBound predicate (srv.truth row) },
        { rowAffect := t.rows.countP fun row => selectsBound predicate (srv.truth row) })
    else none
  | .select columns table predicate limit =>
    if table = srv.name ∧ ∀ col ∈ columns, col ∈ srv.columns then
      some (t, {
        fieldNames := if columns = [] then srv.columns else columns
        rows := some ((cutRows limit
          (t.rows.filter fun row => selectsBound predicate (srv.truth row))).map
            (TableRow.getters srv.stale)) })
    else none

variable {srv}

theorem assign_of_not_mem {row : TableRow} {values : List (Str × Option Param)} {col : Str}
    (h : col ∉ values.map Prod.fst) : srv.assign row values col = row col := by
  induction values generalizing row with
  | nil => rfl
  | cons p values ih =>
    rw [List.map_cons, List.mem_cons, not_or] at h
    have hstep : srv.assign row (p :: values) = srv.assign (srv.set row p) values := rfl
    rw [hstep, ih h.2, set, if_neg h.1]

theorem assign_of_mem {row : TableRow} {values : List (Str × Option Param)}
    (hdistinct : (values.map Prod.fst).Nodup) {p : Str × Option Param} (hp : p ∈ values) :
    srv.assign row values p.1 = p.2.map fun param => srv.keep p.1 param.value := by
  induction values generalizing row with
  | nil => cases hp
  | cons q values ih =>
    obtain ⟨hnew, hdistinct⟩ := List.nodup_cons.mp hdistinct
    have hstep : srv.assign row (q :: values) = srv.assign (srv.set row q) values := rfl
    rw [hstep]
    rcases List.mem_cons.mp hp with rfl | hp
    · rw [assign_of_not_mem hnew, set, if_pos rfl]
    · exact ih hdistinct hp

end TableServer

/-! ## A model and the server -/

/-- What an operation returns. -/
inductive Answer where
  | done
  | count (rowAffect : Nat)
  | found (n : Nat) (t : Obj)
  | objects (v : List Obj)
  deriving DecidableEq, Repr

/-- The statement of the operation, which its answer does not change. -/
def Op.statement (m : Model) (op : Op) : Option Statement := (op.run m {}).2

def Op.answer (m : Model) (reply : Reply) : Op → Answer
  | .Create _ => .done
  | .CreateAll _ => .done
  | .Update args =>
    match m.Update args reply with
    | none => .done
    | some d => .count d.result
  | .Delete => .count (m.Delete reply).result
  | .First t => let d := m.First t reply; .found d.result.1 d.result.2
  | .All => .objects (m.All reply).result
  | .RawFetch sql args => .objects ((m.Raw sql args).Fetch reply).result
  | .RawExec sql args => .count ((m.Raw sql args).Exec reply).result

/-- Builder calls and the operation that ends them. None where the statement is refused:
what the program does then is not defined. -/
def TableServer.step (srv : TableServer) (s : Model × StoredRows) (req : List Call × Op) :
    Option ((Model × StoredRows) × Answer) := do
  let m := s.1.calls req.1
  let stmt ← req.2.statement m
  let dml ← readDml stmt
  let (t, reply) ← srv.execute s.2 dml
  some (((req.2.run m reply).1, t), req.2.answer m reply)

end TinyOrm
