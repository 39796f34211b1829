import TinyOrm.Model
set_option autoImplicit false

/-!
Chains of builder calls.
-/

namespace TinyOrm

inductive Call where
  | select (args : List Str)
  | cond_and (cond : Sql) (args : List Value)
  | cond_or (cond : Sql) (args : List Value)
  | page (pageNum pageSize : Int32)
  deriving DecidableEq, Repr

namespace Call

def apply (m : Model) : Call → Model
  | select args => m.Select args
  | cond_and cond args => m.Where cond args
  | cond_or cond args => m.Or cond args
  | page pageNum pageSize => m.Page pageNum pageSize

/-- The condition of a `Where` or an `Or`. -/
def condition : Call → Option Sql
  | cond_and cond _ => some cond
  | cond_or cond _ => some cond
  | _ => none

def args : Call → List Value
  | cond_and _ args => args
  | cond_or _ args => args
  | _ => []

def columns : Call → List Str
  | select args => args
  | _ => []

/-- The constraint a call appends; a `Page` with an argument that is not
positive appends none. -/
def constraint : Call → Option Constraint
  | select _ => none
  | cond_and cond args => some (bindVals ⟨cond, .AND, []⟩ args)
  | cond_or cond args => some (bindVals ⟨cond, .OR, []⟩ args)
  | page pageNum pageSize =>
    if pageSize ≤ 0 ∨ pageNum ≤ 0 then none else some ⟨Model.pageText pageNum pageSize, .LIMIT, []⟩

theorem constraint_cond_and (cond : Sql) (args : List Value) :
    (cond_and cond args).constraint = some (bindVals ⟨cond, .AND, []⟩ args) := rfl

theorem constraint_cond_or (cond : Sql) (args : List Value) :
    (cond_or cond args).constraint = some (bindVals ⟨cond, .OR, []⟩ args) := rfl

end Call

/-- No builder call is pending. -/
def Model.Fresh (m : Model) : Prop := m.constraints = [] ∧ m.selectedColumns = []

def Model.calls (m : Model) (calls : List Call) : Model := calls.foldl Call.apply m

/-- A builder call touches the two lists of the builder only. -/
theorem Call.apply_eq (m : Model) (call : Call) :
    call.apply m =
      { m with
        selectedColumns := m.selectedColumns ++ call.columns
        constraints := m.constraints ++ call.constraint.toList } := by
  cases call with
  | page pageNum pageSize =>
    by_cases h : pageSize ≤ 0 ∨ pageNum ≤ 0 <;>
      simp [Call.apply, Model.Page, Call.columns, Call.constraint, h]
  | _ => simp [Call.apply, Model.Select, Model.Where, Model.Or, Call.columns, Call.constraint]

theorem Model.calls_eq (m : Model) (calls : List Call) :
    m.calls calls =
      { m with
        selectedColumns := m.selectedColumns ++ calls.flatMap Call.columns
        constraints := m.constraints ++ calls.filterMap Call.constraint } := by
  induction calls generalizing m with
  | nil => simp [Model.calls]
  | cons call calls ih =>
    have hstep : m.calls (call :: calls) = (call.apply m).calls calls := rfl
    rw [hstep, ih, Call.apply_eq]
    cases hc : call.constraint <;> simp [hc]

theorem Model.Fresh.calls_constraints {m : Model} (h : m.Fresh) (calls : List Call) :
    (m.calls calls).constraints = calls.filterMap Call.constraint := by
  simp [Model.calls_eq, h.1]

theorem Model.Fresh.calls_selectedColumns {m : Model} (h : m.Fresh) (calls : List Call) :
    (m.calls calls).selectedColumns = calls.flatMap Call.columns := by
  simp [Model.calls_eq, h.2]

@[simp] theorem Model.calls_getTableName (m : Model) (calls : List Call) :
    (m.calls calls).getTableName = m.getTableName := by
  simp [Model.calls_eq, Model.getTableName, Model.getDefaultTableName]

@[simp] theorem Model.calls_conn (m : Model) (calls : List Call) :
    (m.calls calls).conn = m.conn := by
  simp [Model.calls_eq]

end TinyOrm
