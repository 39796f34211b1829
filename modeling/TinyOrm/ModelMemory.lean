import TinyOrm.Binding
import TinyOrm.Session
import TinyOrm.StatementMemory
set_option autoImplicit false

/-!
The values that a `Model` binds, behind the pointers it keeps them by (model.h).

The members of a `Model` other than its constraints are the same as without pointers.
-/

namespace TinyOrm

open Memory

/-! ## Constraints -/

/-- A `Constraint`; a bound value is the name of its type and a pointer. -/
structure ConstraintObject where
  condition : Sql := []
  conj : Conj := .unset
  bindValues : List (Str × Nat) := []

namespace ConstraintObject

def bindVal (c : ConstraintObject) (val : Value) : Prog Block ConstraintObject := do
  let bind ← alloc (.value val)
  pure { c with bindValues := c.bindValues ++ [(val.ormType, bind)] }

def bindVals (c : ConstraintObject) (args : List Value) : Prog Block ConstraintObject :=
  args.foldlM bindVal c

/-- All that the texts of the statements are made of. -/
def texts (c : ConstraintObject) : Constraint := ⟨c.condition, c.conj, []⟩

end ConstraintObject

/-- The pointers are those of `constraints`, not those of `members`. -/
structure ModelObject where
  members : Model
  constraints : List ConstraintObject

/-! ## Bound values -/

def Block.isValue (type : Str) : Block → Bool
  | value val => val.ormType = type
  | _ => false

/-- `*(T*)bind.second`. -/
def loadValue (type : Str) (a : Nat) : Prog Block Value := do
  match ← load a with
  | .value val => if val.ormType = type then pure val else undefined
  | _ => undefined

/-- `delete (T*)bind.second`. -/
def deleteValue (type : Str) (a : Nat) : Prog Block Unit := free (Block.isValue type) a

namespace ModelObject

/-- The model that the texts are made of. -/
def texts (o : ModelObject) : Model :=
  { o.members with constraints := o.constraints.map ConstraintObject.texts }

/-- Builder calls. -/
def apply (o : ModelObject) : Call → Prog Block ModelObject
  | .select args => pure { o with members := o.members.Select args }
  | .cond_and cond args => do
    let c ← ConstraintObject.bindVals ⟨cond, .AND, []⟩ args
    pure { o with constraints := o.constraints ++ [c] }
  | .cond_or cond args => do
    let c ← ConstraintObject.bindVals ⟨cond, .OR, []⟩ args
    pure { o with constraints := o.constraints ++ [c] }
  | .page pageNum pageSize =>
    if pageSize ≤ 0 ∨ pageNum ≤ 0 then pure o
    else pure { o with
      constraints := o.constraints ++ [⟨Model.pageText pageNum pageSize, .LIMIT, []⟩] }

/-- The constraints that were there are cleared with their pointers. -/
def Raw (o : ModelObject) (_sql : Str) (args : List Value) : Prog Block ModelObject := do
  let c ← ConstraintObject.bindVals {} args
  pure { members := o.members.Raw _sql args, constraints := [c] }

/-- One pass of the inner loop of `bindParams`, with the running `index`. -/
def bindParam (acc : StatementObject × Nat) (bind : Str × Nat) :
    Prog Block (StatementObject × Nat) :=
  let (stmt, index) := acc
  if bind.1 = ORM_TYPE_INT then do
    let val ← loadValue ORM_TYPE_INT bind.2
    let stmt ← stmt.setParam index .MYSQL_TYPE_LONG val
    pure (stmt, index + 1)
  else if bind.1 = ORM_TYPE_FLOAT then do
    let val ← loadValue ORM_TYPE_FLOAT bind.2
    let stmt ← stmt.setParam index .MYSQL_TYPE_FLOAT val
    pure (stmt, index + 1)
  else if getCppTypeName bind.1 = ORM_TYPE_STRING then do
    let val ← loadValue ORM_TYPE_STRING bind.2
    let stmt ← stmt.setParam index .MYSQL_TYPE_STRING val
    pure (stmt, index + 1)
  else if bind.1 = ORM_TYPE_CONST_STR then do
    let val ← loadValue ORM_TYPE_CONST_STR bind.2
    let stmt ← stmt.setParam index .MYSQL_TYPE_STRING val
    pure (stmt, index + 1)
  else if getCppTypeName bind.1 = ORM_TYPE_TIMESTAMP then do
    let val ← loadValue ORM_TYPE_TIMESTAMP bind.2
    let stmt ← stmt.setParam index .MYSQL_TYPE_TIMESTAMP val
    pure (stmt, index + 1)
  else pure (stmt, index)

def bindParams (constraints : List ConstraintObject) (stmt : StatementObject) :
    Prog Block StatementObject := do
  let acc ← (constraints.flatMap ConstraintObject.bindValues).foldlM bindParam (stmt, 1)
  pure acc.1

/-- The loop of `Create` over the members that are not ignored. -/
def bindMembers : List FieldMeta → Obj → StatementObject × Nat →
    Prog Block (StatementObject × Nat)
  | field :: fields, val :: vals, (stmt, cnt) =>
    if field.ignore then bindMembers fields vals (stmt, cnt)
    else if field.cppType = ORM_TYPE_INT then do
      let stmt ← stmt.setParam cnt .MYSQL_TYPE_LONG val
      bindMembers fields vals (stmt, cnt + 1)
    else if getCppTypeName field.cppType = ORM_TYPE_STRING then do
      let stmt ← stmt.setParam cnt .MYSQL_TYPE_STRING val
      bindMembers fields vals (stmt, cnt + 1)
    else if getCppTypeName field.cppType = ORM_TYPE_TIMESTAMP then do
      let stmt ← stmt.setParam cnt .MYSQL_TYPE_TIMESTAMP val
      bindMembers fields vals (stmt, cnt + 1)
    else bindMembers fields vals (stmt, cnt + 1)
  | _, _, acc => pure acc

/-- The deletes of `reset`, which has none for ORM_TYPE_LONG_LONG. -/
def deleteBind (bind : Str × Nat) : Prog Block Unit :=
  if bind.1 = ORM_TYPE_INT then deleteValue ORM_TYPE_INT bind.2
  else if bind.1 = ORM_TYPE_FLOAT then deleteValue ORM_TYPE_FLOAT bind.2
  else if bind.1 = ORM_TYPE_DOUBLE then deleteValue ORM_TYPE_DOUBLE bind.2
  else if getCppTypeName bind.1 = ORM_TYPE_STRING then deleteValue ORM_TYPE_STRING bind.2
  else if getCppTypeName bind.1 = ORM_TYPE_TIMESTAMP then deleteValue ORM_TYPE_TIMESTAMP bind.2
  else if bind.1 = ORM_TYPE_CONST_STR then deleteValue ORM_TYPE_CONST_STR bind.2
  else pure ()

def reset (o : ModelObject) : Prog Block ModelObject := do
  (o.constraints.flatMap ConstraintObject.bindValues).foldlM (fun _ bind => deleteBind bind) ()
  pure { members := o.members.reset, constraints := [] }

/-! ## Operations -/

/-- The columns that the server reports for the text of a statement. -/
abbrev Columns := Sql → List ReportedColumn

variable (columns : Columns)

/-- There is no statement without a connection, and no operation does without one. -/
def prepareStatement (o : ModelObject) (sql : Sql) : Prog Block StatementObject :=
  match o.members.conn with
  | none => undefined
  | some _ => StatementObject.construct sql (.prepared (columns sql) (placeholders sql))

/-- A statement that changes rows, up to the end of its scope. -/
def executeUpdate (o : ModelObject) (sql : Sql)
    (bind : StatementObject → Prog Block StatementObject) (leave : Prog Block ModelObject) :
    Prog Block (ModelObject × Option Statement) := do
  let stmt ← o.prepareStatement columns sql
  let stmt ← bind stmt
  let sent ← stmt.execute
  let o ← leave
  stmt.destroy
  pure (o, some sent)

/-- `next` writes to the buffers of the results, and the getters read them. -/
def fetchRow (stmt : StatementObject) : Prog Block Unit :=
  stmt.resBind.foldlM (fun _ bind => do
    let _ ← load bind.buffer
    let _ ← load bind.length
    let _ ← load bind.is_null
    let _ ← load bind.error
    pure ()) ()

/-- A query, up to the end of the scopes of its result and its statement. `moved`: the
statement is the one that `prepareQuery` returns. -/
def executeQuery (o : ModelObject) (sql : Sql) (moved : Bool) (rows : Option (List Row))
    (fetched : Nat) (leave : Prog Block ModelObject) :
    Prog Block (ModelObject × Option Statement) := do
  let stmt ← o.prepareStatement columns sql
  let stmt ← bindParams o.constraints stmt
  if moved then stmt.moveConstruct.2.destroy
  let stmt := if moved then stmt.moveConstruct.1 else stmt
  let sent ← stmt.execute
  match rows with
  | none => do
    let o ← leave
    stmt.destroy
    pure (o, some sent)
  | some _ => do
    let result ← alloc .result
    (List.range fetched).foldlM (fun _ _ => fetchRow stmt) ()
    let o ← leave
    free (· = .result) result
    stmt.destroy
    pure (o, some sent)

/-- `Update` puts a copy of the constraint of its values in front, pointers included. -/
def Update (o : ModelObject) (args : Assignment) : Prog Block (ModelObject × Option Statement) := do
  let binds ← ConstraintObject.bindVals {} args.vals
  let o := { o with constraints := binds :: o.constraints }
  let sql := lit "UPDATE " ++ word o.members.getTableName ++ lit " SET " ++ setText args.cols ++
    Model.updateWhere o.texts.constraints
  o.executeUpdate columns sql (bindParams o.constraints) o.reset

/-- How many rows `First` fetches. -/
def firstRow : Option (List Row) → Nat
  | some (_ :: _) => 1
  | _ => 0

def run (o : ModelObject) (reply : Reply) : Op → Prog Block (ModelObject × Option Statement)
  | .Create t => o.executeUpdate columns o.members.insertText (fun stmt => do
      let acc ← bindMembers o.members.metadata t (stmt, 1)
      pure acc.1) o.reset
  | .CreateAll v => o.executeUpdate columns (o.members.insertAllText v.length) (fun stmt => do
      let acc ← v.foldlM (fun acc t => bindMembers o.members.metadata t acc) (stmt, 1)
      pure acc.1) o.reset
  | .Update args => o.Update columns args
  | .Delete => o.executeUpdate columns o.texts.deleteText (bindParams o.constraints) o.reset
  | .First _ => o.executeQuery columns (o.texts.queryText 1) true reply.rows (firstRow reply.rows)
      (if firstRow reply.rows = 0 then pure o else o.reset)
  | .All => o.executeQuery columns (o.texts.queryText (-1)) true reply.rows
      (reply.rows.getD []).length (if reply.rows.isSome then o.reset else pure o)
  | .RawFetch sql args => do
    let o ← o.Raw sql args
    if o.members.status = .QUERY then
      o.executeQuery columns (ofStr o.members.rawSql) false reply.rows (reply.rows.getD []).length
        (if reply.rows.isSome then o.reset else pure o)
    else pure (o, none)
  | .RawExec sql args => do
    let o ← o.Raw sql args
    if o.members.status = .UPDATE then
      o.executeUpdate columns (ofStr o.members.rawSql) (bindParams o.constraints)
        (pure { o with members := { o.members with conn := none } })
    else pure (o, none)

/-- The operations one after another; the destructor deletes no value. -/
def session : ModelObject → List Segment → Prog Block (List (Option Statement))
  | _, [] => pure []
  | o, seg :: segs => do
    let o ← seg.calls.foldlM apply o
    let (o, sent) ← o.run columns seg.reply seg.op
    let sents ← session o segs
    pure (sent :: sents)

end ModelObject

/-! ## What a model owns -/

def valueCells (binds : List (Nat × Value)) : Cells Block :=
  (binds.map fun b => (b.1, Block.value b.2) : List (Nat × Block))

@[simp] theorem valueCells_append (binds more : List (Nat × Value)) :
    valueCells (binds ++ more) = valueCells binds + valueCells more := by
  simp [valueCells]

/-- A constraint with the values behind its pointers. -/
structure OwningConstraint where
  condition : Sql := []
  conj : Conj := .unset
  binds : List (Nat × Value) := []

namespace OwningConstraint

def object (c : OwningConstraint) : ConstraintObject :=
  ⟨c.condition, c.conj, c.binds.map fun b => (b.2.ormType, b.1)⟩

def value (c : OwningConstraint) : Constraint :=
  ⟨c.condition, c.conj, c.binds.map fun b => (b.2.ormType, b.2)⟩

theorem bindVal_spec (c : OwningConstraint) (val : Value) :
    Triple (valueCells c.binds) (c.object.bindVal val) fun o own => ∃ c' : OwningConstraint,
      o = c'.object ∧ c'.value = bindVal c.value val ∧ own = valueCells c'.binds := by
  refine .alloc_bind fun a => .pure ⟨{ c with binds := c.binds ++ [(a, val)] }, ?_, ?_, ?_⟩
  · simp [object]
  · simp [value, bindVal]
  · rw [valueCells_append, add_comm]
    rfl

theorem bindVals_spec (c : OwningConstraint) (args : List Value) :
    Triple (valueCells c.binds) (c.object.bindVals args) fun o own => ∃ c' : OwningConstraint,
      o = c'.object ∧ c'.value = bindVals c.value args ∧ own = valueCells c'.binds := by
  have hloop := Triple.foldlM (f := ConstraintObject.bindVal) (l := args) (b := c.object)
    (I := fun rest o own => ∃ c' : OwningConstraint, o = c'.object ∧
      bindVals c'.value rest = bindVals c.value args ∧ own = valueCells c'.binds) ?_
    ⟨c, rfl, rfl, rfl⟩
  · exact hloop
  · intro val rest o own hinv
    obtain ⟨c', rfl, hrest, rfl⟩ := hinv
    refine (bindVal_spec c' val).mono fun o own hround => ?_
    obtain ⟨c'', ho, hval, hown⟩ := hround
    refine ⟨c'', ho, ?_, hown⟩
    rw [hval, ← hrest]
    rfl

end OwningConstraint

structure OwningModel where
  members : Model
  constraints : List OwningConstraint

namespace OwningModel

def object (M : OwningModel) : ModelObject := ⟨M.members, M.constraints.map OwningConstraint.object⟩

def value (M : OwningModel) : Model :=
  { M.members with constraints := M.constraints.map OwningConstraint.value }

def binds (M : OwningModel) : List (Nat × Value) := M.constraints.flatMap OwningConstraint.binds

def cells (M : OwningModel) : Cells Block := valueCells M.binds

/-- A constraint behind the others. -/
theorem push_cells (M : OwningModel) (c : OwningConstraint) :
    cells { M with constraints := M.constraints ++ [c] } = valueCells c.binds + M.cells := by
  simp [cells, binds, add_comm]

theorem where_spec (M : OwningModel) (cond : Sql) (conj : Conj) (args : List Value) :
    Triple M.cells (ConstraintObject.bindVals ⟨cond, conj, []⟩ args >>= fun c =>
        pure { M.object with constraints := M.object.constraints ++ [c] }) fun o own =>
      ∃ M' : OwningModel, o = M'.object ∧ M'.value = { M.value with
        constraints := M.value.constraints ++ [bindVals ⟨cond, conj, []⟩ args] } ∧
          own = M'.cells := by
  rw [← zero_add M.cells]
  refine (OwningConstraint.bindVals_spec ⟨cond, conj, []⟩ args).bind fun c own hown => .pure ?_
  obtain ⟨c, rfl, hvalue, rfl⟩ := hown
  refine ⟨{ M with constraints := M.constraints ++ [c] }, ?_, ?_, ?_⟩
  · simp [object]
  · have hnil : OwningConstraint.value ⟨cond, conj, []⟩ = ⟨cond, conj, []⟩ := rfl
    rw [← hnil, ← hvalue]
    simp [value]
  · rw [push_cells]

theorem apply_spec (M : OwningModel) (call : Call) :
    Triple M.cells (M.object.apply call) fun o own => ∃ M' : OwningModel,
      o = M'.object ∧ M'.value = call.apply M.value ∧ own = M'.cells := by
  cases call with
  | select args => exact .pure ⟨{ M with members := M.members.Select args }, rfl, rfl, rfl⟩
  | cond_and cond args => exact M.where_spec cond .AND args
  | cond_or cond args => exact M.where_spec cond .OR args
  | page pageNum pageSize =>
    simp only [ModelObject.apply, Call.apply, Model.Page]
    split
    · exact .pure ⟨M, rfl, rfl, rfl⟩
    · refine .pure ⟨{ M with constraints := M.constraints ++
        [⟨Model.pageText pageNum pageSize, .LIMIT, []⟩] }, ?_, ?_, ?_⟩
      · simp [object, OwningConstraint.object]
      · simp [value, OwningConstraint.value]
      · rw [push_cells]
        exact (zero_add _).symm

theorem calls_spec (M : OwningModel) (calls : List Call) :
    Triple M.cells (calls.foldlM ModelObject.apply M.object) fun o own => ∃ M' : OwningModel,
      o = M'.object ∧ M'.value = M.value.calls calls ∧ own = M'.cells := by
  have hloop := Triple.foldlM (f := ModelObject.apply) (l := calls) (b := M.object)
    (I := fun rest o own => ∃ M' : OwningModel, o = M'.object ∧
      M'.value.calls rest = M.value.calls calls ∧ own = M'.cells) ?_ ⟨M, rfl, rfl, rfl⟩
  · exact hloop
  · intro call rest o own hinv
    obtain ⟨M', rfl, hrest, rfl⟩ := hinv
    refine (M'.apply_spec call).mono fun o own hround => ?_
    obtain ⟨M'', ho, hvalue, hown⟩ := hround
    refine ⟨M'', ho, ?_, hown⟩
    rw [hvalue, ← hrest]
    rfl

theorem Raw_spec (M : OwningModel) (_sql : Str) (args : List Value) :
    Triple M.cells (M.object.Raw _sql args) fun o own => ∃ M' : OwningModel,
      o = M'.object ∧ M'.value = M.value.Raw _sql args ∧ own = M'.cells + M.cells := by
  rw [← zero_add M.cells]
  refine (OwningConstraint.bindVals_spec {} args).bind fun c own hown => .pure ?_
  obtain ⟨c, rfl, hvalue, rfl⟩ := hown
  refine ⟨⟨M.members.Raw _sql args, [c]⟩, rfl, ?_, ?_⟩
  · have hempty : OwningConstraint.value {} = {} := rfl
    rw [value, List.map_singleton, hvalue, hempty]
    rfl
  · simp [cells, binds]

end OwningModel

/-! ## Binding -/

/-- A statement as the server sees it. -/
def OwningStatement.statement (s : OwningStatement) (sql : Sql) : Statement :=
  ⟨sql, s.params.map (Option.map SetParam.param)⟩

/-- No parameter from `index` on is set. -/
structure OwningStatement.Unset (s : OwningStatement) (index : Nat) : Prop where
  pos : 0 < index
  room : s.paramCount = s.params.length
  unset : ∀ j, index ≤ j + 1 → s.params[j]?.join = none

/-- A parameter is set once, so that nothing is lost. -/
theorem StatementObject.setNext_spec {s : OwningStatement} {index : Nat} (h : s.Unset index)
    (type : FieldType) (val : Value) (sql : Sql) :
    Triple s.cells (s.object.setParam index type val) fun o own => ∃ s' : OwningStatement,
      o = s'.object ∧ own = s'.cells ∧ s'.handle = s.handle ∧ s'.Unset (index + 1) ∧
      s'.statement sql = (s.statement sql).setParam index type val := by
  obtain ⟨hpos, hroom, hunset⟩ := h
  obtain ⟨i, rfl⟩ : ∃ i, index = i + 1 := ⟨index - 1, by omega⟩
  have hmore : ∀ j, i + 1 + 1 ≤ j + 1 → s.params[j]?.join = none := fun j hj => hunset j (by omega)
  by_cases hlt : i < s.params.length
  · have hvalid : s.object.isValidParamIndex (i + 1 : Nat) = true := by
      simp [isValidParamIndex, OwningStatement.object, hroom]
      omega
    have hnth : ((i + 1 : Nat) : Int).toNat - 1 = i := by omega
    have hnone : s.params[((i + 1 : Nat) : Int).toNat - 1]? = some none := by
      have hjoin := hunset i (Nat.le_refl _)
      rw [List.getElem?_eq_getElem hlt, Option.join_some] at hjoin
      rw [hnth, List.getElem?_eq_getElem hlt, hjoin]
    refine (StatementObject.setParam_spec hvalid hnone type val).mono fun o own hset => ?_
    obtain ⟨p, hp, rfl, rfl⟩ := hset
    rw [hnth]
    refine ⟨s.put i p, rfl, add_zero _, rfl, ⟨Nat.succ_pos _, ?_, fun j hj => ?_⟩, ?_⟩
    · simp [OwningStatement.put, hroom]
    · rw [OwningStatement.put, List.getElem?_set_ne (by omega)]
      exact hmore j hj
    · rw [Statement.setParam, Statement.isValidParamIndex]
      simp [OwningStatement.statement, OwningStatement.put, List.map_set, hp, Nat.succ_le_of_lt hlt]
  · have hvalid : s.object.isValidParamIndex (i + 1 : Nat) = false := by
      simp [isValidParamIndex, OwningStatement.object, hroom]
      omega
    rw [StatementObject.setParam_invalid hvalid]
    refine .pure ⟨s, rfl, rfl, rfl, ⟨Nat.succ_pos _, hroom, hmore⟩, ?_⟩
    have hinvalid : ¬ i + 1 ≤ s.params.length := by omega
    simp [Statement.setParam, Statement.isValidParamIndex, OwningStatement.statement, hinvalid]

/-- What binding makes of a statement and the next index. -/
def Binds (s : OwningStatement) (sql : Sql) (extra : Cells Block) (bound : Statement × Nat)
    (r : StatementObject × Nat) (own : Cells Block) : Prop :=
  ∃ s' : OwningStatement, r.1 = s'.object ∧ own = s'.cells + extra ∧ s'.handle = s.handle ∧
    s'.Unset r.2 ∧ (s'.statement sql, r.2) = bound

theorem loadValue_spec {pre : Cells Block} {a : Nat} {val : Value} (h : (a, .value val) ∈ pre) :
    Triple pre (loadValue val.ormType a) fun w own => w = val ∧ own = pre := by
  refine .load_bind h ?_
  simp only [if_true]
  exact .pure ⟨rfl, rfl⟩

namespace ModelObject

theorem setBound_spec {s : OwningStatement} {index : Nat} (h : s.Unset index) (type : FieldType)
    (val : Value) (sql : Sql) (extra : Cells Block) :
    Triple (s.cells + extra) (s.object.setParam index type val >>= fun stmt =>
        pure (stmt, index + 1))
      (Binds s sql extra ((s.statement sql).setParam index type val, index + 1)) := by
  refine (StatementObject.setNext_spec h type val sql).bind fun o own hown => .pure ?_
  obtain ⟨s', rfl, rfl, hhandle, hunset, hvalue⟩ := hown
  exact ⟨s', rfl, rfl, hhandle, hunset, by rw [hvalue]⟩

/-- A value of another type does not even advance the index. -/
theorem bindParam_typed (stmt : StatementObject) (index : Nat) (a : Nat) (val : Value) :
    bindParam (stmt, index) (val.ormType, a) =
      if val.Handled then do
        let w ← loadValue val.ormType a
        let stmt ← stmt.setParam index val.fieldType w
        pure (stmt, index + 1)
      else pure (stmt, index) := by
  cases val <;> rfl

theorem bindParam_spec {s : OwningStatement} {index : Nat} (h : s.Unset index) {a : Nat}
    {val : Value} {extra : Cells Block} (hmem : (a, .value val) ∈ extra) (sql : Sql) :
    Triple (s.cells + extra) (bindParam (s.object, index) (val.ormType, a))
      (Binds s sql extra (Model.bindParam (s.statement sql, index) (val.ormType, val))) := by
  rw [bindParam_typed, TinyOrm.bindParam_typed]
  split
  · rw [← add_zero (s.cells + extra)]
    refine (loadValue_spec (Multiset.mem_add.mpr (.inr hmem))).bind fun w own hown => ?_
    obtain ⟨rfl, rfl⟩ := hown
    rw [add_zero]
    exact setBound_spec h _ w sql extra
  · exact .pure ⟨s, rfl, rfl, rfl, h, rfl⟩

theorem bindParams_spec {s : OwningStatement} (h : s.Unset 1) (cs : List OwningConstraint)
    (sql : Sql) :
    Triple (s.cells + valueCells (cs.flatMap OwningConstraint.binds))
      (bindParams (cs.map OwningConstraint.object) s.object) fun o own =>
        ∃ s' : OwningStatement, o = s'.object ∧
          own = s'.cells + valueCells (cs.flatMap OwningConstraint.binds) ∧
          s'.handle = s.handle ∧
          s'.statement sql =
            Model.bindParams (cs.map OwningConstraint.value) (s.statement sql) := by
  generalize hbinds : cs.flatMap OwningConstraint.binds = binds
  have hpointers : (cs.map OwningConstraint.object).flatMap ConstraintObject.bindValues =
      binds.map fun b => (b.2.ormType, b.1) := by
    rw [List.flatMap_map, ← hbinds, List.map_flatMap]
    rfl
  have hvalues : boundValues (cs.map OwningConstraint.value) =
      binds.map fun b => (b.2.ormType, b.2) := by
    rw [boundValues, List.flatMap_map, ← hbinds, List.map_flatMap]
    rfl
  rw [bindParams, hpointers, bindParams_eq, hvalues, List.foldl_map, List.foldlM_map,
    ← add_zero (s.cells + valueCells binds)]
  generalize hfinal : (binds.foldl (fun acc b => Model.bindParam acc (b.2.ormType, b.2))
    (s.statement sql, 1)) = final
  have hloop := Triple.foldlM (l := binds) (b := (s.object, 1))
    (f := fun acc b => bindParam acc (b.2.ormType, b.1)) (p := s.cells + valueCells binds)
    (I := fun rest r own => (∀ b ∈ rest, (b.1, Block.value b.2) ∈ valueCells binds) ∧
      ∃ s' : OwningStatement, r.1 = s'.object ∧ own = s'.cells + valueCells binds ∧
        s'.handle = s.handle ∧ s'.Unset r.2 ∧
        rest.foldl (fun acc b => Model.bindParam acc (b.2.ormType, b.2)) (s'.statement sql, r.2) =
          final) ?_
    ⟨fun b hb => Multiset.mem_coe.mpr (List.mem_map_of_mem hb), s, rfl, rfl, rfl, h, hfinal⟩
  · refine hloop.bind fun r own hown => .pure ?_
    obtain ⟨-, s', hr, rfl, hhandle, -, hvalue⟩ := hown
    refine ⟨s', hr, add_zero _, hhandle, ?_⟩
    rw [← hvalue]
    rfl
  · intro b rest r own hinv
    obtain ⟨hmem, s', hr, rfl, hhandle, hunset, hvalue⟩ := hinv
    obtain ⟨stmt, index⟩ := r
    obtain rfl : stmt = s'.object := hr
    refine (bindParam_spec hunset (hmem b List.mem_cons_self) sql).mono fun r own hround => ?_
    obtain ⟨s'', hr', rfl, hhandle', hunset', hbound⟩ := hround
    refine ⟨fun b hb => hmem b (List.mem_cons_of_mem _ hb), s'', hr', rfl, hhandle'.trans hhandle,
      hunset', ?_⟩
    rw [hbound]
    exact hvalue

theorem bindMembers_spec (fields : List FieldMeta) (vals : Obj) {s : OwningStatement} {cnt : Nat}
    (h : s.Unset cnt) (sql : Sql) (extra : Cells Block) :
    Triple (s.cells + extra) (bindMembers fields vals (s.object, cnt))
      (Binds s sql extra (Model.bindMembers fields vals (s.statement sql, cnt))) := by
  have hset {s : OwningStatement} {cnt : Nat} (h : s.Unset cnt) (type : FieldType) (val : Value)
      {fields : List FieldMeta} {vals : Obj}
      (ih : ∀ {s : OwningStatement} {cnt : Nat}, s.Unset cnt →
        Triple (s.cells + extra) (bindMembers fields vals (s.object, cnt))
          (Binds s sql extra (Model.bindMembers fields vals (s.statement sql, cnt)))) :
      Triple (s.cells + extra) (s.object.setParam cnt type val >>= fun stmt =>
          bindMembers fields vals (stmt, cnt + 1))
        (Binds s sql extra (Model.bindMembers fields vals
          ((s.statement sql).setParam cnt type val, cnt + 1))) := by
    refine (StatementObject.setNext_spec h type val sql).bind fun o own hown => ?_
    obtain ⟨s', rfl, rfl, hhandle, hunset, hvalue⟩ := hown
    rw [← hvalue]
    refine (ih hunset).mono fun r own hmore => ?_
    obtain ⟨s'', hr, hown, hhandle', hmore⟩ := hmore
    exact ⟨s'', hr, hown, hhandle'.trans hhandle, hmore⟩
  induction fields generalizing vals s cnt with
  | nil => exact .pure ⟨s, rfl, rfl, rfl, h, rfl⟩
  | cons field fields ih =>
    cases vals with
    | nil => exact .pure ⟨s, rfl, rfl, rfl, h, rfl⟩
    | cons val vals =>
      have hskip : Triple (s.cells + extra) (bindMembers fields vals (s.object, cnt + 1))
          (Binds s sql extra (Model.bindMembers fields vals (s.statement sql, cnt + 1))) :=
        ih vals ⟨Nat.succ_pos _, h.room, fun j hj => h.unset j (by omega)⟩
      simp only [bindMembers, Model.bindMembers]
      split
      · exact ih vals h
      · split
        · exact hset h _ val fun h => ih vals h
        · split
          · exact hset h _ val fun h => ih vals h
          · split
            · exact hset h _ val fun h => ih vals h
            · exact hskip

end ModelObject

/-! ## reset -/

/-- `reset` has a delete for the type. -/
def Value.Deleted : Value → Prop
  | .long_long _ => False
  | _ => True

instance : DecidablePred Value.Deleted
  | .long_long _ => inferInstanceAs (Decidable False)
  | .int _ | .float _ | .double _ | .string _ | .const_str _ | .timestamp _ =>
    inferInstanceAs (Decidable True)

/-- The values that `reset` forgets. -/
def forgotten (vals : List Value) : List Value := vals.filter fun val => ¬ val.Deleted

/-- The model that the object stands for, and the blocks that it has lost. -/
def Becomes (m : Model) (lost : List Value) (o : ModelObject) (own : Cells Block) : Prop :=
  ∃ (M : OwningModel) (gone : List (Nat × Value)), o = M.object ∧ M.value = m ∧
    gone.map Prod.snd = lost ∧ own = M.cells + valueCells gone

namespace ModelObject

theorem deleteBind_typed (a : Nat) (val : Value) :
    deleteBind (val.ormType, a) =
      if val.Deleted then deleteValue val.ormType a else pure () := by
  cases val <;> rfl

theorem deleteBind_spec (b : Nat × Value) :
    Triple (valueCells [b]) (deleteBind (b.2.ormType, b.1)) fun _ own =>
      own = valueCells ([b].filter fun b => ¬ b.2.Deleted) := by
  rw [deleteBind_typed]
  by_cases hdeleted : b.2.Deleted
  · rw [if_pos hdeleted, List.filter_cons_of_neg (by simpa using hdeleted)]
    exact .free (by simp [Block.isValue])
  · rw [if_neg hdeleted, List.filter_cons_of_pos (by simpa using hdeleted)]
    exact .pure rfl

theorem reset_spec (M : OwningModel) :
    Triple M.cells M.object.reset
      (Becomes M.value.reset (forgotten (M.binds.map Prod.snd))) := by
  have hpointers : M.object.constraints.flatMap ConstraintObject.bindValues =
      M.binds.map fun b => (b.2.ormType, b.1) := by
    rw [OwningModel.object, OwningModel.binds, List.flatMap_map, List.map_flatMap]
    rfl
  have hdeletes : Triple M.cells ((M.binds.map fun b => (b.2.ormType, b.1)).foldlM
      (fun _ bind => deleteBind bind) ()) fun _ own =>
        own = valueCells (M.binds.filter fun b => ¬ b.2.Deleted) := by
    rw [List.foldlM_map]
    refine (Triple.foldlM (I := fun rest _ own => ∃ done, done ++ rest = M.binds ∧
      own = valueCells rest + valueCells (done.filter fun b => ¬ b.2.Deleted)) ?_
      ⟨[], rfl, (add_zero _).symm⟩).mono ?_
    · intro b rest _ own hinv
      obtain ⟨done, hdone, rfl⟩ := hinv
      have hsplit : valueCells (b :: rest) = valueCells [b] + valueCells rest :=
        valueCells_append [b] rest
      rw [hsplit, add_assoc]
      refine ((deleteBind_spec b).frame _).mono fun _ own hround => ?_
      obtain ⟨own', rfl, rfl⟩ := hround
      refine ⟨done ++ [b], by simpa using hdone, ?_⟩
      rw [List.filter_append, valueCells_append]
      abel
    · intro _ own hinv
      obtain ⟨done, hdone, rfl⟩ := hinv
      rw [List.append_nil] at hdone
      rw [hdone]
      exact zero_add _
  rw [reset, hpointers, ← add_zero M.cells]
  refine hdeletes.bind fun _ own hown => .pure ?_
  refine ⟨⟨M.members.reset, []⟩, M.binds.filter fun b => ¬ b.2.Deleted, rfl, rfl, ?_, ?_⟩
  · rw [forgotten, List.filter_map]
    rfl
  · rw [hown, add_comm]
    rfl

/-! ## Statements -/

theorem prepareStatement_spec (columns : Columns) {o : ModelObject} (hconn : o.members.conn.isSome)
    (sql : Sql) :
    Triple 0 (o.prepareStatement columns sql) fun stmt own => ∃ s : OwningStatement,
      stmt = s.object ∧ own = s.cells ∧ s.Unset 1 ∧ (∃ h, s.handle = some (h, sql)) ∧
      s.statement sql = Statement.prepare sql := by
  obtain ⟨conn, hconn⟩ := Option.isSome_iff_exists.mp hconn
  rw [prepareStatement, hconn]
  refine (StatementObject.construct_spec sql _).mono fun stmt own hown => ?_
  obtain ⟨s, hs, hown, hparams, hhandle, -, hcount⟩ := hown
  refine ⟨s, hs, hown, ⟨Nat.one_pos, ?_, fun j _ => ?_⟩, hhandle, ?_⟩
  · rw [hparams, List.length_replicate]
  · rw [hparams, List.getElem?_replicate]
    split <;> rfl
  · rw [OwningStatement.statement, hparams, hcount, List.map_replicate]
    rfl

theorem prepareStatement_stuck (columns : Columns) {o : ModelObject} (h : o.members.conn = none)
    (sql : Sql) (pre : Cells Block) : Stuck pre (o.prepareStatement columns sql) := by
  rw [prepareStatement, h]
  exact fun _ _ _ _ => rfl

/-- Binding makes the statement that the model without pointers makes. -/
def BindsAs (bind : StatementObject → Prog Block StatementObject) (extra : Cells Block) (sql : Sql)
    (bound : Statement) : Prop :=
  ∀ s : OwningStatement, s.Unset 1 → s.statement sql = Statement.prepare sql →
    Triple (s.cells + extra) (bind s.object) fun o own => ∃ s' : OwningStatement,
      o = s'.object ∧ own = s'.cells + extra ∧ s'.handle = s.handle ∧ s'.statement sql = bound

theorem execute_bound {s : OwningStatement} {h : Nat} {sql : Sql}
    (hhandle : s.handle = some (h, sql)) :
    Triple s.cells s.object.execute fun sent own => sent = s.statement sql ∧ own = s.cells :=
  StatementObject.execute_spec hhandle

theorem executeUpdate_spec (columns : Columns) {o : ModelObject} (hconn : o.members.conn.isSome)
    {sql : Sql} {bind : StatementObject → Prog Block StatementObject} {pre : Cells Block}
    {bound : Statement} (hbind : BindsAs bind pre sql bound) {leave : Prog Block ModelObject}
    {post : ModelObject → Cells Block → Prop} (hleave : Triple pre leave post) :
    Triple pre (o.executeUpdate columns sql bind leave) fun r own =>
      r.2 = some bound ∧ post r.1 own := by
  rw [← zero_add pre]
  refine (prepareStatement_spec columns hconn sql).bind fun stmt own hown => ?_
  obtain ⟨s, rfl, rfl, hunset, ⟨h, hhandle⟩, hprepared⟩ := hown
  rw [← add_zero (s.cells + pre)]
  refine (hbind s hunset hprepared).bind fun stmt own hown => ?_
  obtain ⟨s', rfl, rfl, hhandle', hbound⟩ := hown
  rw [add_zero]
  refine (execute_bound (hhandle'.trans hhandle)).bind fun sent own hown => ?_
  rw [hown.1, hown.2, add_comm]
  refine hleave.bind fun o' own' hpost => ?_
  rw [add_comm]
  refine (StatementObject.destroy_spec s').bind fun _ own hown => .pure ⟨congrArg some hbound, ?_⟩
  rw [hown, zero_add]
  exact hpost

theorem fetchRow_spec {s : OwningStatement} {pre : Cells Block} (h : s.cells ≤ pre) :
    Triple pre (fetchRow s.object) fun _ own => own = pre := by
  refine (Triple.foldlM (I := fun rest _ own => own = pre ∧ ∀ b ∈ rest, b ∈ s.resBind) ?_
    ⟨rfl, fun b hb => hb⟩).mono fun _ own hinv => hinv.1
  intro b rest _ own hinv
  obtain ⟨rfl, hmem⟩ := hinv
  have hcells : b.cells ≤ own := by
    refine le_trans ?_ h
    have hresult : b.cells ≤ resultCells s.resBind :=
      List.le_sum_of_mem (List.mem_map_of_mem (f := ResultBind.cells) (hmem b List.mem_cons_self))
    refine hresult.trans ?_
    rw [OwningStatement.cells, add_left_comm]
    exact Multiset.le_add_right _ _
  have hload {a : Nat} (ha : (a, Block.bytes none) ∈ b.cells) : (a, Block.bytes none) ∈ own :=
    Multiset.mem_of_le hcells ha
  refine .load_bind (hload (by simp [ResultBind.cells])) ?_
  refine .load_bind (hload (by simp [ResultBind.cells])) ?_
  refine .load_bind (hload (by simp [ResultBind.cells])) ?_
  refine .load_bind (hload (by simp [ResultBind.cells])) ?_
  exact .pure ⟨rfl, fun b hb => hmem b (List.mem_cons_of_mem _ hb)⟩

theorem moved_spec (s : OwningStatement) :
    Triple 0 s.object.moveConstruct.2.destroy fun _ own => own = 0 :=
  StatementObject.destroy_spec { s with handle := none, resBind := [], params := [] }

theorem executeQuery_spec (columns : Columns) {o : ModelObject} (hconn : o.members.conn.isSome)
    {sql : Sql} {pre : Cells Block} {bound : Statement}
    (hbind : BindsAs (bindParams o.constraints) pre sql bound) (moved : Bool)
    (rows : Option (List Row)) (fetched : Nat) {leave : Prog Block ModelObject}
    {post : ModelObject → Cells Block → Prop} (hleave : Triple pre leave post) :
    Triple pre (o.executeQuery columns sql moved rows fetched leave) fun r own =>
      r.2 = some bound ∧ post r.1 own := by
  have hend {s : OwningStatement} {sent : Statement} (hsent : sent = bound) {own : Cells Block}
      {o' : ModelObject} (hpost : post o' own) :
      Triple (s.cells + own) (s.object.destroy >>= fun _ => pure (o', some sent)) fun r own =>
        r.2 = some bound ∧ post r.1 own := by
    refine (StatementObject.destroy_spec s).bind fun _ own hown => .pure ⟨congrArg some hsent, ?_⟩
    rw [hown, zero_add]
    exact hpost
  have hexecute {s : OwningStatement} {h : Nat} (hhandle : s.handle = some (h, sql))
      (hbound : s.statement sql = bound) :
      Triple (s.cells + pre) (s.object.execute >>= fun sent => match rows with
        | none => do
          let o ← leave
          s.object.destroy
          pure (o, some sent)
        | some _ => do
          let result ← alloc .result
          (List.range fetched).foldlM (fun _ _ => fetchRow s.object) ()
          let o ← leave
          free (· = .result) result
          s.object.destroy
          pure (o, some sent)) fun r own => r.2 = some bound ∧ post r.1 own := by
    refine (execute_bound hhandle).bind fun sent own hown => ?_
    obtain ⟨hsent, rfl⟩ := hown
    cases rows with
    | none =>
      rw [add_comm]
      refine hleave.bind fun o' own' hpost => ?_
      rw [add_comm]
      exact hend (hsent.trans hbound) hpost
    | some rows =>
      refine .alloc_bind fun result => ?_
      have hrows : Triple ({(result, Block.result)} + (s.cells + pre))
          ((List.range fetched).foldlM (fun _ _ => fetchRow s.object) ()) fun _ own =>
            own = {(result, Block.result)} + (s.cells + pre) := by
        refine Triple.foldlM (I := fun _ _ own => own = {(result, Block.result)} + (s.cells + pre))
          (fun _ _ _ own hown => ?_) rfl
        rw [hown]
        refine fetchRow_spec ?_
        rw [add_left_comm]
        exact Multiset.le_add_right _ _
      rw [← add_zero ({(result, Block.result)} + (s.cells + pre))]
      refine hrows.bind fun _ own hown => ?_
      rw [hown, add_zero]
      have hback : {(result, Block.result)} + (s.cells + pre) =
          pre + ({(result, Block.result)} + s.cells) := by abel
      rw [hback]
      refine hleave.bind fun o' own' hpost => ?_
      have hfree : own' + ({(result, Block.result)} + s.cells) =
          {(result, Block.result)} + (s.cells + own') := by abel
      rw [hfree]
      exact .free_bind rfl (hend (hsent.trans hbound) hpost)
  rw [← zero_add pre]
  refine (prepareStatement_spec columns hconn sql).bind fun stmt own hown => ?_
  obtain ⟨s, rfl, rfl, hunset, ⟨h, hhandle⟩, hprepared⟩ := hown
  rw [← add_zero (s.cells + pre)]
  refine (hbind s hunset hprepared).bind fun stmt own hown => ?_
  obtain ⟨s', rfl, rfl, hhandle', hbound⟩ := hown
  rw [add_zero]
  cases moved with
  | true =>
    rw [← zero_add (s'.cells + pre)]
    refine (moved_spec s').bind fun _ own hown => ?_
    rw [hown, zero_add]
    exact hexecute (hhandle'.trans hhandle) hbound
  | false => exact hexecute (hhandle'.trans hhandle) hbound

end ModelObject

/-! ## Texts -/

/-- A constraint without its values. -/
def Constraint.text (c : Constraint) : Constraint := ⟨c.condition, c.conj, []⟩

theorem queryConditions_text (i : Nat) (cs : List Constraint) :
    Model.queryConditions i (cs.map Constraint.text) = Model.queryConditions i cs := by
  induction cs generalizing i with
  | nil => rfl
  | cons c cs ih =>
    simp only [List.map_cons, Model.queryConditions, ih]
    rfl

theorem joinConditions_text (i : Nat) (cs : List Constraint) :
    Model.joinConditions i (cs.map Constraint.text) = Model.joinConditions i cs := by
  induction cs generalizing i with
  | nil => rfl
  | cons c cs ih =>
    simp only [List.map_cons, Model.joinConditions, ih]
    rfl

namespace OwningModel

theorem texts_constraints (M : OwningModel) :
    M.object.texts.constraints = M.value.constraints.map Constraint.text := by
  simp only [ModelObject.texts, object, value, List.map_map]
  rfl

theorem queryText_eq (M : OwningModel) (limit : Int) :
    M.object.texts.queryText limit = M.value.queryText limit := by
  have hwhere : Model.queryWhere M.object.texts.constraints =
      Model.queryWhere M.value.constraints := by
    rw [texts_constraints, Model.queryWhere, Model.queryWhere, queryConditions_text]
    simp only [List.map_eq_nil_iff]
  rw [Model.queryText, Model.queryText, hwhere]
  rfl

theorem deleteText_eq (M : OwningModel) : M.object.texts.deleteText = M.value.deleteText := by
  have hwhere : Model.deleteWhere M.object.texts.constraints =
      Model.deleteWhere M.value.constraints := by
    rw [texts_constraints, Model.deleteWhere, Model.deleteWhere, joinConditions_text,
      List.length_map]
  rw [Model.deleteText, Model.deleteText, hwhere]
  rfl

theorem updateWhere_eq (M : OwningModel) :
    Model.updateWhere M.object.texts.constraints = Model.updateWhere M.value.constraints := by
  rw [texts_constraints, Model.updateWhere, Model.updateWhere, ← List.map_drop,
    joinConditions_text, List.length_map]

end OwningModel

/-! ## What an operation loses -/

def Model.boundVals (m : Model) : List Value := (boundValues m.constraints).map Prod.snd

theorem OwningModel.binds_vals (M : OwningModel) : M.binds.map Prod.snd = M.value.boundVals := by
  rw [binds, Model.boundVals, boundValues, value, List.flatMap_map, List.map_flatMap,
    List.map_flatMap]
  congr 1
  funext c
  simp [OwningConstraint.value]

/-- The operation executes a statement. -/
def Op.Executes : Op → Prop
  | .RawFetch sql _ => Model.IsSelect sql
  | .RawExec sql _ => ¬ Model.IsSelect sql
  | _ => True

instance : DecidablePred Op.Executes := fun op => by
  cases op <;> unfold Op.Executes <;> infer_instance

/-- The values whose pointers are gone after the operation. -/
def Op.lost (m : Model) (reply : Reply) : Op → List Value
  | .Update args => forgotten (args.vals ++ m.boundVals)
  | .First _ => if ModelObject.firstRow reply.rows = 0 then [] else forgotten m.boundVals
  | .All => if reply.rows.isSome then forgotten m.boundVals else []
  | .RawFetch sql args =>
    m.boundVals ++ if Model.IsSelect sql ∧ reply.rows.isSome then forgotten args else []
  | .RawExec _ _ => m.boundVals
  | _ => forgotten m.boundVals

/-! ## Operations -/

theorem Becomes.refl (M : OwningModel) : Becomes M.value [] M.object M.cells :=
  ⟨M, [], rfl, rfl, rfl, (add_zero _).symm⟩

/-- The rest of the memory of a raw statement are the values that `Raw` has cleared. -/
theorem Becomes.cleared {m : Model} {lost : List Value} {o : ModelObject} {own : Cells Block}
    (h : Becomes m lost o own) (M : OwningModel) :
    Becomes m (M.value.boundVals ++ lost) o (own + M.cells) := by
  obtain ⟨M', gone, ho, hm, hgone, rfl⟩ := h
  refine ⟨M', M.binds ++ gone, ho, hm, ?_, ?_⟩
  · rw [List.map_append, M.binds_vals, hgone]
  · rw [valueCells_append, OwningModel.cells, OwningModel.cells]
    abel

namespace ModelObject

theorem bindsAs_params (M : OwningModel) (sql : Sql) :
    BindsAs (bindParams M.object.constraints) M.cells sql
      (Model.bindParams M.value.constraints (Statement.prepare sql)) := by
  intro s hunset hprepared
  rw [← hprepared]
  exact bindParams_spec hunset M.constraints sql

theorem bindsAs_rows (fields : List FieldMeta) (v : List Obj) (extra : Cells Block) (sql : Sql) :
    BindsAs (fun stmt => do
        let acc ← v.foldlM (fun acc t => bindMembers fields t acc) (stmt, 1)
        pure acc.1) extra sql
      (v.foldl (fun acc t => Model.bindMembers fields t acc) (Statement.prepare sql, 1)).1 := by
  intro s hunset hprepared
  rw [← hprepared]
  generalize hfinal : v.foldl (fun acc t => Model.bindMembers fields t acc) (s.statement sql, 1) =
    final
  have hloop := Triple.foldlM (l := v) (b := (s.object, 1))
    (f := fun acc t => bindMembers fields t acc)
    (I := fun rest r own => ∃ s' : OwningStatement, r.1 = s'.object ∧ own = s'.cells + extra ∧
      s'.handle = s.handle ∧ s'.Unset r.2 ∧
      rest.foldl (fun acc t => Model.bindMembers fields t acc) (s'.statement sql, r.2) = final) ?_
    ⟨s, rfl, rfl, rfl, hunset, hfinal⟩
  · rw [← add_zero (s.cells + extra)]
    refine hloop.bind fun r own hown => .pure ?_
    obtain ⟨s', hr, rfl, hhandle, -, hvalue⟩ := hown
    refine ⟨s', hr, add_zero _, hhandle, ?_⟩
    rw [← hvalue]
    rfl
  · intro t rest r own hinv
    obtain ⟨s', hr, rfl, hhandle, hunset', hvalue⟩ := hinv
    obtain ⟨stmt, index⟩ := r
    obtain rfl : stmt = s'.object := hr
    refine (bindMembers_spec fields t hunset' sql extra).mono fun r own hround => ?_
    obtain ⟨s'', hr', rfl, hhandle', hunset'', hbound⟩ := hround
    refine ⟨s'', hr', rfl, hhandle'.trans hhandle, hunset'', ?_⟩
    rw [hbound]
    exact hvalue

theorem bindsAs_members (fields : List FieldMeta) (t : Obj) (extra : Cells Block) (sql : Sql) :
    BindsAs (fun stmt => do
        let acc ← bindMembers fields t (stmt, 1)
        pure acc.1) extra sql (Model.bindMembers fields t (Statement.prepare sql, 1)).1 := by
  intro s hunset hprepared
  rw [← hprepared, ← add_zero (s.cells + extra)]
  refine (bindMembers_spec fields t hunset sql extra).bind fun r own hown => .pure ?_
  obtain ⟨s', hr, rfl, hhandle, -, hvalue⟩ := hown
  refine ⟨s', hr, add_zero _, hhandle, ?_⟩
  rw [← hvalue]

/-- What an operation does, from a model that it is done on. -/
def Does (m : Model) (reply : Reply) (op : Op) (r : ModelObject × Option Statement)
    (own : Cells Block) : Prop :=
  r.2 = (op.run m reply).2 ∧ Becomes (op.run m reply).1 (op.lost m reply) r.1 own

theorem update_spec (columns : Columns) {M : OwningModel} (hconn : M.members.conn.isSome)
    (args : Assignment) (reply : Reply) :
    Triple M.cells (M.object.Update columns args) (Does M.value reply (.Update args)) := by
  rw [← zero_add M.cells]
  refine (OwningConstraint.bindVals_spec {} args.vals).bind fun c own hown => ?_
  obtain ⟨c, rfl, hvalue, rfl⟩ := hown
  have hempty : OwningConstraint.value {} = {} := rfl
  rw [hempty] at hvalue
  -- the constraint of the values in front
  have hobject : ({ M.object with constraints := c.object :: M.object.constraints } : ModelObject) =
      OwningModel.object ⟨M.members, c :: M.constraints⟩ := rfl
  have hcells : valueCells c.binds + M.cells =
      OwningModel.cells ⟨M.members, c :: M.constraints⟩ := by
    simp [OwningModel.cells, OwningModel.binds]
  have hvals : c.binds.map Prod.snd = args.vals := by
    have hbinds := congrArg (fun d : Constraint => d.bindValues.map Prod.snd) hvalue
    rw [bindVals_eq] at hbinds
    simpa [OwningConstraint.value, Function.comp_def] using hbinds
  have hreset := reset_spec ⟨M.members, c :: M.constraints⟩
  have htable : M.members.getTableName = M.value.getTableName := rfl
  have hrun := M.value.Update_eq args reply
  have hsent : Op.run M.value reply (.Update args) = (M.value.reset,
      (M.value.prepareStatement (lit "UPDATE " ++ word M.value.getTableName ++ lit " SET " ++
        setText args.cols ++ Model.updateWhere (bindVals {} args.vals :: M.value.constraints))).map
          (Model.bindParams (bindVals {} args.vals :: M.value.constraints))) := by
    rw [Op.run, hrun]
  simp only [hobject, hcells]
  refine (executeUpdate_spec columns (o := OwningModel.object ⟨M.members, c :: M.constraints⟩) hconn
    (bindsAs_params ⟨M.members, c :: M.constraints⟩ _) hreset).mono fun r own hdone => ?_
  obtain ⟨hr, hbecomes⟩ := hdone
  have hconstraints : OwningModel.value ⟨M.members, c :: M.constraints⟩ =
      { M.value with constraints := bindVals {} args.vals :: M.value.constraints } := by
    rw [← hvalue]
    rfl
  refine ⟨?_, ?_⟩
  · rw [hr, hsent, OwningModel.updateWhere_eq, hconstraints,
      Model.prepareStatement_of_conn (m := M.value) hconn]
    rfl
  · rw [hsent, Op.lost]
    rw [OwningModel.binds, List.flatMap_cons, List.map_append, hvals] at hbecomes
    have hbinds : (M.constraints.flatMap OwningConstraint.binds).map Prod.snd = M.value.boundVals :=
      M.binds_vals
    rw [hbinds] at hbecomes
    exact hbecomes

theorem raw_boundVals (m : Model) (_sql : Str) (args : List Value) :
    (m.Raw _sql args).boundVals = args := by
  rw [Model.boundVals, boundValues, Model.Raw, List.flatMap_singleton, bindVals_eq]
  simp [Function.comp_def]

theorem fetch_spec (columns : Columns) {M : OwningModel} {sql : Str}
    (hconn : Model.IsSelect sql → M.members.conn.isSome) (args : List Value) (reply : Reply) :
    Triple M.cells (M.object.run columns reply (.RawFetch sql args))
      (Does M.value reply (.RawFetch sql args)) := by
  rw [← add_zero M.cells]
  refine (M.Raw_spec sql args).bind fun o own hown => ?_
  obtain ⟨M', rfl, hvalue, rfl⟩ := hown
  rw [add_zero]
  have hconn' (hselect : Model.IsSelect sql) : M'.members.conn.isSome := by
    have hsame : M'.value.conn = M.value.conn := by rw [hvalue]; rfl
    exact hsame ▸ hconn hselect
  have hbound : M'.value.boundVals = args := by rw [hvalue, raw_boundVals]
  have hstatus : M'.object.members.status = (M.value.Raw sql args).status := by
    rw [← hvalue]
    rfl
  rw [hstatus]
  by_cases hselect : Model.IsSelect sql
  · have hquery : (M.value.Raw sql args).status = .QUERY := if_pos hselect
    rw [if_pos hquery]
    have hrun : Op.run M.value reply (.RawFetch sql args) =
        (if reply.rows.isSome then M'.value.reset else M'.value, M'.value.prepareRaw) := by
      rw [hvalue]
      simp only [Op.run, Model.Fetch, hquery]
      cases reply.rows <;> rfl
    have hreset := reset_spec M'
    rw [M'.binds_vals, hbound] at hreset
    have hleave : Triple M'.cells (if reply.rows.isSome then M'.object.reset else pure M'.object)
        (Becomes (if reply.rows.isSome then M'.value.reset else M'.value)
          (if Model.IsSelect sql ∧ reply.rows.isSome then forgotten args else [])) := by
      cases reply.rows with
      | none => exact .pure (by simpa using Becomes.refl M')
      | some rows => simpa [hselect] using hreset
    have hdone := (executeQuery_spec columns (o := M'.object) (hconn' hselect)
      (bindsAs_params M' (ofStr M'.members.rawSql)) false reply.rows (reply.rows.getD []).length
      hleave).frame M.cells
    refine hdone.mono fun r own hframed => ?_
    obtain ⟨own', rfl, hsent, hbecomes⟩ := hframed
    refine ⟨?_, ?_⟩
    · rw [hsent, hrun, Model.prepareRaw,
        Model.prepareStatement_of_conn (m := M'.value) (hconn' hselect)]
      rfl
    · rw [hrun, Op.lost]
      exact hbecomes.cleared M
  · have hupdate : (M.value.Raw sql args).status = .UPDATE := if_neg hselect
    rw [hupdate, if_neg (by simp)]
    refine .pure ⟨?_, ?_⟩
    · simp only [Op.run, Model.Fetch, hupdate]
    · have hmodel : (Op.run M.value reply (.RawFetch sql args)).1 = M'.value := by
        simp only [Op.run, Model.Fetch, hupdate, hvalue]
      rw [hmodel, Op.lost, if_neg fun h => hselect h.1]
      exact (Becomes.refl M').cleared M

theorem exec_spec (columns : Columns) {M : OwningModel} {sql : Str}
    (hconn : ¬ Model.IsSelect sql → M.members.conn.isSome) (args : List Value) (reply : Reply) :
    Triple M.cells (M.object.run columns reply (.RawExec sql args))
      (Does M.value reply (.RawExec sql args)) := by
  rw [← add_zero M.cells]
  refine (M.Raw_spec sql args).bind fun o own hown => ?_
  obtain ⟨M', rfl, hvalue, rfl⟩ := hown
  rw [add_zero]
  have hconn' (hselect : ¬ Model.IsSelect sql) : M'.members.conn.isSome := by
    have hsame : M'.value.conn = M.value.conn := by rw [hvalue]; rfl
    exact hsame ▸ hconn hselect
  have hstatus : M'.object.members.status = (M.value.Raw sql args).status := by
    rw [← hvalue]
    rfl
  have hlost : Op.lost M.value reply (.RawExec sql args) = M.value.boundVals ++ [] :=
    (List.append_nil _).symm
  rw [hstatus]
  by_cases hselect : Model.IsSelect sql
  · have hquery : (M.value.Raw sql args).status = .QUERY := if_pos hselect
    rw [hquery, if_neg (by simp)]
    refine .pure ⟨?_, ?_⟩
    · simp only [Op.run, Model.Exec, hquery]
    · have hmodel : (Op.run M.value reply (.RawExec sql args)).1 = M'.value := by
        simp only [Op.run, Model.Exec, hquery, hvalue]
      rw [hmodel, hlost]
      exact (Becomes.refl M').cleared M
  · have hupdate : (M.value.Raw sql args).status = .UPDATE := if_neg hselect
    rw [if_pos hupdate]
    have hrun : Op.run M.value reply (.RawExec sql args) =
        ({ M'.value with conn := none }, M'.value.prepareRaw) := by
      rw [hvalue]
      simp only [Op.run, Model.Exec, hupdate]
    have hleave : Triple M'.cells
        (pure { M'.object with members := { M'.object.members with conn := none } })
        (Becomes { M'.value with conn := none } []) :=
      .pure (Becomes.refl { M' with members := { M'.members with conn := none } })
    have hdone := (executeUpdate_spec columns (o := M'.object) (hconn' hselect)
      (bindsAs_params M' (ofStr M'.members.rawSql)) hleave).frame M.cells
    refine hdone.mono fun r own hframed => ?_
    obtain ⟨own', rfl, hsent, hbecomes⟩ := hframed
    refine ⟨?_, ?_⟩
    · rw [hsent, hrun, Model.prepareRaw,
        Model.prepareStatement_of_conn (m := M'.value) (hconn' hselect)]
      rfl
    · rw [hrun, hlost]
      exact hbecomes.cleared M

theorem run_spec (columns : Columns) (M : OwningModel) (reply : Reply) (op : Op)
    (hop : op.Executes → M.members.conn.isSome) :
    Triple M.cells (M.object.run columns reply op) (Does M.value reply op) := by
  have hprepare (hconn : M.members.conn.isSome) (sql : Sql) :
      M.value.prepareStatement sql = some (Statement.prepare sql) :=
    Model.prepareStatement_of_conn (m := M.value) hconn sql
  have hreset := reset_spec M
  rw [M.binds_vals] at hreset
  have hstay : Triple M.cells (pure M.object) (Becomes M.value []) := .pure (Becomes.refl M)
  cases op with
  | Create t =>
    refine (executeUpdate_spec columns (o := M.object) (hop trivial) (bindsAs_members _ t _ _)
      hreset).mono fun r own hdone => ⟨?_, hdone.2⟩
    rw [hdone.1, Op.run, Model.Create, hprepare (hop trivial)]
    rfl
  | CreateAll v =>
    refine (executeUpdate_spec columns (o := M.object) (hop trivial) (bindsAs_rows _ v _ _)
      hreset).mono fun r own hdone => ⟨?_, hdone.2⟩
    rw [hdone.1, Op.run, Model.CreateAll, hprepare (hop trivial)]
    rfl
  | Update args => exact update_spec columns (hop trivial) args reply
  | Delete =>
    refine (executeUpdate_spec columns (o := M.object) (hop trivial) (bindsAs_params M _)
      hreset).mono fun r own hdone => ⟨?_, hdone.2⟩
    rw [hdone.1, Op.run, Model.Delete, hprepare (hop trivial), M.deleteText_eq]
    rfl
  | First t =>
    have hleave : Triple M.cells (if firstRow reply.rows = 0 then pure M.object else M.object.reset)
        (Becomes (Op.run M.value reply (.First t)).1 (Op.lost M.value reply (.First t))) := by
      simp only [Op.run, Model.First, Op.lost]
      cases reply.rows with
      | none => exact hstay
      | some rows =>
        cases rows with
        | nil => exact hstay
        | cons row rows => exact hreset
    refine (executeQuery_spec columns (o := M.object) (hop trivial) (bindsAs_params M _) true
      reply.rows (firstRow reply.rows) hleave).mono fun r own hdone => ⟨?_, hdone.2⟩
    have hsent : (Op.run M.value reply (.First t)).2 = M.value.prepareQuery 1 :=
      M.value.First_sent t reply
    rw [hdone.1, hsent, Model.prepareQuery, hprepare (hop trivial), M.queryText_eq]
    rfl
  | All =>
    have hleave : Triple M.cells (if reply.rows.isSome then M.object.reset else pure M.object)
        (Becomes (Op.run M.value reply .All).1 (Op.lost M.value reply .All)) := by
      simp only [Op.run, Model.All, Op.lost]
      cases reply.rows with
      | none => exact hstay
      | some rows => exact hreset
    refine (executeQuery_spec columns (o := M.object) (hop trivial) (bindsAs_params M _) true
      reply.rows _ hleave).mono fun r own hdone => ⟨?_, hdone.2⟩
    have hsent : (Op.run M.value reply .All).2 = M.value.prepareQuery (-1) := M.value.All_sent reply
    rw [hdone.1, hsent, Model.prepareQuery, hprepare (hop trivial), M.queryText_eq]
    rfl
  | RawFetch sql args => exact fetch_spec columns hop args reply
  | RawExec sql args => exact exec_spec columns hop args reply

theorem run_stuck (columns : Columns) {M : OwningModel} (hconn : M.members.conn = none)
    (reply : Reply) {op : Op} (hop : op.Executes) :
    Stuck M.cells (M.object.run columns reply op) := by
  have hupdate {o : ModelObject} (ho : o.members.conn = none) (sql : Sql)
      (bind : StatementObject → Prog Block StatementObject) (leave : Prog Block ModelObject)
      (pre : Cells Block) : Stuck pre (o.executeUpdate columns sql bind leave) :=
    (prepareStatement_stuck columns ho sql pre).bind _
  have hquery {o : ModelObject} (ho : o.members.conn = none) (sql : Sql) (moved : Bool)
      (rows : Option (List Row)) (fetched : Nat) (leave : Prog Block ModelObject)
      (pre : Cells Block) : Stuck pre (o.executeQuery columns sql moved rows fetched leave) :=
    (prepareStatement_stuck columns ho sql pre).bind _
  have hraw {M' : OwningModel} {sql : Str} {args : List Value}
      (hvalue : M'.value = M.value.Raw sql args) : M'.object.members.conn = none := by
    have hsame : M'.value.conn = M.value.conn := by rw [hvalue]; rfl
    exact hsame.trans hconn
  cases op with
  | Create t => exact hupdate hconn _ _ _ _
  | CreateAll v => exact hupdate hconn _ _ _ _
  | Update args =>
    rw [← zero_add M.cells]
    have hbind := (OwningConstraint.bindVals_spec {} args.vals).frame M.cells
    exact hbind.bind_stuck fun c own hown => hupdate hconn _ _ _ _
  | Delete => exact hupdate hconn _ _ _ _
  | First t => exact hquery hconn _ _ _ _ _ _
  | All => exact hquery hconn _ _ _ _ _ _
  | RawFetch sql args =>
    refine (M.Raw_spec sql args).bind_stuck fun o own hown => ?_
    obtain ⟨M', rfl, hvalue, rfl⟩ := hown
    have hstatus : M'.object.members.status = .QUERY := by
      have hselect : (M.value.Raw sql args).status = .QUERY := if_pos hop
      rw [← hselect, ← hvalue]
      rfl
    rw [if_pos hstatus]
    exact hquery (hraw hvalue) _ _ _ _ _ _
  | RawExec sql args =>
    refine (M.Raw_spec sql args).bind_stuck fun o own hown => ?_
    obtain ⟨M', rfl, hvalue, rfl⟩ := hown
    have hstatus : M'.object.members.status = .UPDATE := by
      have hselect : (M.value.Raw sql args).status = .UPDATE := if_neg hop
      rw [← hselect, ← hvalue]
      rfl
    rw [if_pos hstatus]
    exact hupdate (hraw hvalue) _ _ _ _

end ModelObject

/-! ## Runs -/

/-- Every operation that executes a statement has a connection, which `Exec` gives back. -/
def Connected : Model → List Segment → Prop
  | _, [] => True
  | m, seg :: segs => (seg.op.Executes → m.conn.isSome) ∧ Connected (seg.run m).1 segs

instance decidableConnected : (m : Model) → (segs : List Segment) → Decidable (Connected m segs)
  | _, [] => .isTrue trivial
  | m, seg :: segs =>
    have := decidableConnected (seg.run m).1 segs
    inferInstanceAs (Decidable (_ ∧ _))

/-- The values that the operations lose, and those that are pending when the model is
destroyed. -/
def lostValues : Model → List Segment → List Value
  | m, [] => m.boundVals
  | m, seg :: segs => seg.op.lost (m.calls seg.calls) seg.reply ++ lostValues (seg.run m).1 segs

namespace ModelObject

theorem session_spec (columns : Columns) (M : OwningModel) (segs : List Segment) :
    if Connected M.value segs then
      Triple M.cells (session columns M.object segs) fun sents own =>
        sents = (TinyOrm.session M.value segs).map Prod.snd ∧
          ∃ gone, gone.map Prod.snd = lostValues M.value segs ∧ own = valueCells gone
    else Stuck M.cells (session columns M.object segs) := by
  induction segs generalizing M with
  | nil =>
    have hnil : Connected M.value [] := trivial
    rw [if_pos hnil]
    exact .pure ⟨rfl, M.binds, M.binds_vals, rfl⟩
  | cons seg segs ih =>
    have hcalls := M.calls_spec seg.calls
    have hconn (M' : OwningModel) (hM' : M'.value = M.value.calls seg.calls) :
        M'.members.conn = M.value.conn := by
      have hsame : M'.value.conn = M.value.conn := by rw [hM', Model.calls_conn]
      exact hsame
    by_cases hop : seg.op.Executes → M.value.conn.isSome
    · have hrun (M' : OwningModel) (hM' : M'.value = M.value.calls seg.calls) :=
        run_spec columns M' seg.reply seg.op fun hexec => by
          rw [hconn M' hM']
          exact hop hexec
      by_cases hmore : Connected (seg.run M.value).1 segs
      · rw [if_pos ⟨hop, hmore⟩, ← add_zero M.cells]
        refine hcalls.bind fun o own hown => ?_
        obtain ⟨M', rfl, hM', rfl⟩ := hown
        refine (hrun M' hM').bind fun r own hown => ?_
        obtain ⟨o', sent⟩ := r
        obtain ⟨hsent, M'', gone, rfl, hvalue, hgone, rfl⟩ := hown
        rw [add_zero]
        have hnext := ih M''
        rw [hM'] at hsent hvalue hgone
        have hseg : M''.value = (seg.run M.value).1 := hvalue
        rw [hseg, if_pos hmore] at hnext
        refine hnext.bind fun sents own hown => .pure ?_
        obtain ⟨hsents, more, hmoreVals, rfl⟩ := hown
        refine ⟨?_, gone ++ more, ?_, ?_⟩
        · rw [hsents]
          exact congrArg (· :: _) hsent
        · rw [List.map_append, hgone, hmoreVals]
          rfl
        · rw [valueCells_append, add_comm]
      · rw [if_neg fun h => hmore h.2]
        refine hcalls.bind_stuck fun o own hown => ?_
        obtain ⟨M', rfl, hM', rfl⟩ := hown
        refine (hrun M' hM').bind_stuck fun r own hown => ?_
        obtain ⟨o', sent⟩ := r
        obtain ⟨-, M'', gone, rfl, hvalue, -, rfl⟩ := hown
        have hnext := ih M''
        rw [hM'] at hvalue
        have hseg : M''.value = (seg.run M.value).1 := hvalue
        rw [hseg, if_neg hmore] at hnext
        exact (hnext.frame (valueCells gone)).bind _
    · rw [if_neg fun h => hop h.1]
      refine hcalls.bind_stuck fun o own hown => ?_
      obtain ⟨M', rfl, hM', rfl⟩ := hown
      rw [Classical.not_imp] at hop
      have hnone : M'.members.conn = none := by
        rw [hconn M' hM']
        exact Option.not_isSome_iff_eq_none.mp hop.2
      exact (run_stuck columns hnone seg.reply hop.1).bind _

end ModelObject

end TinyOrm
