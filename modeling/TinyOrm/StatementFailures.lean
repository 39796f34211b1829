import TinyOrm.Lib.Calls
import TinyOrm.Model
import TinyOrm.ResultBinds
set_option autoImplicit false

/-!
What a statement that fails leaves to the client library: the calls that the terminal
operations of a model make, with the handles that they are made on (model.h,
mysql4cpp/statement.cpp).
-/

namespace TinyOrm

open Calls

/-! ## The client library -/

inductive ClientCall where
  | mysql_stmt_init
  | mysql_stmt_prepare
  | mysql_stmt_result_metadata
  | mysql_stmt_param_count
  | mysql_stmt_bind_param
  | mysql_stmt_execute
  | mysql_stmt_bind_result
  | mysql_stmt_store_result
  | mysql_stmt_num_rows
  | mysql_stmt_fetch
  | mysql_stmt_affected_rows
  | mysql_stmt_error
  | mysql_stmt_close
  deriving DecidableEq, Repr

/-- A call, and whether there is a handle to make it on: the connection's for
`mysql_stmt_init`, the statement's for the others. -/
structure Made where
  call : ClientCall
  handle : Bool
  deriving DecidableEq, Repr

/-- Without a handle the call is undefined. -/
def made (handle : Bool) (call : ClientCall) : Traced Made Unit := Traced.call ⟨call, handle⟩ handle

/-- How the calls for one statement turn out. A stage that fails has the text of
`mysql_stmt_error`; `memory` is what lies at a member that is not set. -/
structure Outcomes where
  memory : Nat
  prepare : PrepareReply
  bind_param : Option Str
  execute : Option Str
  bind_result : Option Str
  store_result : Option Str
  rows : List Row
  affected_rows : Nat

/-! ## Statement -/

namespace ResultStatement

/-- The constructor, behind `mysql_stmt_init`. -/
def prepared (conn : Bool) (o : Outcomes) : Traced Made ResultStatement := do
  made conn .mysql_stmt_init
  made true .mysql_stmt_prepare
  match o.prepare with
  | .refused _ =>
    made true .mysql_stmt_error
    made true .mysql_stmt_close
  | .prepared _ _ =>
    made true .mysql_stmt_result_metadata
    made true .mysql_stmt_param_count
  pure (construct o.memory o.prepare)

/-- The destructor. -/
def destroy (stmt : ResultStatement) : Traced Made Unit :=
  if stmt.stmt_ptr then made true .mysql_stmt_close else pure ()

/-- One `if (mysql_stmt_…) { error = …; return …; }`. -/
def stage {ρ : Type} (stmt : ResultStatement) (call : ClientCall) (failure : Option Str)
    (returned : ρ)
    (next : Traced Made (ResultStatement × ρ)) : Traced Made (ResultStatement × ρ) := do
  made stmt.stmt_ptr call
  match failure with
  | none => next
  | some error =>
    made stmt.stmt_ptr .mysql_stmt_error
    pure ({ stmt with error := error }, returned)

/-- `none`: the result set is not valid. -/
def executeQuery (stmt : ResultStatement) (o : Outcomes) :
    Traced Made (ResultStatement × Option (List Row)) :=
  let execute :=
    stmt.stage .mysql_stmt_execute o.execute none <|
    stmt.stage .mysql_stmt_bind_result o.bind_result none <|
    stmt.stage .mysql_stmt_store_result o.store_result none do
      made stmt.stmt_ptr .mysql_stmt_num_rows
      pure (stmt, some o.rows)
  if stmt.paramCount > 0 then stmt.stage .mysql_stmt_bind_param o.bind_param none execute
  else execute

def executeUpdate (stmt : ResultStatement) (o : Outcomes) : Traced Made (ResultStatement × Nat) :=
  let execute :=
    stmt.stage .mysql_stmt_execute o.execute 0 do
      made stmt.stmt_ptr .mysql_stmt_affected_rows
      pure (stmt, o.affected_rows)
  if stmt.paramCount > 0 then stmt.stage .mysql_stmt_bind_param o.bind_param 0 execute
  else execute

/-- `next` of a result set, once for each of the rows. -/
def fetch (stmt : ResultStatement) : List Row → Traced Made Unit
  | [] => pure ()
  | _ :: rows => do
    made stmt.stmt_ptr .mysql_stmt_fetch
    fetch stmt rows

def fieldNames (stmt : ResultStatement) : List Str := stmt.fields.map (·.name)

end ResultStatement

/-! ## The terminal operations -/

inductive Terminal where
  | Create (t : Obj)
  | CreateAll (v : List Obj)
  | Update (args : Assignment)
  | Delete
  | First (t : Obj)
  | All
  | Exec
  | Fetch

/-- What an operation hands back; `First` also through its argument. -/
inductive Returned where
  | void
  | count (n : Nat)
  | first (n : Nat) (t : Obj)
  | objects (res : List Obj)

namespace Model

/-- `prepareStatement`, and the setters behind it. -/
def preparedStatement (m : Model) (sql : Sql) (bind : Statement → Statement) (o : Outcomes) :
    Traced Made ResultStatement := do
  let stmt ← ResultStatement.prepared m.conn.isSome o
  pure { stmt with paramBind := (bind ⟨sql, stmt.paramBind⟩).paramBind }

/-- The statement that `prepareQuery` returns is moved to the caller's. -/
def queryStatement (m : Model) (limit : Int) (o : Outcomes) : Traced Made ResultStatement := do
  let stmt ← m.preparedStatement (m.queryText limit) (bindParams m.constraints) o
  stmt.moveConstruct.2.destroy
  pure stmt.moveConstruct.1

def update (m : Model) (sql : Sql) (bind : Statement → Statement) (o : Outcomes) :
    Traced Made Nat := do
  let stmt ← m.preparedStatement sql bind o
  let (stmt, rowAffect) ← stmt.executeUpdate o
  stmt.destroy
  pure rowAffect

/-- The rows that the caller fetches, and the names of their columns. -/
def query (statement : Traced Made ResultStatement) (fetched : List Row → List Row) (o : Outcomes) :
    Traced Made Reply := do
  let stmt ← statement
  let (stmt, rs) ← stmt.executeQuery o
  stmt.fetch (fetched (rs.getD []))
  stmt.destroy
  pure { fieldNames := stmt.fieldNames, rows := rs }

def updateText (m : Model) (args : Assignment) : Sql :=
  lit "UPDATE " ++ word m.getTableName ++ lit " SET " ++ setText args.cols ++
    updateWhere (bindVals {} args.vals :: m.constraints)

def terminal (m : Model) (o : Outcomes) : Terminal → Traced Made Returned
  | .Create t => do
    let _ ← m.update m.insertText (fun stmt => (bindMembers m.metadata t (stmt, 1)).1) o
    pure .void
  | .CreateAll v => do
    let _ ← m.update (m.insertAllText v.length)
      (fun stmt => (v.foldl (fun acc t => bindMembers m.metadata t acc) (stmt, 1)).1) o
    pure .void
  | .Update args => do
    let rowAffect ← m.update (m.updateText args)
      (bindParams (bindVals {} args.vals :: m.constraints)) o
    pure (.count rowAffect)
  | .Delete => do
    let rowAffect ← m.update m.deleteText (bindParams m.constraints) o
    pure (.count rowAffect)
  | .First t => do
    let reply ← query (m.queryStatement 1 o) (List.take 1) o
    let (n, t) := (m.First t reply).result
    pure (.first n t)
  | .All => do
    let reply ← query (m.queryStatement (-1) o) id o
    pure (.objects (m.All reply).result)
  | .Exec =>
    if m.status = .UPDATE then do
      let rowAffect ← m.update (ofStr m.rawSql) (bindParams m.constraints) o
      pure (.count (m.Exec { rowAffect := rowAffect }).result)
    else pure (.count (m.Exec {}).result)
  | .Fetch =>
    if m.status = .QUERY then do
      let reply ← query (m.preparedStatement (ofStr m.rawSql) (bindParams m.constraints) o) id o
      pure (.objects (m.Fetch reply).result)
    else pure (.objects (m.Fetch {}).result)

end Model

/-! ## Failures -/

def Outcomes.paramCount (o : Outcomes) : Nat :=
  match o.prepare with
  | .refused _ => 0
  | .prepared _ param_count => param_count

/-- A stage of an update fails. -/
def Outcomes.UpdateFails (o : Outcomes) : Prop :=
  (∃ error, o.prepare = .refused error) ∨ (0 < o.paramCount ∧ o.bind_param.isSome) ∨
    o.execute.isSome

/-- A stage of a query fails. -/
def Outcomes.QueryFails (o : Outcomes) : Prop :=
  o.UpdateFails ∨ o.bind_result.isSome ∨ o.store_result.isSome

namespace Terminal

def Fails (o : Outcomes) : Terminal → Prop
  | .First _ | .All | .Fetch => o.QueryFails
  | .Create _ | .CreateAll _ | .Update _ | .Delete | .Exec => o.UpdateFails

/-- How a failure is reported. -/
def failed : Terminal → Returned
  | .Create _ | .CreateAll _ => .void
  | .Update _ | .Delete | .Exec => .count 0
  | .First t => .first 0 t
  | .All | .Fetch => .objects []

/-- The argument of `prepareQuery`. -/
def limit : Terminal → Option Int
  | .First _ => some 1
  | .All => some (-1)
  | _ => none

/-- The status sends the operation back before it prepares a statement. -/
def SentBack (m : Model) : Terminal → Prop
  | .Exec => m.status ≠ .UPDATE
  | .Fetch => m.status ≠ .QUERY
  | _ => False

end Terminal

/-- Every call has its handle, a failure is reported, and the text of the error is moved
out of `prepareQuery` with the statement. -/
structure FailsWell (m : Model) (o : Outcomes) (op : Terminal) : Prop where
  held : ∀ c ∈ (m.terminal o op).calls, c.handle = true
  reported : op.Fails o → (m.terminal o op).result = some op.failed
  kept : ∀ limit stmt, op.limit = some limit →
    (m.preparedStatement (m.queryText limit) (Model.bindParams m.constraints) o).result =
      some stmt →
    stmt.moveConstruct.1.error = stmt.error

/-! ## Statements that are prepared -/

def Made.Held (c : Made) : Prop := c.handle = true

theorem made_ends {handle : Bool} (h : handle = true) (call : ClientCall) :
    (made handle call).Ends Made.Held fun _ => True := Traced.ends_call h h

namespace ResultStatement

theorem addFields_handle (i : Nat) (columns : List ReportedColumn) (stmt : ResultStatement) :
    (stmt.addFields i columns).stmt_ptr = stmt.stmt_ptr ∧
      (stmt.addFields i columns).error = stmt.error := by
  induction columns generalizing i stmt with
  | nil => exact ⟨rfl, rfl⟩
  | cons field columns ih => exact ih (i + 1) _

/-- A statement with its handle and without an error. -/
structure Ready (n : Nat) (stmt : ResultStatement) : Prop where
  stmt_ptr : stmt.stmt_ptr = true
  error : stmt.error = []
  paramCount : stmt.paramCount = n

theorem prepared_ends {o : Outcomes} {columns : List ReportedColumn} {n : Nat} {conn : Bool}
    (hconn : conn = true) (hprepare : o.prepare = .prepared columns n) :
    (prepared conn o).Ends Made.Held (Ready n) := by
  have hready : Ready n (construct o.memory (.prepared columns n)) :=
    ⟨(addFields_handle _ _ _).1, (addFields_handle _ _ _).2, rfl⟩
  unfold prepared
  rw [hprepare]
  refine (made_ends hconn _).bind fun _ _ => (made_ends rfl _).bind fun _ _ => ?_
  exact (made_ends rfl _).bind fun _ _ => (made_ends rfl _).bind fun _ _ => Traced.ends_pure hready

theorem destroy_ends (stmt : ResultStatement) : stmt.destroy.Ends Made.Held fun _ => True := by
  unfold destroy
  split
  · exact made_ends rfl _
  · exact Traced.ends_pure trivial

/-- The statement keeps its handle, and what fails is reported by `returned`. -/
structure Reports {ρ : Type} (fails : Prop) (returned : ρ) (r : ResultStatement × ρ) : Prop where
  stmt_ptr : r.1.stmt_ptr = true
  reported : fails → r.2 = returned

theorem stage_ends {ρ : Type} {fails : Prop} {stmt : ResultStatement} {call : ClientCall}
    {failure : Option Str} {returned : ρ} {next : Traced Made (ResultStatement × ρ)}
    (hptr : stmt.stmt_ptr = true)
    (hnext : failure = none → next.Ends Made.Held (Reports fails returned)) :
    (stmt.stage call failure returned next).Ends Made.Held (Reports fails returned) := by
  refine (made_ends hptr _).bind fun _ _ => ?_
  cases failure with
  | none => exact hnext rfl
  | some error =>
    exact (made_ends hptr _).bind fun _ _ => Traced.ends_pure ⟨hptr, fun _ => rfl⟩

theorem last_ends {ρ : Type} {fails : Prop} {stmt : ResultStatement} {call : ClientCall}
    {returned n : ρ} (hptr : stmt.stmt_ptr = true) (hfails : ¬ fails) :
    (do made stmt.stmt_ptr call; pure (stmt, n) : Traced Made (ResultStatement × ρ)).Ends Made.Held
      (Reports fails returned) :=
  (made_ends hptr _).bind fun _ _ => Traced.ends_pure ⟨hptr, fun h => absurd h hfails⟩

variable {stmt : ResultStatement}

theorem executeUpdate_ends (o : Outcomes) (hptr : stmt.stmt_ptr = true) :
    (stmt.executeUpdate o).Ends Made.Held
      (Reports ((0 < stmt.paramCount ∧ o.bind_param.isSome) ∨ o.execute.isSome) 0) := by
  unfold executeUpdate
  dsimp only
  split
  · refine stage_ends hptr fun hbind => stage_ends hptr fun hexecute => last_ends hptr ?_
    simp [hbind, hexecute]
  · rename_i hcount
    refine stage_ends hptr fun hexecute => last_ends hptr ?_
    simp [hcount, hexecute]

theorem executeQuery_ends (o : Outcomes) (hptr : stmt.stmt_ptr = true) :
    (stmt.executeQuery o).Ends Made.Held
      (Reports (((0 < stmt.paramCount ∧ o.bind_param.isSome) ∨ o.execute.isSome) ∨
        o.bind_result.isSome ∨ o.store_result.isSome) none) := by
  unfold executeQuery
  dsimp only
  split
  · refine stage_ends hptr fun hbind => stage_ends hptr fun hexecute =>
      stage_ends hptr fun hresult => stage_ends hptr fun hstore => last_ends hptr ?_
    simp [hbind, hexecute, hresult, hstore]
  · rename_i hcount
    refine stage_ends hptr fun hexecute => stage_ends hptr fun hresult =>
      stage_ends hptr fun hstore => last_ends hptr ?_
    simp [hcount, hexecute, hresult, hstore]

theorem fetch_ends (hptr : stmt.stmt_ptr = true) (rows : List Row) :
    (stmt.fetch rows).Ends Made.Held fun _ => True := by
  induction rows with
  | nil => exact Traced.ends_pure trivial
  | cons row rows ih => exact (made_ends hptr _).bind fun _ _ => ih

end ResultStatement

namespace Model

variable {m : Model} {o : Outcomes} {columns : List ReportedColumn} {n : Nat} {sql : Sql}
  {bind : Statement → Statement}

theorem preparedStatement_ends (hconn : m.conn.isSome = true)
    (hprepare : o.prepare = .prepared columns n) :
    (m.preparedStatement sql bind o).Ends Made.Held (ResultStatement.Ready n) :=
  (ResultStatement.prepared_ends hconn hprepare).bind fun _ h =>
    Traced.ends_pure ⟨h.stmt_ptr, h.error, h.paramCount⟩

/-- The parameters are those of the statement that the operations are modelled with, where
the server counts them as it is assumed to there. -/
theorem preparedStatement_paramBind (hconn : m.conn.isSome = true)
    (hprepare : o.prepare = .prepared columns (placeholders sql)) :
    (m.preparedStatement sql bind o).result.map (·.paramBind) =
      (m.prepareStatement sql).map fun stmt => (bind stmt).paramBind := by
  obtain ⟨c, hc⟩ := Option.isSome_iff_exists.mp hconn
  rw [preparedStatement, ResultStatement.prepared, hprepare, prepareStatement, hc]
  rfl

/-- The statement arrives as it was, its error apart. -/
theorem queryStatement_ends (hconn : m.conn.isSome = true)
    (hprepare : o.prepare = .prepared columns n) (limit : Int) :
    (m.queryStatement limit o).Ends Made.Held (ResultStatement.Ready n) :=
  (preparedStatement_ends hconn hprepare).bind fun _ h =>
    (ResultStatement.destroy_ends _).bind fun _ _ =>
      Traced.ends_pure ⟨h.stmt_ptr, rfl, h.paramCount⟩

theorem updateFails_iff (hprepare : o.prepare = .prepared columns n) : o.UpdateFails ↔
    (0 < n ∧ o.bind_param.isSome) ∨ o.execute.isSome := by
  simp [Outcomes.UpdateFails, Outcomes.paramCount, hprepare]

theorem update_ends (hconn : m.conn.isSome = true) (hprepare : o.prepare = .prepared columns n) :
    (m.update sql bind o).Ends Made.Held fun rowAffect => o.UpdateFails → rowAffect = 0 := by
  refine (preparedStatement_ends hconn hprepare).bind fun stmt hstmt => ?_
  refine (ResultStatement.executeUpdate_ends o hstmt.stmt_ptr).bind fun r hr => ?_
  refine (ResultStatement.destroy_ends r.1).bind fun _ _ => Traced.ends_pure fun hfails => ?_
  rw [updateFails_iff hprepare, ← hstmt.paramCount] at hfails
  exact hr.reported hfails

theorem query_ends {statement : Traced Made ResultStatement} {fetched : List Row → List Row}
    (hprepare : o.prepare = .prepared columns n)
    (hstatement : statement.Ends Made.Held (ResultStatement.Ready n)) :
    (query statement fetched o).Ends Made.Held fun reply => o.QueryFails → reply.rows = none := by
  refine hstatement.bind fun stmt hstmt => ?_
  refine (ResultStatement.executeQuery_ends o hstmt.stmt_ptr).bind fun r hr => ?_
  refine (ResultStatement.fetch_ends hr.stmt_ptr _).bind fun _ _ => ?_
  refine (ResultStatement.destroy_ends r.1).bind fun _ _ => Traced.ends_pure fun hfails => ?_
  rw [Outcomes.QueryFails, updateFails_iff hprepare, ← hstmt.paramCount] at hfails
  exact hr.reported hfails

theorem First_failed {reply : Reply} (h : reply.rows = none) (t : Obj) :
    (m.First t reply).result = (0, t) := by
  unfold First
  simp [h]

theorem All_failed {reply : Reply} (h : reply.rows = none) : (m.All reply).result = [] := by
  unfold All
  simp [h]

theorem Exec_failed {reply : Reply} (h : reply.rowAffect = 0) : (m.Exec reply).result = 0 := by
  unfold Exec
  split
  · rfl
  · rfl
  · exact h

theorem Fetch_failed {reply : Reply} (h : reply.rows = none) : (m.Fetch reply).result = [] := by
  unfold Fetch
  split
  · rfl
  · rfl
  · simp [h]

/-- With a connection and a text that the server takes the operation ends as it should. -/
theorem terminal_ends (hconn : m.conn.isSome = true) (hprepare : o.prepare = .prepared columns n)
    (op : Terminal) :
    (m.terminal o op).Ends Made.Held fun r => op.Fails o → r = op.failed := by
  cases op with
  | Create t => exact (update_ends hconn hprepare).bind fun _ _ => Traced.ends_pure fun _ => rfl
  | CreateAll v => exact (update_ends hconn hprepare).bind fun _ _ => Traced.ends_pure fun _ => rfl
  | Update args =>
    exact (update_ends hconn hprepare).bind fun _ h => Traced.ends_pure fun hf => by rw [h hf]; rfl
  | Delete =>
    exact (update_ends hconn hprepare).bind fun _ h => Traced.ends_pure fun hf => by rw [h hf]; rfl
  | First t =>
    refine (query_ends hprepare (queryStatement_ends hconn hprepare 1)).bind fun _ h => ?_
    refine Traced.ends_pure fun hf => ?_
    have hresult := First_failed (m := m) (h hf) t
    show Returned.first (m.First t _).result.1 (m.First t _).result.2 = _
    rw [hresult]
    rfl
  | All =>
    refine (query_ends hprepare (queryStatement_ends hconn hprepare (-1))).bind fun _ h => ?_
    exact Traced.ends_pure fun hf => by rw [All_failed (h hf)]; rfl
  | Exec =>
    dsimp only [terminal]
    split
    · exact (update_ends hconn hprepare).bind fun _ h =>
        Traced.ends_pure fun hf => by rw [Exec_failed (h hf)]; rfl
    · exact Traced.ends_pure fun _ => by rw [Exec_failed rfl]; rfl
  | Fetch =>
    dsimp only [terminal]
    split
    · exact (query_ends hprepare (preparedStatement_ends hconn hprepare)).bind fun _ h =>
        Traced.ends_pure fun hf => by rw [Fetch_failed (h hf)]; rfl
    · exact Traced.ends_pure fun _ => by rw [Fetch_failed rfl]; rfl

/-- An operation that is sent back calls nothing. -/
theorem terminal_sentBack {op : Terminal} (h : op.SentBack m) :
    m.terminal o op = pure op.failed := by
  cases op with
  | Exec =>
    dsimp only [terminal]
    rw [if_neg h, Exec_failed rfl]
    rfl
  | Fetch =>
    dsimp only [terminal]
    rw [if_neg h, Fetch_failed rfl]
    rfl
  | Create | CreateAll | Update | Delete | First | All => exact h.elim

end Model

/-! ## Statements that are refused -/

def Made.Lost (c : Made) : Prop := c.handle = false

/-- What is left of a statement that is refused; its error apart. -/
structure ResultStatement.Absent (stmt : ResultStatement) : Prop where
  stmt_ptr : stmt.stmt_ptr = false
  paramCount : stmt.paramCount = 0

namespace ResultStatement

variable {stmt : ResultStatement} {o : Outcomes}

theorem prepared_refused {error : Str} (hprepare : o.prepare = .refused error) :
    (prepared true o).Ends Made.Held Absent := by
  unfold prepared
  rw [hprepare]
  refine (made_ends rfl _).bind fun _ _ => (made_ends rfl _).bind fun _ _ => ?_
  exact (made_ends rfl _).bind fun _ _ => (made_ends rfl _).bind fun _ _ =>
    Traced.ends_pure ⟨rfl, rfl⟩

theorem made_lost {handle : Bool} (h : handle = false) (call : ClientCall) :
    (made handle call).Makes Made.Lost := Traced.makes_call _ h

theorem stage_lost {ρ : Type} {call : ClientCall} {failure : Option Str} {returned : ρ}
    {next : Traced Made (ResultStatement × ρ)} (h : stmt.Absent) :
    (stmt.stage call failure returned next).Makes Made.Lost :=
  (made_lost h.stmt_ptr _).bind

/-- Without parameters nothing stands before the call that executes the statement. -/
theorem executeUpdate_lost (h : stmt.Absent) : (stmt.executeUpdate o).Makes Made.Lost := by
  unfold executeUpdate
  rw [if_neg (by simp [h.paramCount])]
  exact stage_lost h

theorem executeQuery_lost (h : stmt.Absent) : (stmt.executeQuery o).Makes Made.Lost := by
  unfold executeQuery
  rw [if_neg (by simp [h.paramCount])]
  exact stage_lost h

end ResultStatement

namespace Model

variable {m : Model} {o : Outcomes}

/-- No connection, or a text that the server does not take. -/
def Unprepared (m : Model) (o : Outcomes) : Prop :=
  m.conn.isSome = false ∨ (m.conn.isSome = true ∧ ∃ error, o.prepare = .refused error)

/-- A call without a handle has been made, or will be as soon as the statement is used. -/
def Bad (statement : Traced Made ResultStatement) : Prop :=
  statement.Makes Made.Lost ∨ statement.Ends Made.Held ResultStatement.Absent

theorem Bad.makes {α : Type} {statement : Traced Made ResultStatement}
    {f : ResultStatement → Traced Made α} (h : Bad statement)
    (hf : ∀ stmt : ResultStatement, stmt.Absent → (f stmt).Makes Made.Lost) :
    (statement >>= f).Makes Made.Lost := by
  rcases h with hlost | habsent
  · exact hlost.bind
  · exact habsent.makes hf

theorem preparedStatement_bad (h : Unprepared m o) (sql : Sql) (bind : Statement → Statement) :
    Bad (m.preparedStatement sql bind o) := by
  rcases h with hconn | ⟨hconn, error, hprepare⟩
  · exact Or.inl (Traced.Makes.bind (ResultStatement.made_lost hconn _).bind)
  · refine Or.inr ?_
    unfold preparedStatement
    rw [hconn]
    exact (ResultStatement.prepared_refused hprepare).bind fun _ h =>
      Traced.ends_pure ⟨h.stmt_ptr, h.paramCount⟩

theorem queryStatement_bad (h : Unprepared m o) (limit : Int) : Bad (m.queryStatement limit o) := by
  rcases preparedStatement_bad h (m.queryText limit) (bindParams m.constraints) with hlost | habsent
  · exact Or.inl hlost.bind
  · exact Or.inr (habsent.bind fun _ h => (ResultStatement.destroy_ends _).bind fun _ _ =>
      Traced.ends_pure ⟨h.stmt_ptr, h.paramCount⟩)

theorem update_lost (h : Unprepared m o) (sql : Sql) (bind : Statement → Statement) :
    (m.update sql bind o).Makes Made.Lost :=
  (preparedStatement_bad h sql bind).makes fun _ habsent =>
    (ResultStatement.executeUpdate_lost habsent).bind

theorem query_lost {statement : Traced Made ResultStatement} (h : Bad statement)
    (fetched : List Row → List Row) : (query statement fetched o).Makes Made.Lost :=
  h.makes fun _ habsent => (ResultStatement.executeQuery_lost habsent).bind

theorem terminal_lost (h : Unprepared m o) {op : Terminal} (hop : ¬ op.SentBack m) :
    (m.terminal o op).Makes Made.Lost := by
  cases op with
  | Create | CreateAll | Update | Delete => exact (update_lost h _ _).bind
  | First | All => exact (query_lost (queryStatement_bad h _) _).bind
  | Exec =>
    dsimp only [terminal]
    rw [if_pos (not_not.mp hop)]
    exact (update_lost h _ _).bind
  | Fetch =>
    dsimp only [terminal]
    rw [if_pos (not_not.mp hop)]
    exact (query_lost (preparedStatement_bad h _ _) _).bind

end Model

/-! ## When an operation fails well -/

def refusing : Outcomes where
  memory := 0
  prepare := .refused "Table 'test.user' doesn't exist".toList
  bind_param := none
  execute := none
  bind_result := none
  store_result := none
  rows := []
  affected_rows := 0

def connected : Model := { className := "User".toList, conn := some 1 }

end TinyOrm
