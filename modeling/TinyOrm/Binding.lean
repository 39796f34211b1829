import TinyOrm.Chain
set_option autoImplicit false

/-!
Which values the placeholders of a statement are bound to.
-/

namespace TinyOrm

def Value.param (val : Value) : Param := ⟨val.fieldType, val⟩

/-- `bindParams` has a branch for the type. -/
def Value.Handled : Value → Prop
  | .double _ => False
  | .long_long _ => False
  | _ => True

instance : DecidablePred Value.Handled := fun val => by
  cases val <;> unfold Value.Handled <;> infer_instance

/-- The `k`-th placeholder is bound to the `k`-th value, and every one is bound. -/
def Aligned (stmt : Statement) (vals : List Value) : Prop :=
  ∀ k < placeholders stmt.sql, ∃ val, vals[k]? = some val ∧
    stmt.paramBind[k]? = some (some val.param)

/-! ## bindParams -/

/-- The values of the constraints in the order in which they are bound. -/
def boundValues (constraints : List Constraint) : List (Str × Value) :=
  constraints.flatMap Constraint.bindValues

def typed (vals : List Value) : List (Str × Value) := vals.map fun val => (val.ormType, val)

/-- A value of another type does not even advance the index. -/
theorem bindParam_typed (stmt : Statement) (index : Nat) (val : Value) :
    Model.bindParam (stmt, index) (val.ormType, val) =
      if val.Handled then (stmt.setParam index val.fieldType val, index + 1)
      else (stmt, index) := by
  cases val <;> rfl

theorem bindParams_eq (constraints : List Constraint) (stmt : Statement) :
    Model.bindParams constraints stmt =
      ((boundValues constraints).foldl Model.bindParam (stmt, 1)).1 := by
  rw [Model.bindParams, boundValues, List.foldl_flatMap]

theorem foldl_bindParam_sql (binds : List (Str × Value)) (acc : Statement × Nat) :
    (binds.foldl Model.bindParam acc).1.sql = acc.1.sql := by
  induction binds generalizing acc with
  | nil => rfl
  | cons bind binds ih =>
    rw [List.foldl_cons, ih]
    obtain ⟨stmt, index⟩ := acc
    simp only [Model.bindParam]
    split
    · exact Statement.setParam_sql _ _ _ _
    · split
      · exact Statement.setParam_sql _ _ _ _
      · split
        · exact Statement.setParam_sql _ _ _ _
        · split
          · exact Statement.setParam_sql _ _ _ _
          · split
            · exact Statement.setParam_sql _ _ _ _
            · rfl

/-- The handled values are written one behind the other. -/
theorem foldl_bindParam_get (vals : List Value) (stmt : Statement) (index k : Nat)
    (hk : k < stmt.paramBind.length) :
    ((typed vals).foldl Model.bindParam (stmt, index + 1)).1.paramBind[k]? =
      if index ≤ k then
        match (vals.filter Value.Handled)[k - index]? with
        | some val => some (some val.param)
        | none => stmt.paramBind[k]?
      else stmt.paramBind[k]? := by
  induction vals generalizing stmt index with
  | nil => simp [typed]
  | cons val vals ih =>
    have hfold : (typed (val :: vals)).foldl Model.bindParam (stmt, index + 1) =
        (typed vals).foldl Model.bindParam
          (Model.bindParam (stmt, index + 1) (val.ormType, val)) := rfl
    rw [hfold, bindParam_typed]
    by_cases hval : val.Handled
    · have hset := Statement.setParam_paramBind stmt index val.fieldType val
      have hlen : k < (stmt.setParam (index + 1) val.fieldType val).paramBind.length := by
        rw [hset]
        simpa using hk
      simp only [hval, if_true]
      rw [ih _ _ hlen, hset]
      rcases Nat.lt_trichotomy k index with hlt | rfl | hgt
      · have h₁ : ¬ index + 1 ≤ k := by omega
        have h₂ : ¬ index ≤ k := by omega
        have h₃ : index ≠ k := by omega
        simp [h₁, h₂, h₃]
      · simp [hval, hk, Value.param]
      · have h₁ : index + 1 ≤ k := by omega
        have h₂ : index ≤ k := by omega
        have h₃ : index ≠ k := by omega
        obtain ⟨d, rfl⟩ : ∃ d, k = index + 1 + d := ⟨k - (index + 1), by omega⟩
        have h₄ : index + 1 + d - index = d + 1 := by omega
        simp [h₂, h₃, hval, h₄]
    · simp only [hval, if_false]
      rw [ih _ _ hk]
      simp [hval]

theorem bindParams_get {constraints : List Constraint} {vals : List Value}
    (hvals : boundValues constraints = typed vals) (sql : Sql) {k : Nat}
    (hk : k < placeholders sql) :
    (Model.bindParams constraints (Statement.prepare sql)).paramBind[k]? =
      some ((vals.filter Value.Handled)[k]?.map Value.param) := by
  have hlen : k < (Statement.prepare sql).paramBind.length := by simpa [Statement.prepare] using hk
  rw [bindParams_eq, hvals, foldl_bindParam_get vals _ 0 k hlen]
  cases (vals.filter Value.Handled)[k]? with
  | some val => simp
  | none => simp [Statement.prepare, hk]

/-! ## Alignment -/

theorem filter_prefix (vals : List Value) (m : Nat) :
    (∀ k < m, ∃ val, vals[k]? = some val ∧ (vals.filter Value.Handled)[k]? = some val) ↔
      m ≤ vals.length ∧ ∀ val ∈ vals.take m, val.Handled := by
  induction vals generalizing m with
  | nil =>
    cases m with
    | zero => simp
    | succ m =>
      constructor
      · intro h
        obtain ⟨val, hval, -⟩ := h 0 (by omega)
        simp at hval
      · simp
  | cons val vals ih =>
    cases m with
    | zero => simp
    | succ m =>
      by_cases hval : val.Handled
      · constructor
        · intro h
          have htail := (ih m).mp fun k hk => by simpa [hval] using h (k + 1) (by omega)
          exact ⟨by simpa using htail.1, by simpa [hval] using htail.2⟩
        · rintro ⟨hlen, hall⟩ k hk
          have htail := (ih m).mpr ⟨by simpa using hlen, fun v hv => hall v (by simp [hv])⟩
          cases k with
          | zero => exact ⟨val, by simp [hval]⟩
          | succ k => simpa [hval] using htail k (by omega)
      · constructor
        · intro h
          obtain ⟨v, hv, hf⟩ := h 0 (by omega)
          have hvv : v = val := by simpa using hv.symm
          have hmem := List.mem_of_getElem? hf
          rw [hvv] at hmem
          exact absurd (by simpa using (List.mem_filter.mp hmem).2) hval
        · rintro ⟨-, hall⟩
          exact absurd (hall val (by simp)) hval

theorem bindParams_sql (constraints : List Constraint) (stmt : Statement) :
    (Model.bindParams constraints stmt).sql = stmt.sql := by
  rw [bindParams_eq, foldl_bindParam_sql]

theorem aligned_iff {constraints : List Constraint} {vals : List Value}
    (hvals : boundValues constraints = typed vals) (sql : Sql) :
    Aligned (Model.bindParams constraints (Statement.prepare sql)) vals ↔
      placeholders sql ≤ vals.length ∧ ∀ val ∈ vals.take (placeholders sql), val.Handled := by
  rw [← filter_prefix]
  unfold Aligned
  rw [bindParams_sql, Statement.prepare_sql]
  constructor
  · intro h k hk
    obtain ⟨val, hval, hbind⟩ := h k hk
    rw [bindParams_get hvals sql hk] at hbind
    cases hf : (vals.filter Value.Handled)[k]? with
    | none => simp [hf] at hbind
    | some v =>
      have hv : v = val := by
        rw [hf] at hbind
        simp only [Option.map_some, Option.some.injEq, Value.param, Param.mk.injEq] at hbind
        exact hbind.2
      exact ⟨val, hval, by rw [hv]⟩
  · intro h k hk
    obtain ⟨val, hval, hf⟩ := h k hk
    exact ⟨val, hval, by rw [bindParams_get hvals sql hk, hf]; rfl⟩

/-! ## Placeholders of the texts -/

theorem placeholders_word (s : Str) : placeholders (word s) = s.count '?' := by
  simp [placeholders]

theorem placeholders_ofStr (s : Str) : placeholders (ofStr s) = s.count '?' := by
  simp [placeholders]

@[simp] theorem placeholders_nil : placeholders [] = 0 := rfl

theorem placeholders_conj (conj : Conj) : placeholders (ofStr conj.text) = 0 := by
  cases conj <;> decide

theorem placeholders_pageText (pageNum pageSize : Int32) :
    placeholders (Model.pageText pageNum pageSize) = 0 := by
  have h₁ : placeholders (lit " LIMIT ") = 0 := by decide
  have h₂ : placeholders (lit " OFFSET ") = 0 := by decide
  rw [Model.pageText, placeholders_append, placeholders_append, placeholders_append, h₁, h₂,
    placeholders_ofStr, placeholders_ofStr, placeholders_showInt, placeholders_showInt]

def marks (names : List Str) : Nat := (names.map (List.count '?')).sum

def conditionMarks (constraints : List Constraint) : Nat :=
  (constraints.map fun c => placeholders c.condition).sum

theorem marks_eq_zero (names : List Str) : marks names = 0 ↔ ∀ name ∈ names, '?' ∉ name := by
  induction names with
  | nil => simp [marks]
  | cons name names ih =>
    have hcons : marks (name :: names) = name.count '?' + marks names := rfl
    rw [hcons, Nat.add_eq_zero_iff, ih, List.count_eq_zero]
    simp

theorem placeholders_selectList (cols : List Str) :
    placeholders (Model.selectList cols) = marks cols := by
  have hsep : placeholders (lit ", ") = 0 := by decide
  induction cols with
  | nil => decide
  | cons col cols ih =>
    cases cols with
    | nil => simp [Model.selectList, marks, placeholders_word]
    | cons next cols =>
      rw [Model.selectList, placeholders_append, placeholders_append, ih, hsep]
      simp [marks, placeholders_word]

theorem placeholders_queryConditions (i : Nat) (cs : List Constraint) :
    placeholders (Model.queryConditions i cs) = conditionMarks cs := by
  have hblank : placeholders (lit " ") = 0 := by decide
  have hl : placeholders (lit "(") = 0 := by decide
  have hr : placeholders (lit ")") = 0 := by decide
  induction cs generalizing i with
  | nil => rfl
  | cons c cs ih =>
    simp only [Model.queryConditions, placeholders_append, ih]
    by_cases hc : c.conj = .LIMIT <;> by_cases hi : i > 0 <;>
      simp [hc, hi, hblank, hl, hr, placeholders_conj, conditionMarks]

theorem placeholders_joinConditions (i : Nat) (cs : List Constraint) :
    placeholders (Model.joinConditions i cs) = conditionMarks cs := by
  have hblank : placeholders (lit " ") = 0 := by decide
  induction cs generalizing i with
  | nil => rfl
  | cons c cs ih =>
    simp only [Model.joinConditions, placeholders_append, ih]
    by_cases hi : i > 1 <;> simp [hi, hblank, placeholders_conj, conditionMarks]

theorem placeholders_queryText (m : Model) {limit : Int} (hlimit : limit = 1 ∨ limit = -1) :
    placeholders (m.queryText limit) =
      marks (m.getTableName :: m.selectedColumns) + conditionMarks m.constraints := by
  have h₁ : placeholders (lit "SELECT ") = 0 := by decide
  have h₂ : placeholders (lit " FROM ") = 0 := by decide
  have h₃ : placeholders (lit " WHERE ") = 0 := by decide
  have h₄ : placeholders (if limit > 0 then lit " LIMIT " ++ ofStr (showInt limit) else []) =
      0 := by
    rcases hlimit with rfl | rfl <;> decide
  have h₅ : placeholders (Model.queryWhere m.constraints) = conditionMarks m.constraints := by
    unfold Model.queryWhere
    by_cases hc : m.constraints = []
    · simp [hc, conditionMarks]
    · simp [hc, h₃, placeholders_queryConditions]
  simp only [Model.queryText, placeholders_append, h₁, h₂, h₄, h₅, placeholders_selectList,
    placeholders_word]
  simp only [marks, List.map_cons, List.sum_cons]
  omega

theorem placeholders_deleteText (m : Model) :
    placeholders m.deleteText = marks [m.getTableName] + conditionMarks m.constraints := by
  have h₁ : placeholders (lit "DELETE FROM ") = 0 := by decide
  have h₂ : placeholders (lit " WHERE ") = 0 := by decide
  cases hc : m.constraints with
  | nil =>
    simp [Model.deleteText, Model.deleteWhere, hc, h₁, placeholders_word, marks, conditionMarks]
  | cons c cs =>
    simp [Model.deleteText, Model.deleteWhere, hc, h₁, h₂, placeholders_word, marks,
      placeholders_joinConditions]

theorem placeholders_setText (cols : List Str) :
    placeholders (setText cols) = marks cols + cols.length := by
  have h₁ : placeholders (lit " = ?") = 1 := by decide
  have h₂ : placeholders (lit ", ") = 0 := by decide
  have hmore : placeholders (setMore cols) = marks cols + cols.length := by
    induction cols with
    | nil => rfl
    | cons col cols ih =>
      have hcons : setMore (col :: cols) = lit ", " ++ word col ++ lit " = ?" ++ setMore cols := rfl
      rw [hcons]
      simp only [placeholders_append, h₁, h₂, ih, placeholders_word, marks, List.map_cons,
        List.sum_cons, List.length_cons]
      omega
  cases cols with
  | nil => rfl
  | cons col cols =>
    have hcons : setMore (col :: cols) = lit ", " ++ setText (col :: cols) := by
      simp [setMore, setText]
    rw [hcons, placeholders_append, h₂, Nat.zero_add] at hmore
    exact hmore

/-! ## Chains -/

inductive ChainOp where
  | All
  | First (t : Obj)
  | Delete
  | Update (args : Assignment)

inductive RawOp where
  | Exec
  | Fetch

/-- A chain of builder calls or a raw text, and the operation on it. -/
inductive Chain where
  | built (calls : List Call) (op : ChainOp)
  | raw (sql : Str) (args : List Value) (op : RawOp)

namespace Chain

def sent (m : Model) (reply : Reply) : Chain → Option Statement
  | built calls .All => ((m.calls calls).All reply).sent
  | built calls (.First t) => ((m.calls calls).First t reply).sent
  | built calls .Delete => ((m.calls calls).Delete reply).sent
  | built calls (.Update args) => ((m.calls calls).Update args reply).bind Done.sent
  | raw sql args .Exec => ((m.Raw sql args).Exec reply).sent
  | raw sql args .Fetch => ((m.Raw sql args).Fetch reply).sent

/-- The SET values, then the values of the conditions. -/
def values : Chain → List Value
  | built calls (.Update args) => args.vals ++ calls.flatMap Call.args
  | built calls _ => calls.flatMap Call.args
  | raw _ args _ => args

/-- Each condition, or the raw text, has as many `?` as values are given to it. -/
def Matched : Chain → Prop
  | built calls _ => ∀ call ∈ calls, ∀ sql ∈ call.condition, placeholders sql = call.args.length
  | raw sql args _ => sql.count '?' = args.length

/-- The names the statement is made with. -/
def names (m : Model) : Chain → List Str
  | built _ .Delete => [m.getTableName]
  | built _ (.Update args) => m.getTableName :: args.cols
  | built calls _ => m.getTableName :: calls.flatMap Call.columns
  | raw _ _ _ => []

/-- `Exec` and `Fetch` execute the text, and there is something to bind. -/
def Binds : Chain → Prop
  | built _ _ => True
  | raw sql _ .Exec => ¬ Model.IsSelect sql ∧ '?' ∈ Model.rawText sql
  | raw sql _ .Fetch => Model.IsSelect sql ∧ '?' ∈ Model.rawText sql

end Chain

/-- What a call adds to the placeholders and to the values. -/
theorem Call.constraint_cases (call : Call) :
    (call.constraint = none ∧ call.args = []) ∨
    (∃ c, call.constraint = some c ∧ c.bindValues = typed call.args ∧
      (call.condition = some c.condition ∨ (placeholders c.condition = 0 ∧ call.args = []))) := by
  cases call with
  | select args => exact Or.inl ⟨rfl, rfl⟩
  | page pageNum pageSize =>
    by_cases h : pageSize ≤ 0 ∨ pageNum ≤ 0
    · exact Or.inl ⟨if_pos h, rfl⟩
    · right
      exact ⟨_, if_neg h, rfl, Or.inr ⟨placeholders_pageText pageNum pageSize, rfl⟩⟩
  | cond_and cond args =>
    right
    exact ⟨_, rfl, by simp [bindVals_eq, typed, Call.args],
      Or.inl (by simp [bindVals_eq, Call.condition])⟩
  | cond_or cond args =>
    right
    exact ⟨_, rfl, by simp [bindVals_eq, typed, Call.args],
      Or.inl (by simp [bindVals_eq, Call.condition])⟩

theorem boundValues_calls (calls : List Call) :
    boundValues (calls.filterMap Call.constraint) = typed (calls.flatMap Call.args) := by
  induction calls with
  | nil => rfl
  | cons call calls ih =>
    rcases call.constraint_cases with ⟨hnone, hargs⟩ | ⟨c, hsome, hbind, -⟩
    · rw [List.filterMap_cons_none hnone, List.flatMap_cons, hargs]
      exact ih
    · rw [List.filterMap_cons_some hsome, List.flatMap_cons, typed, List.map_append, ← typed,
        ← typed, ← ih, ← hbind]
      rfl

theorem conditionMarks_calls {calls : List Call}
    (h : ∀ call ∈ calls, ∀ sql ∈ call.condition, placeholders sql = call.args.length) :
    conditionMarks (calls.filterMap Call.constraint) = (calls.flatMap Call.args).length := by
  induction calls with
  | nil => rfl
  | cons call calls ih =>
    have ih' := ih fun c hc => h c (by simp [hc])
    rw [List.flatMap_cons, List.length_append, ← ih']
    rcases call.constraint_cases with ⟨hnone, hargs⟩ | ⟨c, hsome, -, hcond⟩
    · rw [List.filterMap_cons_none hnone, hargs]
      simp
    · have hc : placeholders c.condition = call.args.length := by
        rcases hcond with hcond | ⟨hzero, hargs⟩
        · exact h call (by simp) _ hcond
        · rw [hzero, hargs]
          rfl
      rw [List.filterMap_cons_some hsome, ← hc]
      rfl

/-- All values count where names add no placeholder of their own. -/
theorem aligned_names {constraints : List Constraint} {vals : List Value}
    (hvals : boundValues constraints = typed vals) {sql : Sql} {names : List Str}
    (hsql : placeholders sql = marks names + vals.length) :
    Aligned (Model.bindParams constraints (Statement.prepare sql)) vals ↔
      (∀ name ∈ names, '?' ∉ name) ∧ ∀ val ∈ vals, val.Handled := by
  rw [aligned_iff hvals, ← marks_eq_zero, hsql]
  constructor
  · rintro ⟨hlen, hall⟩
    have hzero : marks names = 0 := by omega
    rw [hzero, Nat.zero_add, List.take_length] at hall
    exact ⟨hzero, hall⟩
  · rintro ⟨hzero, hall⟩
    rw [hzero, Nat.zero_add, List.take_length]
    exact ⟨Nat.le_refl _, hall⟩

theorem Model.All_sent (m : Model) (reply : Reply) : (m.All reply).sent = m.prepareQuery (-1) := by
  unfold Model.All
  cases reply.rows <;> rfl

theorem Model.First_sent (m : Model) (t : Obj) (reply : Reply) :
    (m.First t reply).sent = m.prepareQuery 1 := by
  unfold Model.First
  match reply.rows with
  | none => rfl
  | some [] => rfl
  | some (_ :: _) => rfl

theorem Model.prepareStatement_of_conn {m : Model} (h : m.conn.isSome) (sql : Sql) :
    m.prepareStatement sql = some (Statement.prepare sql) := by
  obtain ⟨id, hid⟩ := Option.isSome_iff_exists.mp h
  simp [Model.prepareStatement, hid]

/-- The conditions of the calls line up with their arguments; the names decide. -/
theorem aligned_calls {m : Model} (hm : m.Fresh) {calls : List Call}
    (hmatch : ∀ call ∈ calls, ∀ sql ∈ call.condition, placeholders sql = call.args.length)
    {sql : Sql} {names : List Str}
    (hsql : placeholders sql = marks names + conditionMarks (m.calls calls).constraints) :
    Aligned (Model.bindParams (m.calls calls).constraints (Statement.prepare sql))
        (calls.flatMap Call.args) ↔
      (∀ name ∈ names, '?' ∉ name) ∧ ∀ val ∈ calls.flatMap Call.args, val.Handled := by
  have hcs := hm.calls_constraints calls
  have hvals : boundValues (m.calls calls).constraints = typed (calls.flatMap Call.args) := by
    rw [hcs, boundValues_calls]
  rw [hcs, conditionMarks_calls hmatch] at hsql
  exact aligned_names hvals hsql

theorem aligned_query {m : Model} (hm : m.Fresh) (hconn : m.conn.isSome) {calls : List Call}
    (hmatch : ∀ call ∈ calls, ∀ sql ∈ call.condition, placeholders sql = call.args.length)
    {limit : Int} (hlimit : limit = 1 ∨ limit = -1) :
    (∀ stmt ∈ (m.calls calls).prepareQuery limit, Aligned stmt (calls.flatMap Call.args)) ↔
      (∀ name ∈ m.getTableName :: calls.flatMap Call.columns, '?' ∉ name) ∧
        ∀ val ∈ calls.flatMap Call.args, val.Handled := by
  have hsql := placeholders_queryText (m.calls calls) hlimit
  rw [hm.calls_selectedColumns, Model.calls_getTableName] at hsql
  rw [Model.prepareQuery, Model.prepareStatement_of_conn (by simpa using hconn)]
  simp only [Option.map_some, Option.mem_def, Option.some.injEq, forall_eq']
  exact aligned_calls hm hmatch hsql

theorem aligned_delete {m : Model} (hm : m.Fresh) (hconn : m.conn.isSome) {calls : List Call}
    (hmatch : ∀ call ∈ calls, ∀ sql ∈ call.condition, placeholders sql = call.args.length)
    (reply : Reply) :
    (∀ stmt ∈ ((m.calls calls).Delete reply).sent, Aligned stmt (calls.flatMap Call.args)) ↔
      (∀ name ∈ [m.getTableName], '?' ∉ name) ∧ ∀ val ∈ calls.flatMap Call.args, val.Handled := by
  have hsql := placeholders_deleteText (m.calls calls)
  rw [Model.calls_getTableName] at hsql
  rw [Model.Delete, Model.prepareStatement_of_conn (by simpa using hconn)]
  simp only [Option.map_some, Option.mem_def, Option.some.injEq, forall_eq']
  exact aligned_calls hm hmatch hsql

theorem aligned_update {m : Model} (hm : m.Fresh) (hconn : m.conn.isSome) {calls : List Call}
    (hmatch : ∀ call ∈ calls, ∀ sql ∈ call.condition, placeholders sql = call.args.length)
    (args : Assignment) (reply : Reply) :
    (∀ stmt ∈ ((m.calls calls).Update args reply).bind Done.sent,
      Aligned stmt (args.vals ++ calls.flatMap Call.args)) ↔
      (∀ name ∈ m.getTableName :: args.cols, '?' ∉ name) ∧
        ∀ val ∈ args.vals ++ calls.flatMap Call.args, val.Handled := by
  have hcs := hm.calls_constraints calls
  have h₁ : placeholders (lit "UPDATE ") = 0 := by decide
  have h₂ : placeholders (lit " SET ") = 0 := by decide
  have hwhere (cs : List Constraint) (binds : Constraint) :
      placeholders (Model.updateWhere (binds :: cs)) = conditionMarks cs := by
    have h₃ : placeholders (lit " WHERE ") = 0 := by decide
    cases cs with
    | nil => rfl
    | cons c cs => simp [Model.updateWhere, h₃, placeholders_joinConditions]
  have hvals : boundValues (bindVals {} args.vals :: (m.calls calls).constraints) =
      typed (args.vals ++ calls.flatMap Call.args) := by
    have hcalls := boundValues_calls calls
    rw [hcs, typed, List.map_append]
    rw [typed] at hcalls
    rw [← hcalls]
    simp [boundValues, bindVals_eq]
  rw [Model.Update_eq, Option.bind_some, Model.prepareStatement_of_conn (by simpa using hconn)]
  simp only [Option.map_some, Option.mem_def, Option.some.injEq, forall_eq']
  apply aligned_names hvals
  simp only [placeholders_append, h₁, h₂, hwhere, placeholders_word, placeholders_setText, hcs,
    conditionMarks_calls hmatch, Model.calls_getTableName, List.length_append, args.same]
  simp only [marks, List.map_cons, List.sum_cons]
  omega

theorem aligned_raw {m : Model} (hconn : m.conn.isSome) {sql : Str} {args : List Value}
    (hmatch : sql.count '?' = args.length) :
    (∀ stmt ∈ (m.Raw sql args).prepareRaw, Aligned stmt args) ↔
      ('?' ∈ Model.rawText sql → ∀ val ∈ args, val.Handled) := by
  have hvals : boundValues (m.Raw sql args).constraints = typed args := by
    simp [Model.Raw, boundValues, bindVals_eq, typed]
  have htext : placeholders (ofStr (m.Raw sql args).rawSql) = (Model.rawText sql).count '?' := by
    rw [placeholders_ofStr]
    rfl
  rw [Model.prepareRaw, Model.prepareStatement_of_conn (by simpa [Model.Raw] using hconn)]
  simp only [Option.map_some, Option.mem_def, Option.some.injEq, forall_eq']
  rw [aligned_iff hvals, htext]
  by_cases hmark : '?' ∈ Model.rawText sql
  · have hcount : (Model.rawText sql).count '?' = args.length := by
      rw [Model.rawText, Util.strip_count rfl (by
        intro hnil
        rw [Model.rawText, hnil] at hmark
        cases hmark), Util.toLowerCase_count, hmatch]
    rw [hcount, List.take_length]
    simp [hmark]
  · have hcount : (Model.rawText sql).count '?' = 0 := List.count_eq_zero.mpr hmark
    rw [hcount]
    simp [hmark]

theorem update_double_unbound :
    ¬ ∀ stmt ∈ Chain.sent { className := "Product".toList, conn := some 1 } {}
        (.built [.cond_and (word "id = ?".toList) [.int 7]]
          (.Update ⟨["price".toList], [.double 4607182418800017408], rfl, by simp⟩)),
      Aligned stmt [.double 4607182418800017408, .int 7] := by
  have hm : Model.Fresh { className := "Product".toList, conn := some 1 } := ⟨rfl, rfl⟩
  intro h
  have hall := (@aligned_update _ hm rfl [.cond_and (word "id = ?".toList) [.int 7]] (by decide)
    ⟨["price".toList], [.double 4607182418800017408], rfl, by simp⟩ {}).mp h
  exact absurd (hall.2 (.double 4607182418800017408) (by simp)) (by decide)

/-- The placeholders are bound in order exactly if no value is a `double` or a
`long long` and no name contributes a placeholder. -/
theorem chain_aligned {m : Model} (hm : m.Fresh) (hconn : m.conn.isSome) (chain : Chain)
    (hmatch : chain.Matched) (reply : Reply) :
    (∀ stmt ∈ chain.sent m reply, Aligned stmt chain.values) ↔
      (chain.Binds → (∀ name ∈ chain.names m, '?' ∉ name) ∧ ∀ val ∈ chain.values, val.Handled) := by
  cases chain with
  | built calls op =>
    have hbinds (P : Prop) : ((Chain.built calls op).Binds → P) ↔ P := by simp [Chain.Binds]
    rw [hbinds]
    cases op with
    | All =>
      simp only [Chain.sent, Chain.values, Chain.names, Model.All_sent]
      exact aligned_query hm hconn hmatch (Or.inr rfl)
    | First t =>
      simp only [Chain.sent, Chain.values, Chain.names, Model.First_sent]
      exact aligned_query hm hconn hmatch (Or.inl rfl)
    | Delete => exact aligned_delete hm hconn hmatch reply
    | Update args => exact aligned_update hm hconn hmatch args reply
  | raw sql args op =>
    have hraw := aligned_raw hconn hmatch
    have hstatus : (m.Raw sql args).status =
        if Model.IsSelect sql then .QUERY else .UPDATE := rfl
    cases op with
    | Exec =>
      by_cases hselect : Model.IsSelect sql
      · simp only [hselect, if_true] at hstatus
        simp [Chain.sent, Model.Exec, hstatus, Chain.Binds, hselect]
      · simp only [hselect, if_false] at hstatus
        simp only [Chain.sent, Model.Exec, hstatus]
        simpa [Chain.Binds, Chain.values, Chain.names, hselect] using hraw
    | Fetch =>
      by_cases hselect : Model.IsSelect sql
      · simp only [hselect, if_true] at hstatus
        have hsent : ((m.Raw sql args).Fetch reply).sent = (m.Raw sql args).prepareRaw := by
          simp only [Model.Fetch, hstatus]
          cases reply.rows <;> rfl
        simp only [Chain.sent, hsent]
        simpa [Chain.Binds, Chain.values, Chain.names, hselect] using hraw
      · simp only [hselect, if_false] at hstatus
        simp [Chain.sent, Model.Fetch, hstatus, Chain.Binds, hselect]

theorem chain_aligned_sample :
    ∃ stmt, Chain.sent { className := "User".toList, conn := some 1 } {}
        (.built [.cond_or (word "id = ?".toList) [.int 7], .page 1 3]
          (.Update
            ⟨["name".toList, "age".toList], [.const_str "a".toList, .int 3], rfl, by simp⟩)) =
        some stmt ∧
      Aligned stmt [.const_str "a".toList, .int 3, .int 7] := by
  have haligned :=
    (chain_aligned (m := { className := "User".toList, conn := some 1 }) ⟨rfl, rfl⟩ rfl
    (.built [.cond_or (word "id = ?".toList) [.int 7], .page 1 3]
      (.Update ⟨["name".toList, "age".toList], [.const_str "a".toList, .int 3], rfl, by simp⟩))
    (by
      intro call hcall sql hsql
      rcases List.mem_cons.mp hcall with rfl | hcall
      · cases hsql
        decide
      · rw [List.mem_singleton.mp hcall] at hsql
        cases hsql) {}).mpr fun _ => by decide
  exact ⟨_, rfl, haligned _ rfl⟩

end TinyOrm
