import TinyOrm.BoundConditions
import TinyOrm.Paging
import TinyOrm.InsertRows
set_option autoImplicit false

/-!
What the server reads from the SELECT, UPDATE and DELETE statements of a chain of
builder calls, and the rows that they are about.
-/

namespace TinyOrm

open BoolExpr

/-! ## The server's grammar -/

/-- A statement with its parameters in their places. A limit is how many rows are
returned, and how many are skipped before them. -/
inductive Dml where
  | insert (rows : List InsertedRow)
  | update (table : Str) (set : List (Str × Option Param)) (predicate : Option (BoolExpr BoundAtom))
  | delete (table : Str) (predicate : Option (BoolExpr BoundAtom))
  | select (columns : List Str) (table : Str) (predicate : Option (BoolExpr BoundAtom))
    (limit : Option (Nat × Nat))

def readWords : Sql → Option (List Str × Sql)
  | .word col :: .ch ',' :: .ch ' ' :: rest => (readWords rest).map fun p => (col :: p.1, p.2)
  | .word col :: rest => some ([col], rest)
  | _ => none

/-- `*` reads as no columns. -/
def readColumns : Sql → Option (List Str × Sql)
  | .ch '*' :: rest => some ([], rest)
  | rest => readWords rest

/-- The columns of `col = ?, col = ?`. -/
def readSet : Sql → Option (List Str × Sql)
  | .word col :: .ch ' ' :: .ch '=' :: .ch ' ' :: .ch '?' :: .ch ',' :: .ch ' ' :: rest =>
    (readSet rest).map fun p => (col :: p.1, p.2)
  | .word col :: .ch ' ' :: .ch '=' :: .ch ' ' :: .ch '?' :: rest => some ([col], rest)
  | _ => none

/-- A text up to its first ` LIMIT `, and the rest. -/
def cutLimit : Sql → Sql × Sql
  | [] => ([], [])
  | s :: rest =>
    if (lit " LIMIT ").isPrefixOf (s :: rest) then ([], s :: rest)
    else (s :: (cutLimit rest).1, (cutLimit rest).2)

/-- `[LIMIT n [OFFSET m]]` -/
def readLimitClause (sql : Sql) : Option (Option (Nat × Nat)) :=
  if sql = [] then some none
  else match readLimit (text sql) with
    | some limit => some (some limit)
    | none => do
      let s ← (text sql).dropPrefix? " LIMIT ".toList
      let (limit, s) ← readNumber s
      if s = [] then some (some (limit, 0)) else none

def readTable : Sql → Option (Str × Sql)
  | .word table :: rest => some (table, rest)
  | _ => none

def readSelect (params : List (Option Param)) (sql : Sql) : Option Dml := do
  let (columns, sql) ← readColumns sql
  let sql ← sql.dropPrefix? (lit " FROM ")
  let (table, sql) ← readTable sql
  let predicate ← readBoundWhere (cutLimit sql).1 params
  let limit ← readLimitClause (cutLimit sql).2
  some (.select columns table predicate limit)

def readUpdate (params : List (Option Param)) (sql : Sql) : Option Dml := do
  let (table, sql) ← readTable sql
  let sql ← sql.dropPrefix? (lit " SET ")
  let (columns, sql) ← readSet sql
  let predicate ← readBoundWhere sql (params.drop columns.length)
  some (.update table (columns.zip params) predicate)

def readDelete (params : List (Option Param)) (sql : Sql) : Option Dml := do
  let (table, sql) ← readTable sql
  let predicate ← readBoundWhere sql params
  some (.delete table predicate)

def readDml (stmt : Statement) : Option Dml :=
  match stmt.sql.dropPrefix? (lit "SELECT ") with
  | some sql => readSelect stmt.paramBind sql
  | none =>
    match stmt.sql.dropPrefix? (lit "UPDATE ") with
    | some sql => readUpdate stmt.paramBind sql
    | none =>
      match stmt.sql.dropPrefix? (lit "DELETE FROM ") with
      | some sql => readDelete stmt.paramBind sql
      | none => (insertedRows stmt).map .insert

/-! ## The conditions of a chain -/

def sentArgs (vals : List Value) : List (Option Param) := vals.map fun val => some val.param

namespace Call

def join : Call → Join
  | cond_or _ _ => .or
  | _ => .and

/-- The condition with its own arguments in place. -/
def expr (call : Call) : Option (BoolExpr BoundAtom) :=
  call.condition.bind fun sql => readPredicate sql (sentArgs call.args)

/-- A condition is a boolean expression with as many placeholders as arguments, each
of a type that is bound. -/
structure Readable (call : Call) : Prop where
  expr : ∀ sql ∈ call.condition, (readPredicate sql (sentArgs call.args)).isSome
  marks : ∀ sql ∈ call.condition, placeholders sql = call.args.length
  handled : ∀ val ∈ call.args, val.Handled

/-- The condition has no OR outside of parentheses. -/
def Closed (call : Call) : Prop :=
  ∀ sql ∈ call.condition, ∃ e, ReadsAs sql (sentArgs call.args) e

end Call

def conditionsOf (calls : List Call) : List (Join × BoolExpr BoundAtom) :=
  calls.filterMap fun call => call.expr.map (call.join, ·)

/-- There is no condition, or all conditions of a run with AND between them hold. -/
def chosen (row : BoundAtom → Option Bool) (calls : List Call) : Bool :=
  match conditionsOf calls with
  | [] => true
  | (_, e) :: more => someRun (holds row) [e] more

/-- The page at the end of a chain, or the one row of `First`. -/
def limitOf (calls : List Call) : ReadOp → Option (Nat × Nat)
  | .First => some (1, 0)
  | .All =>
    match (effective calls).getLast? with
    | some (.page pageNum pageSize) =>
      some (pageSize.toInt.toNat, ((pageNum - 1) * pageSize).toInt.toNat)
    | _ => none

/-! ## Binding -/

theorem foldl_bindParam_length (binds : List (Str × Value)) (acc : Statement × Nat) :
    (binds.foldl Model.bindParam acc).1.paramBind.length = acc.1.paramBind.length := by
  have hset (stmt : Statement) (index : Nat) (type : FieldType) (val : Value) :
      (stmt.setParam index type val).paramBind.length = stmt.paramBind.length := by
    unfold Statement.setParam
    split
    · exact List.length_set
    · rfl
  induction binds generalizing acc with
  | nil => rfl
  | cons bind binds ih =>
    rw [List.foldl_cons, ih]
    obtain ⟨stmt, index⟩ := acc
    simp only [Model.bindParam]
    split
    · exact hset _ _ _ _
    · split
      · exact hset _ _ _ _
      · split
        · exact hset _ _ _ _
        · split
          · exact hset _ _ _ _
          · split
            · exact hset _ _ _ _
            · rfl

/-- As many placeholders as values, all of types that are bound. -/
theorem bindParams_all {constraints : List Constraint} {vals : List Value}
    (hvals : boundValues constraints = typed vals) (hall : ∀ val ∈ vals, val.Handled) {sql : Sql}
    (hsql : placeholders sql = vals.length) :
    Model.bindParams constraints (Statement.prepare sql) = ⟨sql, sentArgs vals⟩ := by
  have htext := bindParams_sql constraints (Statement.prepare sql)
  have hlength : (Model.bindParams constraints (Statement.prepare sql)).paramBind.length =
      vals.length := by
    rw [bindParams_eq, foldl_bindParam_length, ← hsql]
    exact List.length_replicate
  have hfilter : vals.filter Value.Handled = vals :=
    List.filter_eq_self.mpr fun val hval => by simpa using hall val hval
  have hbinds :
      (Model.bindParams constraints (Statement.prepare sql)).paramBind = sentArgs vals := by
    refine List.ext_getElem? fun k => ?_
    by_cases hk : k < vals.length
    · rw [bindParams_get hvals sql (by omega), hfilter, sentArgs, List.getElem?_map,
        List.getElem?_eq_getElem hk]
      rfl
    · rw [List.getElem?_eq_none (by omega), List.getElem?_eq_none (by simp [sentArgs]; omega)]
  rw [← hbinds]
  generalize Model.bindParams constraints (Statement.prepare sql) = stmt at htext
  obtain ⟨_, _⟩ := stmt
  obtain rfl := htext
  rfl

/-! ## Pieces of a statement -/

theorem dropPrefix?_sql (front rest : Sql) : (front ++ rest).dropPrefix? front = some rest :=
  List.dropPrefix?_eq_some_iff.mpr ⟨front, rfl, beq_self_eq_true front⟩

theorem readWords_selectList (col : Str) (cols : List Str) (rest : Sql) :
    readWords (Model.selectList (col :: cols) ++ (lit " FROM " ++ rest)) =
      some (col :: cols, lit " FROM " ++ rest) := by
  induction cols generalizing col with
  | nil => rfl
  | cons next cols ih =>
    have hstep (more : Sql) : readWords (word col ++ lit ", " ++ more) =
        (readWords more).map fun p => (col :: p.1, p.2) := rfl
    rw [Model.selectList, List.append_assoc, hstep, ih]
    rfl

theorem readColumns_selectList (cols : List Str) (rest : Sql) :
    readColumns (Model.selectList cols ++ (lit " FROM " ++ rest)) =
      some (cols, lit " FROM " ++ rest) := by
  cases cols with
  | nil => rfl
  | cons col cols =>
    rw [← readWords_selectList]
    cases cols <;> rfl

/-- What follows the assignments begins with a blank, if there is anything. -/
theorem readSet_setText (col : Str) (cols : List Str) {rest : Sql}
    (hrest : ∀ s ∈ rest.head?, s = .ch ' ') :
    readSet (setText (col :: cols) ++ rest) = some (col :: cols, rest) := by
  induction cols generalizing col with
  | nil =>
    cases rest with
    | nil => rfl
    | cons s rest =>
      obtain rfl := hrest s rfl
      rfl
  | cons next cols ih =>
    have hstep (more : Sql) : readSet (word col ++ lit " = ?" ++ (lit ", " ++ more)) =
        (readSet more).map fun p => (col :: p.1, p.2) := rfl
    have hcons : setText (col :: next :: cols) ++ rest =
        word col ++ lit " = ?" ++ (lit ", " ++ (setText (next :: cols) ++ rest)) := by
      simp [setText, setMore]
    rw [hcons, hstep, ih]
    rfl

/-- No limit begins inside of a text without an L. -/
theorem cutLimit_append {clause limit : Sql} (h : Sym.ch 'L' ∉ clause)
    (hlimit : limit = [] ∨ ∃ rest, limit = lit " LIMIT " ++ rest) :
    cutLimit (clause ++ limit) = (clause, limit) := by
  induction clause with
  | nil =>
    rcases hlimit with rfl | ⟨rest, rfl⟩
    · rfl
    · rfl
  | cons s clause ih =>
    have hmore := ih fun hmem => h (by simp [hmem])
    have hsecond : ((clause ++ limit).head?) ≠ some (.ch 'L') := by
      cases clause with
      | nil =>
        rcases hlimit with rfl | ⟨rest, rfl⟩
        · simp
        · simp [lit, ofStr]
      | cons t clause =>
        intro heq
        have ht : t = .ch 'L' := by simpa using heq
        exact h (by simp [ht])
    have hnot : (lit " LIMIT ").isPrefixOf (s :: (clause ++ limit)) = false := by
      rw [Bool.eq_false_iff]
      intro hprefix
      obtain ⟨rest, hrest⟩ := List.isPrefixOf_iff_prefix.mp hprefix
      have htail : clause ++ limit = lit "LIMIT " ++ rest := (List.cons.inj hrest).2.symm
      rw [htail] at hsecond
      exact hsecond rfl
    rw [List.cons_append, cutLimit, hnot]
    simp [hmore]

/-- Keywords between atomic predicates are AND, OR and NOT. -/
theorem no_limit_of_lexFrom {pending : Str} {sql : Sql} {ts : List (BoolTok Str)}
    (h : lexFrom pending sql = some ts) : 'L' ∉ pending ∧ Sym.ch 'L' ∉ sql := by
  have hkeyword {s : Str} {t : BoolTok Str} (hs : keyword s = some t) : 'L' ∉ s := by
    intro hmem
    have hlower : 'l' ∈ Util.toLowerCase s := List.mem_map.mpr ⟨'L', hmem, rfl⟩
    unfold keyword at hs
    split at hs
    · rename_i heq
      rw [heq] at hlower
      exact absurd hlower (by decide)
    · split at hs
      · rename_i heq
        rw [heq] at hlower
        exact absurd hlower (by decide)
      · split at hs
        · rename_i heq
          rw [heq] at hlower
          exact absurd hlower (by decide)
        · cases hs
  have hflush {pending : Str} {rest : Option (List (BoolTok Str))} {ts : List (BoolTok Str)}
      (hf : flush pending rest = some ts) : 'L' ∉ pending ∧ ∃ us, rest = some us := by
    rcases flush_eq_some hf with ⟨rfl, heq⟩ | ⟨t, us, -, hkey, heq, -⟩
    · exact ⟨by simp, ts, heq⟩
    · exact ⟨hkeyword hkey, us, heq⟩
  induction sql generalizing pending ts with
  | nil => exact ⟨(hflush h).1, by simp⟩
  | cons s sql ih =>
    cases s with
    | word w =>
      obtain ⟨hpending, us, hus⟩ := hflush h
      obtain ⟨vs, hvs, -⟩ := Option.map_eq_some_iff.mp hus
      exact ⟨hpending, by simp [(ih hvs).2]⟩
    | ch c =>
      rw [lexFrom] at h
      by_cases halpha : c.isAlpha
      · rw [if_pos halpha] at h
        obtain ⟨hpending, hsql⟩ := ih h
        rw [List.mem_append, not_or, List.mem_singleton] at hpending
        exact ⟨hpending.1, by simp [hpending.2, hsql]⟩
      · have hc : 'L' ≠ c := by
          intro heq
          subst heq
          exact halpha (by decide)
        rw [if_neg halpha] at h
        split at h
        · obtain ⟨hpending, us, hus⟩ := hflush h
          exact ⟨hpending, by simp [hc, (ih hus).2]⟩
        · split at h
          · obtain ⟨hpending, us, hus⟩ := hflush h
            obtain ⟨vs, hvs, -⟩ := Option.map_eq_some_iff.mp hus
            exact ⟨hpending, by simp [hc, (ih hvs).2]⟩
          · split at h
            · obtain ⟨hpending, us, hus⟩ := hflush h
              obtain ⟨vs, hvs, -⟩ := Option.map_eq_some_iff.mp hus
              exact ⟨hpending, by simp [hc, (ih hvs).2]⟩
            · cases h

/-! ## The clauses of a chain -/

/-- The WHERE clause over conditions that are rendered in one way. -/
def clauseText (render : Sql → Sql) : List Constraint → Sql
  | [] => []
  | c :: cs => lit " WHERE " ++ (render c.condition ++ joinedText render cs)

theorem queryWhere_clause {cs : List Constraint} (h : ∀ c ∈ cs, c.conj ≠ .LIMIT) :
    Model.queryWhere cs = clauseText parens cs := by
  cases cs with
  | nil => rfl
  | cons c cs =>
    have hc := h c (by simp)
    have hmore := queryConditions_joined 0 fun c hc => h c (List.mem_cons_of_mem _ hc)
    simp only [Model.queryWhere, Model.queryConditions, Nat.zero_add, hmore]
    simp [hc, clauseText, parens]

theorem updateWhere_clause (binds : Constraint) (cs : List Constraint) :
    Model.updateWhere (binds :: cs) = clauseText id cs := by
  cases cs with
  | nil => rfl
  | cons c cs =>
    have hmore := joinConditions_joined 0 cs
    simp [Model.updateWhere, Model.joinConditions, clauseText, hmore]

theorem readBoundWhere_where (body : Sql) (params : List (Option Param)) :
    readBoundWhere (lit " WHERE " ++ body) params = (readPredicate body params).map some := by
  have hlit : lit " WHERE " = [.ch ' ', .ch 'W', .ch 'H', .ch 'E', .ch 'R', .ch 'E', .ch ' '] := rfl
  simp [readBoundWhere, hlit]

/-- A `Page` of the chain does not take effect. -/
def Unpaged (calls : List Call) : Prop := ∀ call ∈ effective calls, call.condition.isSome

instance (calls : List Call) : Decidable (Unpaged calls) :=
  inferInstanceAs (Decidable (∀ call ∈ effective calls, call.condition.isSome))

theorem conditionsOf_cons {call : Call} {e : BoolExpr BoundAtom} (h : call.expr = some e)
    (calls : List Call) : conditionsOf (call :: calls) = (call.join, e) :: conditionsOf calls :=
  List.filterMap_cons_some (by rw [h]; rfl)

/-- What the calls leave, with the predicates of their conditions. -/
theorem written_constraints {render : Sql → Sql} {calls : List Call} (hpage : Unpaged calls)
    (hread : ∀ call ∈ calls, ∀ sql ∈ call.condition,
      ∃ e, call.expr = some e ∧ ReadsAs (render sql) (sentArgs call.args) e) :
    ∃ ps, List.Forall₂ (Constraint.Written render) (calls.filterMap Call.constraint) ps ∧
      ps.flatMap Prod.fst = sentArgs (calls.flatMap Call.args) ∧
      ((calls.filterMap Call.constraint).zip ps).map (fun q => (q.1.conj.join, q.2.2)) =
        conditionsOf calls := by
  have hwritten {call : Call} {sql : Sql} {args : List Value} {e : BoolExpr BoundAtom} {conj : Conj}
      (hconj : conj = .AND ∨ conj = .OR) (hargs : call.args = args)
      (hreads : ReadsAs (render sql) (sentArgs call.args) e) :
      Constraint.Written render (bindVals ⟨sql, conj, []⟩ args) (sentArgs args, e) := by
    rw [bindVals_eq]
    exact ⟨hconj, hargs ▸ hreads⟩
  induction calls with
  | nil => exact ⟨[], .nil, rfl, rfl⟩
  | cons call calls ih =>
    have hpages : Unpaged calls := by
      intro later hlater
      refine hpage later ?_
      rw [effective] at hlater ⊢
      exact List.mem_filter.mpr ⟨by simp [(List.mem_filter.mp hlater).1],
        (List.mem_filter.mp hlater).2⟩
    obtain ⟨ps, hps, hargs, hjoins⟩ := ih hpages fun call hcall => hread call (by simp [hcall])
    cases call with
    | select cols => exact ⟨ps, hps, hargs, hjoins⟩
    | page pageNum pageSize =>
      have hnone : (Call.page pageNum pageSize).constraint = none := by
        cases hc : (Call.page pageNum pageSize).constraint with
        | none => rfl
        | some c =>
          have hsome := hpage (.page pageNum pageSize)
            (List.mem_filter.mpr ⟨List.mem_cons_self, by simp [hc]⟩)
          exact absurd hsome (by simp [Call.condition])
      rw [List.filterMap_cons_none hnone]
      exact ⟨ps, hps, hargs, hjoins⟩
    | cond_and sql args =>
      obtain ⟨e, he, hreads⟩ := hread (.cond_and sql args) (by simp) sql rfl
      refine ⟨(sentArgs args, e) :: ps, ?_, ?_, ?_⟩
      · exact .cons (hwritten (.inl rfl) rfl hreads) hps
      · rw [List.flatMap_cons, hargs]
        simp [sentArgs, Call.args]
      · rw [conditionsOf_cons he, ← hjoins,
          List.filterMap_cons_some (Call.constraint_cond_and sql args), List.zip_cons_cons,
          List.map_cons, bindVals_eq]
        rfl
    | cond_or sql args =>
      obtain ⟨e, he, hreads⟩ := hread (.cond_or sql args) (by simp) sql rfl
      refine ⟨(sentArgs args, e) :: ps, ?_, ?_, ?_⟩
      · exact .cons (hwritten (.inr rfl) rfl hreads) hps
      · rw [List.flatMap_cons, hargs]
        simp [sentArgs, Call.args]
      · rw [conditionsOf_cons he, ← hjoins,
          List.filterMap_cons_some (Call.constraint_cond_or sql args), List.zip_cons_cons,
          List.map_cons, bindVals_eq]
        rfl

theorem clause_chosen {render : Sql → Sql} {calls : List Call} (hpage : Unpaged calls)
    (hread : ∀ call ∈ calls, ∀ sql ∈ call.condition,
      ∃ e, call.expr = some e ∧ ReadsAs (render sql) (sentArgs call.args) e) :
    ∃ predicate, readBoundWhere (clauseText render (calls.filterMap Call.constraint))
        (sentArgs (calls.flatMap Call.args)) = some predicate ∧
      ∀ row, selectsBound predicate row = chosen row calls := by
  obtain ⟨ps, hps, hargs, hjoins⟩ := written_constraints hpage hread
  rw [← hargs]
  generalize calls.filterMap Call.constraint = cs at hps hjoins
  cases hps with
  | nil =>
    refine ⟨none, rfl, fun row => ?_⟩
    rw [chosen, ← hjoins]
    rfl
  | @cons c p cs ps hc hps =>
    obtain ⟨e, he, htruth⟩ := readPredicate_joined hc.reads hps
    refine ⟨some e, ?_, fun row => ?_⟩
    · rw [clauseText, readBoundWhere_where, List.flatMap_cons, he]
      rfl
    · rw [chosen, ← hjoins]
      exact htruth row

theorem no_limit_of_clause {clause : Sql} {params : List (Option Param)}
    {predicate : Option (BoolExpr BoundAtom)} (h : readBoundWhere clause params = some predicate) :
    Sym.ch 'L' ∉ clause := by
  unfold readBoundWhere at h
  split at h
  · rename_i hnil
    simp [hnil]
  · split at h
    · rename_i hprefix
      obtain ⟨body, rfl⟩ := List.isPrefixOf_iff_prefix.mp hprefix
      obtain ⟨e, he, -⟩ := Option.map_eq_some_iff.mp h
      obtain ⟨ts, hts, -⟩ := Option.bind_eq_some_iff.mp he
      rw [List.mem_append, not_or]
      exact ⟨by decide, (no_limit_of_lexFrom hts).2⟩
    · cases h

/-! ## The statements -/

theorem Call.Readable.reads {call : Call} (h : call.Readable) :
    ∀ sql ∈ call.condition,
      ∃ e, call.expr = some e ∧ ReadsAs (parens sql) (sentArgs call.args) e := by
  intro sql hsql
  obtain ⟨e, he⟩ := Option.isSome_iff_exists.mp (h.expr sql hsql)
  refine ⟨e, ?_, readsAs_parens he (by simp [h.marks sql hsql, sentArgs])⟩
  rw [Call.expr, hsql, Option.bind_some, he]

theorem Call.Closed.reads {call : Call} (h : call.Closed) :
    ∀ sql ∈ call.condition,
      ∃ e, call.expr = some e ∧ ReadsAs (id sql) (sentArgs call.args) e := by
  intro sql hsql
  obtain ⟨e, he⟩ := h sql hsql
  refine ⟨e, ?_, he⟩
  rw [Call.expr, hsql, Option.bind_some, he.predicate]

theorem expr_eq_none {call : Call} (h : call.constraint = none) :
    call.expr = none ∧ call.args = [] := by
  cases call with
  | cond_and sql args => cases h
  | cond_or sql args => cases h
  | _ => exact ⟨rfl, rfl⟩

/-- Only the calls that append a constraint matter. -/
theorem effective_conditions (calls : List Call) :
    conditionsOf (effective calls) = conditionsOf calls ∧
      (effective calls).flatMap Call.args = calls.flatMap Call.args := by
  induction calls with
  | nil => exact ⟨rfl, rfl⟩
  | cons call calls ih =>
    cases hc : call.constraint with
    | none =>
      have hcut : effective (call :: calls) = effective calls :=
        List.filter_cons_of_neg (by simp [hc])
      obtain ⟨hexpr, hargs⟩ := expr_eq_none hc
      rw [hcut, List.flatMap_cons, hargs]
      exact ⟨ih.1.trans (List.filterMap_cons_none (by rw [hexpr]; rfl)).symm, ih.2⟩
    | some c =>
      have hkept : effective (call :: calls) = call :: effective calls :=
        List.filter_cons_of_pos (by simp [hc])
      rw [hkept, List.flatMap_cons, List.flatMap_cons, ih.2]
      refine ⟨?_, rfl⟩
      rw [conditionsOf, List.filterMap_cons, ← conditionsOf, ih.1]
      rfl

/-- The clause and the limit of a chain. -/
structure QueryTail (calls : List Call) (op : ReadOp) (conds : List Call) (limit : Sql) : Prop where
  unpaged : Unpaged conds
  sub : ∀ call ∈ conds, call ∈ calls
  conditions : conditionsOf conds = conditionsOf calls
  args : conds.flatMap Call.args = calls.flatMap Call.args
  text : Model.queryWhere (calls.filterMap Call.constraint) ++
      (if op.limit > 0 then lit " LIMIT " ++ ofStr (showInt op.limit) else []) =
    clauseText parens (conds.filterMap Call.constraint) ++ limit
  reads : readLimitClause limit = some (limitOf calls op)
  starts : limit = [] ∨ ∃ rest, limit = lit " LIMIT " ++ rest

theorem Unpaged.constraints {calls : List Call} (h : Unpaged calls) :
    ∀ c ∈ calls.filterMap Call.constraint, c.conj ≠ .LIMIT := by
  intro c hc
  obtain ⟨call, hcall, hsome⟩ := List.mem_filterMap.mp hc
  have hcond := h call (List.mem_filter.mpr ⟨hcall, by simp [hsome]⟩)
  cases call with
  | cond_and sql args =>
    obtain rfl := Option.some.inj hsome
    simp [bindVals_eq]
  | cond_or sql args =>
    obtain rfl := Option.some.inj hsome
    simp [bindVals_eq]
  | select cols => simp [Call.condition] at hcond
  | page pageNum pageSize => simp [Call.condition] at hcond

theorem QueryTail.of_unpaged {calls : List Call} (h : Unpaged calls) (op : ReadOp) :
    ∃ limit, QueryTail calls op calls limit := by
  have hwhere := queryWhere_clause h.constraints
  cases op with
  | First =>
    have hone : readLimitClause (lit " LIMIT " ++ ofStr (showInt 1)) = some (some (1, 0)) := by
      decide
    refine ⟨lit " LIMIT " ++ ofStr (showInt 1), h, fun _ hcall => hcall, rfl, rfl, ?_, hone,
      .inr ⟨_, rfl⟩⟩
    rw [hwhere]
    rfl
  | All =>
    refine ⟨[], h, fun _ hcall => hcall, rfl, rfl, ?_, ?_, .inl rfl⟩
    · rw [hwhere]
      rfl
    · have hlast : limitOf calls .All = none := by
        rw [limitOf]
        cases hget : (effective calls).getLast? with
        | none => rfl
        | some call =>
          have hcond := h call (List.mem_of_getLast? hget)
          cases call with
          | page pageNum pageSize => simp [Call.condition] at hcond
          | _ => rfl
      rw [hlast]
      rfl

theorem readLimitClause_page {pageNum pageSize : Int32} (hsize : 0 < pageSize.toInt)
    (hoffset : 0 ≤ ((pageNum - 1) * pageSize).toInt) :
    readLimitClause (Model.pageText pageNum pageSize) =
      some (some (pageSize.toInt.toNat, ((pageNum - 1) * pageSize).toInt.toNat)) := by
  have hne : Model.pageText pageNum pageSize ≠ [] := by simp [Model.pageText, lit, ofStr]
  rw [readLimitClause, if_neg hne, readLimit_pageText hsize, if_pos hoffset]

theorem QueryTail.of_page {calls conds : List Call} {pageNum pageSize : Int32}
    (heff : effective calls = conds ++ [.page pageNum pageSize]) (hne : conds ≠ [])
    (hconds : ∀ call ∈ conds, call.condition.isSome)
    (hoffset : 0 ≤ ((pageNum - 1) * pageSize).toInt) :
    QueryTail calls .All conds (Model.pageText pageNum pageSize) := by
  have hsome : (Call.page pageNum pageSize).constraint.isSome :=
    effective_isSome (.page pageNum pageSize) (heff ▸ List.mem_append_right conds (by simp))
  rcases Call.counts_cases hsome with
    ⟨c, args, hcond, -⟩ | ⟨num, size, hpage, hsize, -, hconstraint⟩
  · cases hcond
  · obtain ⟨rfl, rfl⟩ := Call.page.inj hpage
    have hunpaged : Unpaged conds := fun call hcall => hconds call (List.mem_filter.mp hcall).1
    obtain ⟨hconditions, hargs⟩ := effective_conditions calls
    rw [heff] at hconditions hargs
    have hcs : calls.filterMap Call.constraint = conds.filterMap Call.constraint ++
        [⟨Model.pageText pageNum pageSize, .LIMIT, []⟩] := by
      rw [← effective_constraints, heff, List.filterMap_append,
        List.filterMap_cons_some hconstraint]
      rfl
    have hcsne : conds.filterMap Call.constraint ≠ [] := by
      obtain ⟨call, rest, rfl⟩ := List.exists_cons_of_ne_nil hne
      have hcall := hconds call (by simp)
      cases call with
      | cond_and sql args => simp [Call.constraint]
      | cond_or sql args => simp [Call.constraint]
      | select cols => simp [Call.condition] at hcall
      | page pageNum pageSize => simp [Call.condition] at hcall
    have hstarts : Model.pageText pageNum pageSize = lit " LIMIT " ++
        (ofStr (showInt pageSize.toInt) ++
          (lit " OFFSET " ++ ofStr (showInt ((pageNum - 1) * pageSize).toInt))) := by
      rw [Model.pageText, List.append_assoc, List.append_assoc]
    refine ⟨hunpaged, fun call hcall => ?_, ?_, ?_, ?_, ?_, .inr ⟨_, hstarts⟩⟩
    · have hmem : call ∈ effective calls := by
        rw [heff]
        simp [hcall]
      exact (List.mem_filter.mp hmem).1
    · rw [← hconditions, conditionsOf, conditionsOf, List.filterMap_append]
      exact (List.append_nil _).symm
    · rw [← hargs, List.flatMap_append]
      exact (List.append_nil _).symm
    · have hwhere := queryWhere_clause hunpaged.constraints
      rw [Model.queryWhere, if_neg hcsne] at hwhere
      rw [hcs, Model.queryWhere, if_neg (by simp), queryConditions_append _ _ _ rfl, ← hwhere]
      simp [ReadOp.limit]
    · rw [readLimitClause_page hsize hoffset, limitOf, heff, List.getLast?_concat]

theorem WellPaged.tail {calls : List Call} {op : ReadOp} (h : WellPaged calls op) :
    ∃ conds limit, QueryTail calls op conds limit := by
  rcases h with hconds | ⟨rfl, conds, pageNum, pageSize, heff, hne, hconds, hoffset⟩
  · obtain ⟨limit, htail⟩ := QueryTail.of_unpaged hconds op
    exact ⟨calls, limit, htail⟩
  · exact ⟨conds, _, QueryTail.of_page heff hne hconds hoffset⟩

/-- All or First returns rows that satisfy all conditions of some run with AND between
them, each condition with its own arguments. -/
theorem query_read {m : Model} (hm : m.Fresh) (hconn : m.conn.isSome) {calls : List Call}
    {op : ReadOp} (hread : ∀ call ∈ calls, call.Readable) (hpaged : WellPaged calls op)
    (hnames : ∀ name ∈ m.getTableName :: calls.flatMap Call.columns, '?' ∉ name) :
    ∃ stmt predicate, (m.calls calls).prepareQuery op.limit = some stmt ∧
      readDml stmt = some (.select (calls.flatMap Call.columns) m.getTableName predicate
        (limitOf calls op)) ∧
      ∀ row, selectsBound predicate row = chosen row calls := by
  obtain ⟨conds, limit, htail⟩ := hpaged.tail
  obtain ⟨predicate, hclause, htruth⟩ := clause_chosen htail.unpaged
    fun call hcall => (hread call (htail.sub call hcall)).reads
  have hmarks := conditionMarks_calls fun call hcall => (hread call hcall).marks
  have hlimit : op.limit = 1 ∨ op.limit = -1 := by cases op <;> simp [ReadOp.limit]
  have hsql := placeholders_queryText (m.calls calls) hlimit
  rw [hm.calls_selectedColumns, Model.calls_getTableName, hm.calls_constraints, hmarks,
    (marks_eq_zero _).mpr hnames, Nat.zero_add] at hsql
  have hvals : boundValues (m.calls calls).constraints = typed (calls.flatMap Call.args) := by
    rw [hm.calls_constraints, boundValues_calls]
  have hhandled : ∀ val ∈ calls.flatMap Call.args, val.Handled := by
    intro val hval
    obtain ⟨call, hcall, hmem⟩ := List.mem_flatMap.mp hval
    exact (hread call hcall).handled val hmem
  refine ⟨⟨(m.calls calls).queryText op.limit, sentArgs (calls.flatMap Call.args)⟩, predicate,
    ?_, ?_, fun row => ?_⟩
  · rw [Model.prepareQuery, Model.prepareStatement_of_conn (by simpa using hconn), Option.map_some,
      bindParams_all hvals hhandled hsql]
  · have htext : (m.calls calls).queryText op.limit = lit "SELECT " ++
        (Model.selectList (calls.flatMap Call.columns) ++ (lit " FROM " ++ (word m.getTableName ++
          (clauseText parens (conds.filterMap Call.constraint) ++ limit)))) := by
      rw [Model.queryText, hm.calls_selectedColumns, Model.calls_getTableName,
        hm.calls_constraints, ← htail.text]
      simp only [List.append_assoc]
    have hcut := cutLimit_append (no_limit_of_clause hclause) htail.starts
    have htable (rest : Sql) : readTable (word m.getTableName ++ rest) =
        some (m.getTableName, rest) := rfl
    rw [htail.args] at hclause
    simp only [readDml, htext, dropPrefix?_sql, readSelect, readColumns_selectList, htable, hcut,
      hclause, htail.reads, Option.bind_eq_bind, Option.bind_some]
  · rw [htruth, chosen, chosen, htail.conditions]

/-! ## UPDATE and DELETE -/

/-- A call that takes effect, where none is a `Page`. -/
theorem Unpaged.condition {calls : List Call} (hpage : Unpaged calls)
    (hread : ∀ call ∈ calls, call.Readable) {call : Call} (hcall : call ∈ effective calls) :
    ∃ c e, call.constraint = some c ∧ call.expr = some e ∧
      readPredicate c.condition (sentArgs call.args) = some e := by
  obtain ⟨sql, hsql⟩ := Option.isSome_iff_exists.mp (hpage call hcall)
  obtain ⟨e, he⟩ := Option.isSome_iff_exists.mp
    ((hread call (List.mem_filter.mp hcall).1).expr sql hsql)
  have hexpr : call.expr = some e := by rw [Call.expr, hsql, Option.bind_some, he]
  cases call with
  | select cols => cases hsql
  | page pageNum pageSize => cases hsql
  | cond_and cond args =>
    obtain rfl := Option.some.inj hsql
    exact ⟨_, e, rfl, hexpr, by rw [bindVals_eq, he]⟩
  | cond_or cond args =>
    obtain rfl := Option.some.inj hsql
    exact ⟨_, e, rfl, hexpr, by rw [bindVals_eq, he]⟩

/-- A single condition stands without parentheses. -/
theorem single_chosen {calls : List Call} (hread : ∀ call ∈ calls, call.Readable)
    (hpage : Unpaged calls) (hone : (effective calls).length ≤ 1) :
    ∃ predicate, readBoundWhere (clauseText id (calls.filterMap Call.constraint))
        (sentArgs (calls.flatMap Call.args)) = some predicate ∧
      ∀ row, selectsBound predicate row = chosen row calls := by
  obtain ⟨hconditions, hargs⟩ := effective_conditions calls
  rw [← effective_constraints, ← hargs]
  simp only [chosen, ← hconditions]
  match heff : effective calls, hone with
  | [], _ => exact ⟨none, rfl, fun _ => rfl⟩
  | [call], _ =>
    have hmem : call ∈ effective calls := by rw [heff]; simp
    obtain ⟨c, e, hc, hexpr, he⟩ := hpage.condition hread hmem
    refine ⟨some e, ?_, fun row => ?_⟩
    · have hclause : clauseText id [c] = lit " WHERE " ++ c.condition := by
        simp [clauseText, joinedText]
      rw [List.filterMap_cons_some hc, List.filterMap_nil, hclause, readBoundWhere_where,
        List.flatMap_singleton, he]
      rfl
    · rw [conditionsOf_cons hexpr]
      simp [conditionsOf, someRun, runs, selectsBound]

/-- The text of `Update`. -/
def updateText (m : Model) (args : Assignment) : Sql :=
  lit "UPDATE " ++ (word m.getTableName ++ (lit " SET " ++ (setText args.cols ++
    Model.updateWhere (bindVals {} args.vals :: m.constraints))))

theorem placeholders_updateText (m : Model) (args : Assignment) :
    placeholders (updateText m args) =
      marks (m.getTableName :: args.cols) + args.vals.length + conditionMarks m.constraints := by
  have hupdate : placeholders (lit "UPDATE ") = 0 := by decide
  have hset : placeholders (lit " SET ") = 0 := by decide
  have hlit : placeholders (lit " WHERE ") = 0 := by decide
  have hwhere : placeholders (Model.updateWhere (bindVals {} args.vals :: m.constraints)) =
      conditionMarks m.constraints := by
    cases m.constraints with
    | nil => rfl
    | cons c cs => simp [Model.updateWhere, hlit, placeholders_joinConditions]
  have hmarks : marks (m.getTableName :: args.cols) =
      m.getTableName.count '?' + marks args.cols := rfl
  simp only [updateText, placeholders_append, hupdate, hset, hwhere, placeholders_word,
    placeholders_setText, hmarks, args.same]
  omega

/-- The clause begins with a blank. -/
theorem clauseText_head (render : Sql → Sql) (cs : List Constraint) :
    ∀ s ∈ (clauseText render cs).head?, s = .ch ' ' := by
  cases cs with
  | nil => simp [clauseText]
  | cons c cs =>
    intro s hs
    exact (Option.some.inj hs).symm

/-- Update changes the rows that satisfy all conditions of some run, as far as no OR of
one condition comes next to another condition. -/
theorem update_read {m : Model} (hm : m.Fresh) (hconn : m.conn.isSome) {calls : List Call}
    (hread : ∀ call ∈ calls, call.Readable) (hpage : Unpaged calls)
    (hclosed : (effective calls).length ≤ 1 ∨ ∀ call ∈ calls, call.Closed) (args : Assignment)
    (hvals : ∀ val ∈ args.vals, val.Handled)
    (hnames : ∀ name ∈ m.getTableName :: args.cols, '?' ∉ name) (reply : Reply) :
    ∃ stmt predicate, ((m.calls calls).Update args reply).bind Done.sent = some stmt ∧
      readDml stmt = some (.update m.getTableName (args.cols.zip (sentArgs args.vals)) predicate) ∧
      ∀ row, selectsBound predicate row = chosen row calls := by
  obtain ⟨predicate, hclause, htruth⟩ : ∃ predicate,
      readBoundWhere (clauseText id (calls.filterMap Call.constraint))
        (sentArgs (calls.flatMap Call.args)) = some predicate ∧
      ∀ row, selectsBound predicate row = chosen row calls := by
    cases hclosed with
    | inl hone => exact single_chosen hread hpage hone
    | inr hclosed => exact clause_chosen hpage fun call hcall => (hclosed call hcall).reads
  have hcs := hm.calls_constraints calls
  have hbound : boundValues (bindVals {} args.vals :: (m.calls calls).constraints) =
      typed (args.vals ++ calls.flatMap Call.args) := by
    have hcalls := boundValues_calls calls
    rw [hcs, typed, List.map_append, ← typed, ← typed, ← hcalls]
    simp [boundValues, bindVals_eq, typed]
  have hhandled : ∀ val ∈ args.vals ++ calls.flatMap Call.args, val.Handled := by
    intro val hval
    rcases List.mem_append.mp hval with hval | hval
    · exact hvals val hval
    · obtain ⟨call, hcall, hmem⟩ := List.mem_flatMap.mp hval
      exact (hread call hcall).handled val hmem
  have hmarks : placeholders (updateText (m.calls calls) args) =
      (args.vals ++ calls.flatMap Call.args).length := by
    rw [placeholders_updateText, hcs,
      conditionMarks_calls fun call hcall => (hread call hcall).marks, Model.calls_getTableName,
      (marks_eq_zero _).mpr hnames, List.length_append, Nat.zero_add]
  refine ⟨⟨updateText (m.calls calls) args, sentArgs (args.vals ++ calls.flatMap Call.args)⟩,
    predicate, ?_, ?_, htruth⟩
  · have htext : lit "UPDATE " ++ word (m.calls calls).getTableName ++ lit " SET " ++
        setText args.cols ++
          Model.updateWhere (bindVals {} args.vals :: (m.calls calls).constraints) =
        updateText (m.calls calls) args := by
      simp only [updateText, List.append_assoc]
    rw [Model.Update_eq, Option.bind_some, Model.prepareStatement_of_conn (by simpa using hconn),
      Option.map_some, htext, bindParams_all hbound hhandled hmarks]
  · have hselect (rest : Sql) : (lit "UPDATE " ++ rest).dropPrefix? (lit "SELECT ") = none := rfl
    have htable (rest : Sql) : readTable (word m.getTableName ++ rest) =
        some (m.getTableName, rest) := rfl
    have hparams : sentArgs (args.vals ++ calls.flatMap Call.args) =
        sentArgs args.vals ++ sentArgs (calls.flatMap Call.args) := List.map_append
    have hlength : args.cols.length = (sentArgs args.vals).length := by
      rw [sentArgs, List.length_map, args.same]
    have hset : readSet (setText args.cols ++ clauseText id (calls.filterMap Call.constraint)) =
        some (args.cols, clauseText id (calls.filterMap Call.constraint)) := by
      obtain ⟨col, cols, hcols⟩ := List.exists_cons_of_ne_nil args.some_col
      rw [hcols]
      exact readSet_setText col cols (clauseText_head id _)
    have hzip : args.cols.zip (sentArgs args.vals ++ sentArgs (calls.flatMap Call.args)) =
        args.cols.zip (sentArgs args.vals) := by
      rw [List.zip_eq_zip_take_min, hlength, List.length_append, Nat.min_eq_left (by omega),
        List.take_left, ← hlength, List.take_length]
    simp only [readDml, updateText, hselect, dropPrefix?_sql, readUpdate, Model.calls_getTableName,
      htable, hcs, updateWhere_clause, hset, hparams, hlength, List.drop_left, hclause, hzip,
      Option.bind_eq_bind, Option.bind_some]

/-- The text of `Delete` in front of at most one condition. -/
theorem deleteWhere_clause {cs : List Constraint} (h : cs.length ≤ 1) :
    Model.deleteWhere cs = clauseText id cs := by
  match cs, h with
  | [], _ => rfl
  | [c], _ => simp [Model.deleteWhere, Model.joinConditions, clauseText, joinedText]

/-- Two conditions with nothing between them. -/
theorem readPredicate_juxtaposed {a b : Sql} {p q : List (Option Param)} {e f : BoolExpr BoundAtom}
    (ha : readPredicate a p = some e) (hb : readPredicate b q = some f) (more : Sql)
    (params : List (Option Param)) : readPredicate (a ++ (b ++ more)) params = none := by
  obtain ⟨ts, hlexa, -, hpa, hlasta⟩ := readPredicate_lex ha
  obtain ⟨us, hlexb, -, hpb, hlastb⟩ := readPredicate_lex hb
  have hplaced {ts : List (BoolTok Str)} (h : Placed ts) (params : List (Option Param)) :
      Placed (attach params ts) := by
    rwa [← placed_kind, attach_kind, placed_kind]
  have h₁ := lexFrom_append (b ++ more) hlexa hlasta
  have h₂ := lexFrom_append more hlexb hlastb
  rw [lex] at hlexb
  rw [readPredicate, lex, h₁, h₂]
  cases lexFrom [] more with
  | none => rfl
  | some vs =>
    simp only [Option.map_some, Option.bind_some]
    rw [attach_append, attach_append, ← List.append_assoc]
    exact parse_juxtaposed (hplaced hpa _) (hplaced hpb _)

/-- Delete is read at all exactly for at most one condition, and then deletes the rows
that satisfy it. -/
theorem delete_read {m : Model} (hm : m.Fresh) (hconn : m.conn.isSome) {calls : List Call}
    (hread : ∀ call ∈ calls, call.Readable) (hpage : Unpaged calls) (hname : '?' ∉ m.getTableName)
    (reply : Reply) :
    ∃ stmt, ((m.calls calls).Delete reply).sent = some stmt ∧
      if (effective calls).length ≤ 1 then
        ∃ predicate, readDml stmt = some (.delete m.getTableName predicate) ∧
          ∀ row, selectsBound predicate row = chosen row calls
      else readDml stmt = none := by
  have hcs := hm.calls_constraints calls
  have hbound : boundValues (m.calls calls).constraints = typed (calls.flatMap Call.args) := by
    rw [hcs, boundValues_calls]
  have hhandled : ∀ val ∈ calls.flatMap Call.args, val.Handled := by
    intro val hval
    obtain ⟨call, hcall, hmem⟩ := List.mem_flatMap.mp hval
    exact (hread call hcall).handled val hmem
  have hmarks : placeholders (m.calls calls).deleteText = (calls.flatMap Call.args).length := by
    have hzero : marks [m.getTableName] = 0 := (marks_eq_zero _).mpr (by simpa using hname)
    rw [placeholders_deleteText, hcs,
      conditionMarks_calls fun call hcall => (hread call hcall).marks, Model.calls_getTableName,
      hzero, Nat.zero_add]
  have hdml (clause : Sql) (params : List (Option Param)) :
      readDml ⟨lit "DELETE FROM " ++ (word m.getTableName ++ clause), params⟩ =
        (readBoundWhere clause params).map (Dml.delete m.getTableName) := by
    have hselect (rest : Sql) :
        (lit "DELETE FROM " ++ rest).dropPrefix? (lit "SELECT ") = none := rfl
    have hupdate (rest : Sql) :
        (lit "DELETE FROM " ++ rest).dropPrefix? (lit "UPDATE ") = none := rfl
    have htable (rest : Sql) : readTable (word m.getTableName ++ rest) =
        some (m.getTableName, rest) := rfl
    simp only [readDml, hselect, hupdate, dropPrefix?_sql, readDelete, htable, Option.bind_eq_bind,
      Option.bind_some]
    cases readBoundWhere clause params <;> rfl
  have htext : (m.calls calls).deleteText = lit "DELETE FROM " ++ (word m.getTableName ++
      Model.deleteWhere (calls.filterMap Call.constraint)) := by
    rw [Model.deleteText, hcs, Model.calls_getTableName, List.append_assoc]
  refine ⟨⟨(m.calls calls).deleteText, sentArgs (calls.flatMap Call.args)⟩, ?_, ?_⟩
  · rw [Model.Delete, Model.prepareStatement_of_conn (by simpa using hconn), Option.map_some,
      bindParams_all hbound hhandled hmarks]
  · have hlength : (calls.filterMap Call.constraint).length = (effective calls).length := by
      rw [← effective_constraints, List.length_filterMap_eq_countP, List.countP_eq_length]
      intro call hcall
      exact effective_isSome call hcall
    rw [htext, hdml]
    split
    · rename_i hone
      obtain ⟨predicate, hclause, htruth⟩ := single_chosen hread hpage hone
      rw [deleteWhere_clause (by omega), hclause]
      exact ⟨predicate, rfl, htruth⟩
    · rename_i hmany
      rw [← effective_constraints]
      have hmore : ∃ first second more, effective calls = first :: second :: more := by
        cases heff : effective calls with
        | nil => simp [heff] at hmany
        | cons first rest =>
          cases rest with
          | nil => simp [heff] at hmany
          | cons second more => exact ⟨first, second, more, rfl⟩
      obtain ⟨first, second, more, heff⟩ := hmore
      have hfirst : first ∈ effective calls := by simp [heff]
      have hsecond : second ∈ effective calls := by simp [heff]
      obtain ⟨a, e, ha, -, he⟩ := hpage.condition hread hfirst
      obtain ⟨b, f, hb, -, hf⟩ := hpage.condition hread hsecond
      have hdelete (cs : List Constraint) : Model.deleteWhere (a :: b :: cs) =
          lit " WHERE " ++ (a.condition ++ (b.condition ++ Model.joinConditions 2 cs)) := by
        simp [Model.deleteWhere, Model.joinConditions]
      rw [heff, List.filterMap_cons_some ha, List.filterMap_cons_some hb, hdelete,
        readBoundWhere_where, readPredicate_juxtaposed he hf]
      rfl

end TinyOrm
