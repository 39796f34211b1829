import TinyOrm.ResultBinds
import TinyOrm.Lib.Memory
import Mathlib.Algebra.Order.BigOperators.Group.List
import Mathlib.Data.Multiset.OrderedMonoid
import Mathlib.Tactic.Abel
set_option autoImplicit false

/-!
The blocks of memory behind a `Statement`: the handle of the client library and the
buffers of the parameters and the results (mysql4cpp/statement.cpp).
-/

namespace TinyOrm

open Memory

/-! ## Blocks -/

/-- A block of the program: of `new` for a bound value, of `malloc`, of the client
library, or of `new PreparedResult`. The bytes of a parameter are those of a value. -/
inductive Block where
  | value (val : Value)
  | bytes (content : Option Value)
  | handle (sql : Sql)
  | metadata
  | result
  deriving DecidableEq, Repr

def Block.isBytes : Block → Bool
  | bytes _ => true
  | _ => false

def Block.isHandle : Block → Bool
  | handle _ => true
  | _ => false

/-- The pointers of a `MYSQL_BIND` of `newBind`. -/
structure ResultBind where
  buffer : Nat
  length : Nat
  is_null : Nat
  error : Nat
  deriving DecidableEq, Repr

/-- The type and the pointers of a `MYSQL_BIND` of `newParam`; its others are null. -/
structure ParamBind where
  buffer_type : FieldType
  buffer : Nat
  length : Nat
  deriving DecidableEq, Repr

def newBind : Prog Block ResultBind := do
  let buffer ← alloc (.bytes none)
  let length ← alloc (.bytes none)
  let is_null ← alloc (.bytes none)
  let error ← alloc (.bytes none)
  pure ⟨buffer, length, is_null, error⟩

def newParam (type : FieldType) (value : Value) : Prog Block ParamBind := do
  let buffer ← alloc (.bytes (some value))
  let length ← alloc (.bytes none)
  pure ⟨type, buffer, length⟩

def ResultBind.free (b : ResultBind) : Prog Block Unit := do
  Memory.free Block.isBytes b.buffer
  Memory.free Block.isBytes b.length
  Memory.free Block.isBytes b.is_null
  Memory.free Block.isBytes b.error

def ParamBind.free (b : ParamBind) : Prog Block Unit := do
  Memory.free Block.isBytes b.buffer
  Memory.free Block.isBytes b.length

/-! ## The statement -/

/-- The pointers of a statement; a parameter that is not set has none. -/
structure StatementObject where
  stmt_ptr : Option Nat
  resBind : List ResultBind
  paramBind : List (Option ParamBind)
  paramCount : Nat
  deriving DecidableEq, Repr

/-- `stmtClose`. -/
def stmtClose : Option Nat → Prog Block Unit
  | none => pure ()
  | some stmt => free Block.isHandle stmt

namespace StatementObject

/-- The switch has no default. -/
def makeResultBind (resBind : List ResultBind) (field : ReportedColumn) :
    Prog Block (List ResultBind) :=
  if field.type.listed.isSome then do
    let bind ← newBind
    pure (resBind ++ [bind])
  else pure resBind

/-- There is no metadata where there are no columns. -/
def construct (sql : Sql) : PrepareReply → Prog Block StatementObject
  | .refused _ => do
    let stmt ← alloc (.handle sql)
    stmtClose (some stmt)
    pure ⟨none, [], [], 0⟩
  | .prepared [] param_count => do
    let stmt ← alloc (.handle sql)
    pure ⟨some stmt, [], List.replicate param_count none, param_count⟩
  | .prepared columns param_count => do
    let stmt ← alloc (.handle sql)
    let res ← alloc .metadata
    let resBind ← columns.foldlM makeResultBind []
    free (· = .metadata) res
    pure ⟨some stmt, resBind, List.replicate param_count none, param_count⟩

def isValidParamIndex (o : StatementObject) (index : Int) : Bool :=
  index > 0 && index ≤ o.paramCount

/-- The bind that was there is overwritten. -/
def setParam (o : StatementObject) (columnIndex : Int) (type : FieldType) (value : Value) :
    Prog Block StatementObject :=
  if o.isValidParamIndex columnIndex then do
    let bind ← newParam type value
    if columnIndex.toNat - 1 < o.paramBind.length then
      pure { o with paramBind := o.paramBind.set (columnIndex.toNat - 1) (some bind) }
    else undefined
  else pure o

/-- The new object and the one moved from. -/
def moveConstruct (o : StatementObject) : StatementObject × StatementObject :=
  (o, { o with stmt_ptr := none, resBind := [], paramBind := [] })

def moveAssign (target o : StatementObject) : Prog Block (StatementObject × StatementObject) := do
  stmtClose target.stmt_ptr
  pure (o, { o with stmt_ptr := none, resBind := target.resBind, paramBind := target.paramBind })

def loadParam : Option ParamBind → Prog Block (Option Param)
  | none => pure none
  | some bind => do
    let content ← load bind.buffer
    let _ ← load bind.length
    match content with
    | .bytes (some value) => pure (some ⟨bind.buffer_type, value⟩)
    | _ => undefined

def loadParams : List (Option ParamBind) → Prog Block (List (Option Param))
  | [] => pure []
  | bind :: binds => do
    let param ← loadParam bind
    let params ← loadParams binds
    pure (param :: params)

/-- What the server is sent. There is no handle after a refused text or a move. -/
def execute (o : StatementObject) : Prog Block Statement :=
  match o.stmt_ptr with
  | none => undefined
  | some stmt => do
    let params ← loadParams o.paramBind
    match ← load stmt with
    | .handle sql => pure ⟨sql, params⟩
    | _ => undefined

/-- The destructor, and that of `stmt_ptr`. -/
def destroy (o : StatementObject) : Prog Block Unit := do
  o.resBind.foldlM (fun _ bind => bind.free) ()
  o.paramBind.foldlM (fun _ bind => bind.elim (pure ()) ParamBind.free) ()
  stmtClose o.stmt_ptr

end StatementObject

/-! ## What a statement owns -/

/-- A parameter that is set, and the value in its buffer. -/
structure SetParam where
  bind : ParamBind
  value : Value

namespace SetParam

def param (p : SetParam) : Param := ⟨p.bind.buffer_type, p.value⟩

def cells (p : SetParam) : Cells Block :=
  {(p.bind.length, .bytes none)} + {(p.bind.buffer, .bytes (some p.value))}

end SetParam

def ResultBind.cells (b : ResultBind) : Cells Block :=
  {(b.error, .bytes none)} + ({(b.is_null, .bytes none)} +
    ({(b.length, .bytes none)} + {(b.buffer, .bytes none)}))

def resultCells (bs : List ResultBind) : Cells Block := (bs.map ResultBind.cells).sum

def optionCells (p : Option SetParam) : Cells Block := p.elim 0 SetParam.cells

def paramCells (ps : List (Option SetParam)) : Cells Block := (ps.map optionCells).sum

def handleCells (handle : Option (Nat × Sql)) : Cells Block :=
  handle.elim 0 fun h => {(h.1, .handle h.2)}

/-- A statement with what its blocks hold. -/
structure OwningStatement where
  handle : Option (Nat × Sql)
  resBind : List ResultBind
  params : List (Option SetParam)
  paramCount : Nat

namespace OwningStatement

def object (s : OwningStatement) : StatementObject :=
  ⟨s.handle.map Prod.fst, s.resBind, s.params.map (Option.map SetParam.bind), s.paramCount⟩

def cells (s : OwningStatement) : Cells Block :=
  handleCells s.handle + (resultCells s.resBind + paramCells s.params)

end OwningStatement

theorem newBind_spec : Triple 0 newBind fun b own => own = b.cells := by
  refine .alloc_bind fun buffer => .alloc_bind fun length => .alloc_bind fun is_null =>
    .alloc_bind fun error => .pure ?_
  rw [add_zero]
  rfl

theorem newParam_spec (type : FieldType) (value : Value) :
    Triple 0 (newParam type value) fun b own =>
      b.buffer_type = type ∧ own = SetParam.cells ⟨b, value⟩ := by
  refine .alloc_bind fun buffer => .alloc_bind fun length => .pure ⟨rfl, ?_⟩
  rw [add_zero]
  rfl

theorem ResultBind.free_spec (b : ResultBind) : Triple b.cells b.free fun _ own => own = 0 := by
  have hcells : b.cells = {(b.buffer, .bytes none)} + ({(b.length, .bytes none)} +
      ({(b.is_null, .bytes none)} + {(b.error, .bytes none)})) := by
    rw [ResultBind.cells]
    abel
  rw [hcells]
  exact .free_bind rfl (.free_bind rfl (.free_bind rfl (.free rfl)))

theorem ParamBind.free_spec (p : SetParam) :
    Triple p.cells p.bind.free fun _ own => own = 0 := by
  rw [SetParam.cells, add_comm]
  exact .free_bind rfl (.free rfl)

theorem stmtClose_spec (handle : Option (Nat × Sql)) :
    Triple (handleCells handle) (stmtClose (handle.map Prod.fst)) fun _ own => own = 0 := by
  cases handle with
  | none => exact .pure rfl
  | some h => exact .free rfl

namespace StatementObject

theorem makeResultBind_spec (bs : List ResultBind) (field : ReportedColumn) :
    Triple (resultCells bs) (makeResultBind bs field) fun bs' own =>
      own = resultCells bs' ∧
        bs'.length = bs.length + if field.type.listed.isSome then 1 else 0 := by
  unfold makeResultBind
  split
  · rw [← zero_add (resultCells bs)]
    refine newBind_spec.bind fun bind own hown => .pure ⟨?_, by simp⟩
    simp [hown, resultCells, add_comm]
  · exact .pure ⟨rfl, rfl⟩

/-- The columns with a result bind. -/
def buffered (columns : List ReportedColumn) : Nat :=
  (columns.filter fun field => field.type.listed.isSome).length

theorem makeResultBinds_spec (columns : List ReportedColumn) :
    Triple 0 (columns.foldlM makeResultBind []) fun bs own =>
      own = resultCells bs ∧ bs.length = buffered columns := by
  have hloop := Triple.foldlM (f := makeResultBind) (l := columns) (b := [])
    (I := fun rest bs own => own = resultCells bs ∧
      bs.length + buffered rest = buffered columns) ?_ (p := 0) ⟨rfl, by simp⟩
  · exact hloop.mono fun bs own hinv => ⟨hinv.1, by simpa [buffered] using hinv.2⟩
  · intro field rest bs own hinv
    rw [hinv.1]
    refine (makeResultBind_spec bs field).mono fun bs' own' hround => ⟨hround.1, ?_⟩
    rw [← hinv.2, hround.2, buffered, buffered, List.filter_cons]
    split
    · rw [List.length_cons]
      omega
    · rfl

theorem construct_spec (sql : Sql) (reply : PrepareReply) :
    Triple 0 (construct sql reply) fun o own => ∃ s : OwningStatement, o = s.object ∧
      own = s.cells ∧ s.params = List.replicate s.paramCount none ∧
      match reply with
      | .refused _ => s.handle = none ∧ s.resBind = [] ∧ s.paramCount = 0
      | .prepared columns param_count => (∃ stmt, s.handle = some (stmt, sql)) ∧
        s.resBind.length = buffered columns ∧ s.paramCount = param_count := by
  match reply with
  | .refused _ =>
    refine .alloc_bind fun stmt => ?_
    refine (stmtClose_spec (some (stmt, sql))).bind fun _ own hown => ?_
    rw [hown]
    exact .pure ⟨⟨none, [], [], 0⟩, rfl, rfl, rfl, rfl, rfl, rfl⟩
  | .prepared [] param_count =>
    refine .alloc_bind fun stmt => .pure ⟨⟨some (stmt, sql), [], List.replicate param_count none,
      param_count⟩, ?_, ?_, rfl, ⟨stmt, rfl⟩, rfl, rfl⟩
    · simp [OwningStatement.object]
    · simp [OwningStatement.cells, handleCells, resultCells, paramCells, optionCells]
  | .prepared (field :: columns) param_count =>
    refine .alloc_bind fun stmt => .alloc_bind fun res => ?_
    rw [← zero_add ({(res, Block.metadata)} + _)]
    refine (makeResultBinds_spec (field :: columns)).bind fun resBind own hown => ?_
    rw [add_left_comm]
    refine .free_bind rfl (.pure ⟨⟨some (stmt, sql), resBind, List.replicate param_count none,
      param_count⟩, ?_, ?_, rfl, ⟨stmt, rfl⟩, hown.2, rfl⟩)
    · simp [OwningStatement.object]
    · simp [OwningStatement.cells, handleCells, paramCells, optionCells, hown.1, add_comm]

end StatementObject

/-! ## Parameters -/

namespace OwningStatement

def put (s : OwningStatement) (i : Nat) (p : SetParam) : OwningStatement :=
  { s with params := s.params.set i (some p) }

theorem put_object (s : OwningStatement) (i : Nat) (p : SetParam) :
    (s.put i p).object =
      { s.object with paramBind := s.object.paramBind.set i (some p.bind) } := by
  simp [put, object, List.map_set]

theorem put_cells {s : OwningStatement} {i : Nat} {q : Option SetParam} (h : s.params[i]? = some q)
    (p : SetParam) : (s.put i p).cells + optionCells q = s.cells + p.cells := by
  have hset := sum_map_set optionCells h (some p)
  simp only [cells, put, add_assoc]
  exact congrArg _ (congrArg _ hset)

end OwningStatement

namespace StatementObject

/-- The blocks of a parameter that was set before are lost. -/
theorem setParam_spec {s : OwningStatement} {columnIndex : Int}
    (hvalid : s.object.isValidParamIndex columnIndex = true) {q : Option SetParam}
    (hroom : s.params[columnIndex.toNat - 1]? = some q) (type : FieldType) (value : Value) :
    Triple s.cells (s.object.setParam columnIndex type value) fun o own =>
      ∃ p : SetParam, p.param = ⟨type, value⟩ ∧
        o = (s.put (columnIndex.toNat - 1) p).object ∧
        own = (s.put (columnIndex.toNat - 1) p).cells + optionCells q := by
  rw [setParam, if_pos hvalid, ← zero_add s.cells]
  refine (newParam_spec type value).bind fun bind own hown => ?_
  have hlength : columnIndex.toNat - 1 < s.object.paramBind.length := by
    have hlt := (List.getElem?_eq_some_iff.mp hroom).1
    simpa [OwningStatement.object] using hlt
  rw [if_pos hlength]
  refine .pure ⟨⟨bind, value⟩, ?_, ?_, ?_⟩
  · rw [SetParam.param, hown.1]
  · rw [OwningStatement.put_object]
  · rw [OwningStatement.put_cells hroom, hown.2, add_comm]

theorem setParam_invalid {o : StatementObject} {columnIndex : Int}
    (h : o.isValidParamIndex columnIndex = false) (type : FieldType) (value : Value) :
    o.setParam columnIndex type value = pure o := by
  rw [setParam, h]
  rfl

theorem loadParams_spec (ps : List (Option SetParam)) {pre : Cells Block}
    (h : ∀ p, some p ∈ ps → p.cells ≤ pre) :
    Triple pre (loadParams (ps.map (Option.map SetParam.bind))) fun params own =>
      params = ps.map (Option.map SetParam.param) ∧ own = pre := by
  induction ps with
  | nil => exact .pure ⟨rfl, rfl⟩
  | cons p ps ih =>
    have hrest := ih fun q hq => h q (List.mem_cons_of_mem _ hq)
    have hfirst : Triple pre (loadParam (p.map SetParam.bind)) fun param own =>
        param = p.map SetParam.param ∧ own = pre := by
      cases p with
      | none => exact .pure ⟨rfl, rfl⟩
      | some p =>
        have hcells := h p List.mem_cons_self
        refine .load_bind (v := .bytes (some p.value)) (Multiset.mem_of_le hcells ?_)
          (.load_bind (v := .bytes none) (Multiset.mem_of_le hcells ?_) (.pure ⟨rfl, rfl⟩))
        · simp [SetParam.cells]
        · simp [SetParam.cells]
    rw [List.map_cons, loadParams, ← add_zero pre]
    refine hfirst.bind fun param own hown => ?_
    rw [hown.2]
    refine hrest.bind fun params own' hown' => .pure ⟨?_, ?_⟩
    · rw [hown.1, hown'.1, List.map_cons]
    · rw [hown'.2]

theorem paramCells_le {ps : List (Option SetParam)} {p : SetParam} (h : some p ∈ ps) :
    p.cells ≤ paramCells ps :=
  List.le_sum_of_mem (List.mem_map_of_mem (f := optionCells) h)

/-- What is sent is what was set. -/
theorem execute_spec {s : OwningStatement} {stmt : Nat} {sql : Sql}
    (h : s.handle = some (stmt, sql)) :
    Triple s.cells s.object.execute fun sent own =>
      sent = ⟨sql, s.params.map (Option.map SetParam.param)⟩ ∧ own = s.cells := by
  have hptr : s.object.stmt_ptr = some stmt := by rw [OwningStatement.object, h]; rfl
  simp only [execute, hptr]
  rw [← add_zero s.cells]
  refine (loadParams_spec s.params fun p hp => ?_).bind fun params own hown => ?_
  · exact (paramCells_le hp).trans (by
      rw [OwningStatement.cells, ← add_assoc]
      exact Multiset.le_add_left _ _)
  · rw [hown.2, add_zero]
    refine .load_bind (v := .handle sql) ?_ (.pure ⟨by rw [hown.1], rfl⟩)
    rw [OwningStatement.cells, h]
    exact Multiset.mem_add.mpr (.inl (Multiset.mem_singleton_self _))

theorem destroy_spec (s : OwningStatement) :
    Triple s.cells s.object.destroy fun _ own => own = 0 := by
  rw [OwningStatement.cells, add_comm, add_assoc]
  have hresults : Triple (resultCells s.resBind)
      (s.resBind.foldlM (fun _ bind => bind.free) ()) fun _ own => own = 0 :=
    Triple.foldlM (I := fun rest _ own => own = resultCells rest) (fun b bs _ own hown => by
      rw [hown]
      have hfree := b.free_spec.frame (resultCells bs)
      exact hfree.mono fun _ own' h => by
        obtain ⟨_, rfl, rfl⟩ := h
        exact zero_add _) rfl
  have hparams : Triple (paramCells s.params)
      (s.object.paramBind.foldlM (fun _ bind => bind.elim (pure ()) ParamBind.free) ())
      fun _ own => own = 0 := by
    have hloop := Triple.foldlM (l := s.params) (b := ()) (p := paramCells s.params)
      (f := fun _ p => (p.map SetParam.bind).elim (pure ()) ParamBind.free)
      (I := fun rest _ own => own = paramCells rest) (fun p ps _ own hown => ?_) rfl
    · rw [OwningStatement.object, List.foldlM_map]
      exact hloop
    · rw [hown]
      cases p with
      | none => exact .pure (zero_add _)
      | some p =>
        exact ((ParamBind.free_spec p).frame (paramCells ps)).mono fun _ own' h => by
          obtain ⟨_, rfl, rfl⟩ := h
          exact zero_add _
  refine hresults.bind fun _ own hown => ?_
  rw [hown, zero_add]
  refine hparams.bind fun _ own hown => ?_
  rw [hown, zero_add]
  exact stmtClose_spec s.handle

end StatementObject

/-! ## Statements of a program -/

/-- The statements by the order of their construction, without those that are
destroyed, and what the server was sent. -/
structure Statements where
  objs : List (Option StatementObject) := []
  sent : List Statement := []

/-- What happens to the statement with a number. -/
inductive StatementEvent where
  | construct (sql : Sql) (reply : PrepareReply)
  | setParam (i : Nat) (columnIndex : Int) (type : FieldType) (value : Value)
  | execute (i : Nat)
  | moveConstruct (i : Nat)
  | moveAssign (target i : Nat)
  | destroy (i : Nat)

/-- Nothing happens to a statement that is not there. -/
def Statements.at (p : Statements) (i : Nat) (f : StatementObject → Prog Block Statements) :
    Prog Block Statements :=
  match p.objs[i]? with
  | some (some o) => f o
  | _ => pure p

def StatementEvent.run (p : Statements) : StatementEvent → Prog Block Statements
  | construct sql reply => do
    let o ← StatementObject.construct sql reply
    pure { p with objs := p.objs ++ [some o] }
  | setParam i columnIndex type value => p.at i fun o => do
    let o ← o.setParam columnIndex type value
    pure { p with objs := p.objs.set i (some o) }
  | execute i => p.at i fun o => do
    let sent ← o.execute
    pure { p with sent := p.sent ++ [sent] }
  | moveConstruct i => p.at i fun o =>
    pure { p with objs := p.objs.set i (some o.moveConstruct.2) ++ [some o.moveConstruct.1] }
  | moveAssign target i => p.at target fun t => p.at i fun o =>
    if target = i then pure p
    else do
      let (new, old) ← t.moveAssign o
      pure { p with objs := (p.objs.set target (some new)).set i (some old) }
  | destroy i => p.at i fun o => do
    o.destroy
    pure { p with objs := p.objs.set i none }

/-! ## Statements without their pointers -/

structure StatementValue where
  handle : Option Sql
  results : Nat
  params : List (Option Param)
  paramCount : Nat

namespace StatementValue

def prepare (sql : Sql) : PrepareReply → StatementValue
  | .refused _ => ⟨none, 0, [], 0⟩
  | .prepared columns param_count =>
    ⟨some sql, StatementObject.buffered columns, List.replicate param_count none, param_count⟩

def isValidParamIndex (s : StatementValue) (index : Int) : Bool := index > 0 && index ≤ s.paramCount

/-- The blocks of a statement: its handle, four for each result and two for each
parameter that is set. -/
def blocks (s : StatementValue) : Nat :=
  (if s.handle.isSome then 1 else 0) + (4 * s.results + 2 * (s.params.filter Option.isSome).length)

end StatementValue

/-- `lost` are the blocks that nothing points to. -/
structure StatementValues where
  stmts : List (Option StatementValue) := []
  sent : List Statement := []
  lost : Nat := 0

namespace StatementValues

def blocks (v : StatementValues) : Nat :=
  (v.stmts.map fun s => s.elim 0 StatementValue.blocks).sum + v.lost

end StatementValues

def StatementValues.at (v : StatementValues) (i : Nat)
    (g : StatementValue → Option StatementValues) : Option StatementValues :=
  match v.stmts[i]? with
  | some (some s) => g s
  | _ => some v

/-- `none`: the statement has no handle any more, or less room for parameters than it
counts. -/
def StatementEvent.value (v : StatementValues) : StatementEvent → Option StatementValues
  | construct sql reply => some { v with stmts := v.stmts ++ [some (.prepare sql reply)] }
  | setParam i columnIndex type value => v.at i fun s =>
    if s.isValidParamIndex columnIndex then
      s.params[columnIndex.toNat - 1]?.map fun last =>
        { v with
          stmts := v.stmts.set i (some
            { s with params := s.params.set (columnIndex.toNat - 1) (some ⟨type, value⟩) })
          lost := v.lost + if last.isSome then 2 else 0 }
    else some v
  | execute i => v.at i fun s =>
    s.handle.map fun sql => { v with sent := v.sent ++ [⟨sql, s.params⟩] }
  | moveConstruct i => v.at i fun s => some { v with
      stmts := v.stmts.set i (some { s with handle := none, results := 0, params := [] }) ++
        [some s] }
  | moveAssign target i => v.at target fun t => v.at i fun s =>
    if target = i then some v
    else some { v with
      stmts := (v.stmts.set target (some s)).set i
        (some { s with handle := none, results := t.results, params := t.params }) }
  | destroy i => v.at i fun _ => some { v with stmts := v.stmts.set i none }

/-! ## The blocks of a run -/

def OwningStatement.value (s : OwningStatement) : StatementValue :=
  ⟨s.handle.map Prod.snd, s.resBind.length, s.params.map (Option.map SetParam.param), s.paramCount⟩

def statementCells (ss : List (Option OwningStatement)) : Cells Block :=
  (ss.map fun s => s.elim 0 OwningStatement.cells).sum

/-- The statements own the cells that are not lost. -/
structure Owners (p : Statements) (v : StatementValues) (own : Cells Block)
    (ss : List (Option OwningStatement)) (lost : Cells Block) : Prop where
  objs : p.objs = ss.map (Option.map OwningStatement.object)
  stmts : v.stmts = ss.map (Option.map OwningStatement.value)
  own : own = statementCells ss + lost
  lost : lost.card = v.lost
  sent : p.sent = v.sent

def Balanced (p : Statements) (v : StatementValues) (own : Cells Block) : Prop :=
  ∃ ss lost, Owners p v own ss lost

theorem card_resultCells (bs : List ResultBind) : (resultCells bs).card = 4 * bs.length := by
  induction bs with
  | nil => rfl
  | cons b bs ih =>
    have hcons : resultCells (b :: bs) = b.cells + resultCells bs := rfl
    rw [hcons, Multiset.card_add, ih, List.length_cons]
    have hfour : b.cells.card = 4 := rfl
    omega

theorem card_optionCells (p : Option SetParam) :
    (optionCells p).card = if p.isSome then 2 else 0 := by
  cases p <;> rfl

theorem card_paramCells (ps : List (Option SetParam)) :
    (paramCells ps).card = 2 * (ps.filter Option.isSome).length := by
  induction ps with
  | nil => rfl
  | cons p ps ih =>
    have hcons : paramCells (p :: ps) = optionCells p + paramCells ps := rfl
    rw [hcons, Multiset.card_add, ih, card_optionCells, List.filter_cons]
    split
    · rw [List.length_cons]
      omega
    · omega

theorem OwningStatement.card_cells (s : OwningStatement) : s.cells.card = s.value.blocks := by
  have hhandle : (handleCells s.handle).card = if s.handle.isSome then 1 else 0 := by
    cases s.handle <;> rfl
  have hparams : (s.params.map (Option.map SetParam.param)).filter Option.isSome =
      (s.params.filter Option.isSome).map (Option.map SetParam.param) := by
    rw [List.filter_map]
    congr 2
    funext p
    simp
  rw [cells, Multiset.card_add, Multiset.card_add, hhandle, card_resultCells, card_paramCells,
    StatementValue.blocks, value, hparams, List.length_map, Option.isSome_map]

theorem Balanced.card {p : Statements} {v : StatementValues} {own : Cells Block}
    (h : Balanced p v own) : own.card = v.blocks := by
  obtain ⟨ss, lost, howners⟩ := h
  have hsum : (statementCells ss).card =
      (v.stmts.map fun s => s.elim 0 StatementValue.blocks).sum := by
    rw [howners.stmts]
    clear howners
    induction ss with
    | nil => rfl
    | cons s ss ih =>
      have hcons : statementCells (s :: ss) =
          s.elim 0 OwningStatement.cells + statementCells ss := rfl
      rw [hcons, Multiset.card_add, ih, List.map_cons, List.map_cons, List.sum_cons]
      cases s with
      | none => rfl
      | some s => exact congrArg (· + _) s.card_cells
  rw [howners.own, Multiset.card_add, hsum, howners.lost, StatementValues.blocks]

namespace Owners

variable {p : Statements} {v : StatementValues} {own : Cells Block}
  {ss : List (Option OwningStatement)} {lost : Cells Block}

theorem at_objs (h : Owners p v own ss lost) (i : Nat) :
    p.objs[i]? = ss[i]?.map (Option.map OwningStatement.object) := by
  rw [h.objs, List.getElem?_map]

theorem at_stmts (h : Owners p v own ss lost) (i : Nat) :
    v.stmts[i]? = ss[i]?.map (Option.map OwningStatement.value) := by
  rw [h.stmts, List.getElem?_map]

/-- One statement is exchanged for another. -/
theorem replace {s : OwningStatement} {i : Nat} (hs : ss[i]? = some (some s))
    (s' : Option OwningStatement) :
    statementCells (ss.set i s') + s.cells = statementCells ss + s'.elim 0 OwningStatement.cells :=
  sum_map_set _ hs s'

/-- The cells of one statement, and the others. -/
theorem take (h : Owners p v own ss lost) {i : Nat} {s : OwningStatement}
    (hs : ss[i]? = some (some s)) : own = s.cells + (statementCells (ss.set i none) + lost) := by
  have hnone := replace hs none
  rw [Option.elim_none, add_zero] at hnone
  rw [h.own, ← hnone]
  abel

theorem construct (h : Owners p v own ss lost) (sql : Sql) (reply : PrepareReply) :
    Triple own (StatementEvent.run p (.construct sql reply)) fun p' own' =>
      Balanced p' { v with stmts := v.stmts ++ [some (.prepare sql reply)] } own' := by
  rw [h.own, ← zero_add (statementCells ss + lost)]
  refine (StatementObject.construct_spec sql reply).bind fun o own hown => .pure ?_
  obtain ⟨s, rfl, rfl, hparams, hreply⟩ := hown
  have hvalue : s.value = .prepare sql reply := by
    cases reply with
    | refused error =>
      obtain ⟨hhandle, hresults, hcount⟩ := hreply
      simp [OwningStatement.value, StatementValue.prepare, hhandle, hresults, hcount, hparams]
    | prepared columns param_count =>
      obtain ⟨⟨stmt, hhandle⟩, hresults, hcount⟩ := hreply
      simp [OwningStatement.value, StatementValue.prepare, hhandle, hresults, hcount, hparams]
  refine ⟨ss ++ [some s], lost, ?_, ?_, ?_, h.lost, h.sent⟩
  · simp [h.objs]
  · simp [h.stmts, hvalue]
  · have happend : statementCells (ss ++ [some s]) = statementCells ss + s.cells := by
      simp [statementCells]
    rw [happend]
    abel

theorem setParam (h : Owners p v own ss lost) {i : Nat} {s : OwningStatement}
    (hs : ss[i]? = some (some s)) {columnIndex : Int}
    (hvalid : s.object.isValidParamIndex columnIndex = true) {q : Option SetParam}
    (hq : s.params[columnIndex.toNat - 1]? = some q) (type : FieldType) (value : Value) :
    Triple own (s.object.setParam columnIndex type value >>= fun o =>
        pure { p with objs := p.objs.set i (some o) }) fun p' own' =>
      Balanced p' { v with
        stmts := v.stmts.set i (some { s.value with
          params := s.value.params.set (columnIndex.toNat - 1) (some ⟨type, value⟩) })
        lost := v.lost + if q.isSome then 2 else 0 } own' := by
  rw [h.take hs]
  refine (StatementObject.setParam_spec hvalid hq type value).bind fun o own hown => .pure ?_
  obtain ⟨b, hb, rfl, rfl⟩ := hown
  have hnone := replace hs none
  have hnew := replace hs (some (s.put (columnIndex.toNat - 1) b))
  rw [Option.elim_none, add_zero] at hnone
  refine ⟨ss.set i (some (s.put (columnIndex.toNat - 1) b)), lost + optionCells q,
    ?_, ?_, ?_, ?_, h.sent⟩
  · simp [h.objs, List.map_set]
  · simp [h.stmts, List.map_set, OwningStatement.value, OwningStatement.put, hb]
  · rw [← hnone, Option.elim_some] at hnew
    have hcancel : statementCells (ss.set i (some (s.put (columnIndex.toNat - 1) b))) =
        statementCells (ss.set i none) + (s.put (columnIndex.toNat - 1) b).cells := by
      refine add_right_cancel (b := s.cells) ?_
      rw [hnew]
      abel
    rw [hcancel]
    abel
  · rw [Multiset.card_add, h.lost, card_optionCells]

theorem execute (h : Owners p v own ss lost) {i : Nat} {s : OwningStatement}
    (hs : ss[i]? = some (some s)) {stmt : Nat} {sql : Sql} (hhandle : s.handle = some (stmt, sql)) :
    Triple own (s.object.execute >>= fun sent => pure { p with sent := p.sent ++ [sent] })
      fun p' own' => Balanced p' { v with sent := v.sent ++ [⟨sql, s.value.params⟩] } own' := by
  have hsplit := h.take hs
  rw [hsplit]
  refine (StatementObject.execute_spec hhandle).bind fun sent own' hown => .pure ?_
  rw [hown.2, ← hsplit, hown.1]
  exact ⟨ss, lost, h.objs, h.stmts, h.own, h.lost, by rw [h.sent]; rfl⟩

theorem moveConstruct (h : Owners p v own ss lost) {i : Nat} {s : OwningStatement}
    (hs : ss[i]? = some (some s)) :
    Balanced { p with
        objs := p.objs.set i (some s.object.moveConstruct.2) ++ [some s.object.moveConstruct.1] }
      { v with
        stmts := v.stmts.set i (some { s.value with handle := none, results := 0, params := [] }) ++
          [some s.value] } own := by
  have hnew := replace hs (some { s with handle := none, resBind := [], params := [] })
  refine ⟨ss.set i (some { s with handle := none, resBind := [], params := [] }) ++ [some s],
    lost, ?_, ?_, ?_, h.lost, h.sent⟩
  · simp [h.objs, List.map_set, StatementObject.moveConstruct, OwningStatement.object]
  · simp [h.stmts, List.map_set, OwningStatement.value]
  · have hempty :
        OwningStatement.cells { s with handle := none, resBind := [], params := [] } = 0 := rfl
    rw [Option.elim_some, hempty, add_zero] at hnew
    have happend (ss : List (Option OwningStatement)) :
        statementCells (ss ++ [some s]) = statementCells ss + s.cells := by
      simp [statementCells]
    rw [h.own, happend, hnew]

theorem moveAssign (h : Owners p v own ss lost) {target i : Nat} {t s : OwningStatement}
    (ht : ss[target]? = some (some t)) (hs : ss[i]? = some (some s)) (hne : target ≠ i) :
    Triple own (t.object.moveAssign s.object >>= fun r =>
        pure { p with objs := (p.objs.set target (some r.1)).set i (some r.2) }) fun p' own' =>
      Balanced p' { v with
        stmts := (v.stmts.set target (some s.value)).set i (some { s.value with
          handle := none, results := t.value.results, params := t.value.params }) } own' := by
  have hfirst := replace ht (some s)
  have hs' : (ss.set target (some s))[i]? = some (some s) := by
    rw [List.getElem?_set_ne hne]
    exact hs
  have hsecond :=
    replace hs' (some { s with handle := none, resBind := t.resBind, params := t.params })
  generalize hss : (ss.set target (some s)).set i
    (some { s with handle := none, resBind := t.resBind, params := t.params }) = ss' at hsecond
  have hold : t.cells = handleCells t.handle + OwningStatement.cells
      { s with handle := none, resBind := t.resBind, params := t.params } := by
    rw [OwningStatement.cells, OwningStatement.cells, handleCells, handleCells, Option.elim_none,
      zero_add]
  have hsplit : own = handleCells t.handle + (statementCells ss' + lost) := by
    rw [h.own, ← add_assoc]
    refine congrArg (· + lost) (add_right_cancel (b := t.cells + s.cells) ?_)
    rw [Option.elim_some] at hfirst hsecond
    calc statementCells ss + (t.cells + s.cells)
        = (statementCells ss + s.cells) + t.cells := by abel
      _ = (statementCells (ss.set target (some s)) + t.cells) + t.cells := by rw [hfirst]
      _ = handleCells t.handle + (statementCells (ss.set target (some s)) +
            OwningStatement.cells
              { s with handle := none, resBind := t.resBind, params := t.params }) + t.cells := by
          nth_rewrite 2 [hold]
          abel
      _ = handleCells t.handle + statementCells ss' + (t.cells + s.cells) := by
          rw [← hsecond]
          abel
  rw [hsplit]
  have hbind : (t.object.moveAssign s.object >>= fun r =>
      (pure { p with objs := (p.objs.set target (some r.1)).set i (some r.2) } :
        Prog Block Statements)) =
      (stmtClose t.object.stmt_ptr >>= fun _ => pure { p with
        objs := (p.objs.set target (some s.object)).set i (some { s.object with
          stmt_ptr := none, resBind := t.object.resBind, paramBind := t.object.paramBind }) }) := by
    simp only [StatementObject.moveAssign, bind_assoc, pure_bind]
  rw [hbind]
  refine (stmtClose_spec t.handle).bind fun _ own' hown => .pure ?_
  rw [hown, zero_add]
  refine ⟨ss', lost, ?_, ?_, rfl, h.lost, h.sent⟩
  · simp [h.objs, ← hss, List.map_set, OwningStatement.object]
  · simp [h.stmts, ← hss, List.map_set, OwningStatement.value]

theorem destroy (h : Owners p v own ss lost) {i : Nat} {s : OwningStatement}
    (hs : ss[i]? = some (some s)) :
    Triple own (s.object.destroy >>= fun _ => pure { p with objs := p.objs.set i none })
      fun p' own' => Balanced p' { v with stmts := v.stmts.set i none } own' := by
  rw [h.take hs]
  refine (StatementObject.destroy_spec s).bind fun _ own' hown => .pure ?_
  rw [hown, zero_add]
  refine ⟨ss.set i none, lost, ?_, ?_, rfl, h.lost, h.sent⟩
  · simp [h.objs, List.map_set]
  · simp [h.stmts, List.map_set]

end Owners

/-! ## Runs -/

/-- A program on the blocks against a step on the values, which may not be defined. -/
def Agreeing (own : Cells Block) (run : Prog Block Statements) : Option StatementValues → Prop
  | some v => Triple own run fun p own' => Balanced p v own'
  | none => Stuck own run

/-- It is enough to look at a statement that is there. -/
theorem Owners.at {p : Statements} {v : StatementValues} {own : Cells Block}
    {ss : List (Option OwningStatement)} {lost : Cells Block} (h : Owners p v own ss lost) {i : Nat}
    {f : StatementObject → Prog Block Statements} {g : StatementValue → Option StatementValues}
    (hs : ∀ s, ss[i]? = some (some s) → Agreeing own (f s.object) (g s.value)) :
    Agreeing own (p.at i f) (v.at i g) := by
  have hstay : Agreeing own (pure p) (some v) := .pure ⟨ss, lost, h⟩
  unfold Statements.at StatementValues.at
  rw [h.at_objs i, h.at_stmts i]
  match hi : ss[i]? with
  | none => exact hstay
  | some none => exact hstay
  | some (some s) => exact hs s hi

theorem Balanced.step {p : Statements} {v : StatementValues} {own : Cells Block}
    (h : Balanced p v own) (e : StatementEvent) : Agreeing own (e.run p) (e.value v) := by
  obtain ⟨ss, lost, howners⟩ := h
  have hstay : Agreeing own (pure p) (some v) := .pure ⟨ss, lost, howners⟩
  cases e with
  | construct sql reply => exact howners.construct sql reply
  | setParam i columnIndex type value =>
    refine howners.at fun s hs => ?_
    cases hvalid : s.object.isValidParamIndex columnIndex with
    | true =>
      have hvalid' : s.value.isValidParamIndex columnIndex = true := hvalid
      have hlast : s.value.params[columnIndex.toNat - 1]? =
          s.params[columnIndex.toNat - 1]?.map (Option.map SetParam.param) := List.getElem?_map ..
      rw [if_pos hvalid', hlast]
      cases hq : s.params[columnIndex.toNat - 1]? with
      | some q =>
        have hset := howners.setParam hs hvalid hq type value
        simp only [Option.map_some, Option.isSome_map]
        exact hset
      | none =>
        have hroom : ¬ columnIndex.toNat - 1 < s.object.paramBind.length := by
          have hle := List.getElem?_eq_none_iff.mp hq
          simpa [OwningStatement.object] using hle
        simp only [Option.map_none, StatementObject.setParam, hvalid, if_true, hroom, if_false]
        exact fun _ _ _ _ => rfl
    | false =>
      have hvalid' : s.value.isValidParamIndex columnIndex = false := hvalid
      have hsame : p.objs.set i (some s.object) = p.objs := by
        have hget : p.objs[i]? = some (some s.object) := by rw [howners.at_objs, hs]; rfl
        obtain ⟨hlt, heq⟩ := List.getElem?_eq_some_iff.mp hget
        rw [← heq, List.set_getElem_self]
      rw [hvalid', StatementObject.setParam_invalid hvalid, pure_bind, hsame]
      exact hstay
  | execute i =>
    refine howners.at fun s hs => ?_
    cases hhandle : s.handle with
    | some handle =>
      have hvalue : s.value.handle = some handle.2 := by rw [OwningStatement.value, hhandle]; rfl
      rw [hvalue]
      obtain ⟨stmt, sql⟩ := handle
      exact howners.execute hs hhandle
    | none =>
      have hvalue : s.value.handle = none := by rw [OwningStatement.value, hhandle]; rfl
      have hobject : s.object.stmt_ptr = none := by rw [OwningStatement.object, hhandle]; rfl
      simp only [hvalue, Option.map_none, StatementObject.execute, hobject]
      exact fun _ _ _ _ => rfl
  | moveConstruct i => exact howners.at fun s hs => .pure (howners.moveConstruct hs)
  | moveAssign target i =>
    refine howners.at fun t ht => howners.at fun s hs => ?_
    by_cases hsame : target = i
    · rw [if_pos hsame, if_pos hsame]
      exact hstay
    · rw [if_neg hsame, if_neg hsame]
      exact howners.moveAssign ht hs hsame
  | destroy i => exact howners.at fun s hs => howners.destroy hs

theorem Balanced.run {p : Statements} {v : StatementValues} {own : Cells Block}
    (h : Balanced p v own) (events : List StatementEvent) :
    Agreeing own (events.foldlM StatementEvent.run p) (events.foldlM StatementEvent.value v) := by
  induction events generalizing p v own with
  | nil => exact .pure h
  | cons e events ih =>
    have hstep := h.step e
    rw [List.foldlM_cons, List.foldlM_cons]
    cases he : e.value v with
    | none =>
      rw [he] at hstep
      exact hstep.bind _
    | some v' =>
      rw [he] at hstep
      rw [Option.bind_eq_bind, Option.bind_some]
      cases hmore : events.foldlM StatementEvent.value v' with
      | some w =>
        rw [← add_zero own]
        refine hstep.bind fun p' own' hbalanced => ?_
        have hrest := ih hbalanced
        rw [hmore] at hrest
        rw [add_zero]
        exact hrest
      | none =>
        refine hstep.bind_stuck fun p' own' hbalanced => ?_
        have hrest := ih hbalanced
        rw [hmore] at hrest
        exact hrest

end TinyOrm
